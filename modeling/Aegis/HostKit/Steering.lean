import Aegis.HostKit.Run
import Mathlib.Logic.Relation

/-!
# Steering

One state is steered to another by invocations of one kind when every one of
them commits. Steering composes, so a goal can be approached stage by stage,
and what was steered is a run.
-/

set_option autoImplicit false

namespace HostKit

variable {ρ ε σ ι : Type} {body : ι → Host ρ ε σ Unit} {K : Invocation ρ ι → Prop}

variable (body) (K) in
def Steers : σ → σ → Prop := Relation.ReflTransGen fun s t => ∃ i, K i ∧ Commits body s i t

theorem Steers.refl (s : σ) : Steers body K s s := Relation.ReflTransGen.refl

theorem Steers.trans {s t u : σ} (h : Steers body K s t) (h' : Steers body K t u) :
    Steers body K s u := Relation.ReflTransGen.trans h h'

theorem Steers.single {s t : σ} {i : Invocation ρ ι} (hK : K i) (h : Commits body s i t) :
    Steers body K s t := Relation.ReflTransGen.single ⟨i,hK,h⟩

theorem Steers.mono {K' : Invocation ρ ι → Prop} (hK : ∀ i, K i → K' i) {s t : σ}
    (h : Steers body K s t) : Steers body K' s t := by
  induction h with
  | refl => exact Steers.refl s
  | tail _ hlast ih =>
    obtain ⟨i, hi, hc⟩ := hlast
    exact ih.tail ⟨i,hK i hi,hc⟩

theorem Steers.reachable {start s t : σ} (hs : Reachable body start s) (h : Steers body K s t) :
    Reachable body start t := by
  induction h with
  | refl => exact hs
  | tail _ hlast ih =>
    obtain ⟨i, -, hc⟩ := hlast
    exact ih.commits hc

/-- What was steered is a run of invocations of the kind that all commit. -/
theorem Steers.exists_run {s t : σ} (h : Steers body K s t) :
    ∃ is, (∀ i ∈ is, K i) ∧ EachStep body (fun s i => ∃ t, Commits body s i t) is s ∧
      run body is s = t := by
  induction h using Relation.ReflTransGen.head_induction_on with
  | refl => exact ⟨[],by simp,trivial,rfl⟩
  | head hfirst _ ih =>
    obtain ⟨i, hi, hc⟩ := hfirst
    obtain ⟨is, hK, hcommit, hrun⟩ := ih
    refine ⟨i::is,?_,⟨⟨_,hc⟩,?_⟩,?_⟩
    · rw [List.forall_mem_cons]
      exact ⟨hi,hK⟩
    · rw [settle_of_commits hc]
      exact hcommit
    · rw [run, settle_of_commits hc]
      exact hrun

/-- Every run of invocations of the kind steers, the failed ones in place. -/
theorem steers_run {is : List (Invocation ρ ι)} (his : ∀ i ∈ is, K i) (s : σ) :
    Steers body K s (run body is s) := by
  induction is generalizing s with
  | nil => exact Steers.refl s
  | cons i is ih =>
    rw [List.forall_mem_cons] at his
    apply Steers.trans _ (ih his.2 _)
    exact settle_preserves (P := Steers body K s) (fun t hc => Steers.single his.1 hc)
      (Steers.refl s)

/-! ## Along the edges of a graph

A part of the state that takes the values of a graph's nodes. -/

section
variable {V : Type} {E : V → V → Prop} {f : σ → V} {P : σ → Prop}

/-- Where each step follows an edge, what is reached is reached by a path. -/
theorem Steers.confined
    (hstep : ∀ s i t, P s → K i → Commits body s i t → P t ∧ (f t = f s ∨ E (f s) (f t)))
    {s t : σ} (hs : P s) (h : Steers body K s t) : Relation.ReflTransGen E (f s) (f t) := by
  suffices hboth : P t ∧ Relation.ReflTransGen E (f s) (f t) from hboth.2
  induction h with
  | refl => exact ⟨hs,.refl⟩
  | tail _ hlast ih =>
    obtain ⟨i, hi, hc⟩ := hlast
    obtain ⟨ht, hsame | hedge⟩ := hstep _ i _ ih.1 hi hc
    · exact ⟨ht,hsame ▸ ih.2⟩
    · exact ⟨ht,ih.2.tail hedge⟩

/-- Where each edge can be followed, so can every path. -/
theorem Steers.along (hedge : ∀ s w, P s → E (f s) w → ∃ t, Steers body K s t ∧ P t ∧ f t = w)
    {s : σ} (hs : P s) {w : V} (hpath : Relation.ReflTransGen E (f s) w) :
    ∃ t, Steers body K s t ∧ P t ∧ f t = w := by
  induction hpath with
  | refl => exact ⟨s,Steers.refl s,hs,rfl⟩
  | tail _ hlast ih =>
    obtain ⟨t, hsteers, ht, rfl⟩ := ih
    obtain ⟨u, hnext, hu, hfu⟩ := hedge t _ ht hlast
    exact ⟨u,hsteers.trans hnext,hu,hfu⟩

end

end HostKit
