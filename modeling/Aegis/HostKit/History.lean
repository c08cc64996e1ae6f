import Aegis.HostKit.Run
import Mathlib.Data.List.Induction

/-!
# Histories

The trace of a run is the history of its last state. A property held since
some event of a kind when the event occurred and every later one has the
property. A part of the state that only labelled transitions write holds
what the latest of them put there.
-/

set_option autoImplicit false

namespace HostKit

section
variable {τ : Type} {P P' K K' : τ → Prop} {ts : List τ} {u : τ}

/-- Some event had `P`, and `K` holds of every event after it. -/
def Since (P K : τ → Prop) (ts : List τ) : Prop :=
  ∃ before t after, ts = before++t::after ∧ P t ∧ ∀ v ∈ after, K v

theorem since_last (ts : List τ) (h : P u) : Since P K (ts++[u]) := by
  refine ⟨ts,u,[],rfl,h,fun v hv => ?_⟩
  cases hv

theorem Since.snoc (h : Since P K ts) (hu : K u) : Since P K (ts++[u]) := by
  obtain ⟨before, t, after, rfl, ht, hafter⟩ := h
  refine ⟨before,t,after++[u],by simp,ht,fun v hv => ?_⟩
  rcases List.mem_append.mp hv with hv | hv
  · exact hafter v hv
  · rw [List.mem_singleton.mp hv]
    exact hu

theorem since_snoc_iff : Since P K (ts++[u]) ↔ P u ∨ Since P K ts ∧ K u := by
  constructor
  · rintro ⟨before, t, after, hts, ht, hafter⟩
    rcases List.eq_nil_or_concat after with rfl | ⟨rest, w, rfl⟩
    · obtain ⟨-, hlast⟩ := List.append_inj' hts rfl
      cases hlast
      exact Or.inl ht
    · rw [List.concat_eq_append, ← List.cons_append, ← List.append_assoc] at hts
      obtain ⟨rfl, hlast⟩ := List.append_inj' hts rfl
      cases hlast
      exact Or.inr ⟨⟨before,t,rest,rfl,ht,fun v hv => hafter v (by simp [hv])⟩,
        hafter u (by simp)⟩
  · rintro (hu | ⟨h, hu⟩)
    · exact since_last ts hu
    · exact h.snoc hu

/-- An event that is not of the kind and breaks the property cuts off what
lies before it. -/
theorem Since.cut {before after : List τ} (h : Since P K (before++u::after)) (hP : ¬P u)
    (hK : ¬K u) : Since P K after := by
  induction after using List.reverseRecOn with
  | nil => exact ((since_snoc_iff.mp h).elim hP fun hboth => hK hboth.2).elim
  | append_singleton after v ih =>
    rw [← List.cons_append, ← List.append_assoc, since_snoc_iff] at h
    rcases h with hv | ⟨hrest, hv⟩
    · exact since_last after hv
    · exact (ih hrest).snoc hv

theorem Since.mono (h : Since P K ts) (hP : ∀ t ∈ ts, P t → P' t) (hK : ∀ t ∈ ts, K t → K' t) :
    Since P' K' ts := by
  obtain ⟨before, t, after, rfl, ht, hafter⟩ := h
  refine ⟨before,t,after,rfl,hP t (by simp) ht,fun v hv => hK v ?_ (hafter v hv)⟩
  simp [hv]

end

variable {ρ ε σ ι W : Type} {body : ι → Host ρ ε σ Unit}

theorem EachStep.extends_history {C : σ → Invocation ρ ι → Prop}
    {Q : List (Transition ρ ι σ) → σ → Prop}
    (hstep : ∀ ts s i t, C s i → Q ts s → Commits body s i t → Q (ts++[⟨s,i,t⟩]) t)
    (is : List (Invocation ρ ι)) {ts : List (Transition ρ ι σ)} {s : σ}
    (hC : EachStep body C is s) (h : Q ts s) : Q (ts++trace body is s) (run body is s) := by
  induction is generalizing ts s with
  | nil => simpa [trace, run] using h
  | cons i is ih =>
    rcases settle_cases body s i with ⟨hc, htrace⟩ | ⟨hstay, htrace⟩
    · have hrest := ih hC.2 (hstep ts s i _ hC.1 h hc)
      rwa [List.append_assoc, List.singleton_append, ← htrace] at hrest
    · have hrest := ih hC.2 (hstay.symm ▸ h)
      rw [hstay] at hrest
      rwa [htrace, run, hstay]

/-- The history rule: what relates a state to its history and is kept by each
committed step of a run relates the last state to the whole history. -/
theorem EachStep.history {C : σ → Invocation ρ ι → Prop}
    {Q : List (Transition ρ ι σ) → σ → Prop}
    (hstep : ∀ ts s i t, C s i → Q ts s → Commits body s i t → Q (ts++[⟨s,i,t⟩]) t)
    (is : List (Invocation ρ ι)) {s : σ} (hC : EachStep body C is s) (h : Q [] s) :
    Q (trace body is s) (run body is s) := by
  simpa using EachStep.extends_history hstep is hC h

theorem history_induct {Q : List (Transition ρ ι σ) → σ → Prop}
    (hstep : ∀ ts s i t, Q ts s → Commits body s i t → Q (ts++[⟨s,i,t⟩]) t)
    (is : List (Invocation ρ ι)) {s : σ} (h : Q [] s) : Q (trace body is s) (run body is s) :=
  EachStep.history (C := fun _ _ => True) (fun ts s i t _ => hstep ts s i t) is
    (eachStep_of_forall (fun _ _ => trivial) is s) h

/-- Every committed step leaves in a part of the state what its label says,
or, without a label, what was there. -/
def WrittenBy (body : ι → Host ρ ε σ Unit) (loc : σ → W)
    (label : Transition ρ ι σ → Option W) : Prop :=
  ∀ s i t, Commits body s i t → loc t = (label ⟨s,i,t⟩).getD (loc s)

/-- The value found in the end was there from the start, or the latest
labelled step put it there. -/
theorem WrittenBy.latest {loc : σ → W} {label : Transition ρ ι σ → Option W}
    (h : WrittenBy body loc label) (is : List (Invocation ρ ι)) (s : σ) :
    ((∀ t ∈ trace body is s, label t = none) ∧ loc (run body is s) = loc s) ∨
      Since (fun t => label t = some (loc (run body is s))) (fun t => label t = none)
        (trace body is s) := by
  apply history_induct (Q := fun ts x => ((∀ t ∈ ts, label t = none) ∧ loc x = loc s) ∨
    Since (fun t => label t = some (loc x)) (fun t => label t = none) ts)
  · intro ts x i y hx hc
    have hy := h x i y hc
    cases hlabel : label ⟨x,i,y⟩ with
    | some w =>
      rw [hlabel, Option.getD_some] at hy
      exact Or.inr (since_last ts (by rw [hlabel, hy]))
    | none =>
      rw [hlabel, Option.getD_none] at hy
      rw [hy]
      refine hx.imp ?_ fun hsince => hsince.snoc hlabel
      rintro ⟨hnone, hsame⟩
      refine ⟨fun t ht => ?_,hsame⟩
      rcases List.mem_append.mp ht with ht | ht
      · exact hnone t ht
      · rw [List.mem_singleton.mp ht, hlabel]
  · exact Or.inl ⟨by simp,rfl⟩

/-- What the latest labelled step put there is found in the end. -/
theorem WrittenBy.of_latest {loc : σ → W} {label : Transition ρ ι σ → Option W}
    (h : WrittenBy body loc label) (is : List (Invocation ρ ι)) (s : σ) {w : W}
    (hsince : Since (fun t => label t = some w) (fun t => label t = none) (trace body is s)) :
    loc (run body is s) = w := by
  revert hsince
  apply history_induct (Q := fun ts x =>
    Since (fun t => label t = some w) (fun t => label t = none) ts → loc x = w)
  · intro ts x i y hx hc hsince
    have hy := h x i y hc
    rcases since_snoc_iff.mp hsince with hlabel | ⟨hbefore, hlabel⟩
    · rwa [hlabel] at hy
    · rw [hlabel, Option.getD_none] at hy
      rw [hy, hx hbefore]
  · rintro ⟨before, t, after, hnil, -⟩
    simp at hnil

end HostKit
