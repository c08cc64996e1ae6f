import Aegis.HostKit.Run
import Aegis.HostKit.Store

/-!
# Footprints

A computation respects a relation between states when from related states it
returns the same and leaves related states. What every invocation of a run
respects, the run respects. Where the invocations of two groups commute up
to an equivalence, all their interleavings end alike; and where repeating an
invocation changes nothing up to an equivalence, neither does redelivery.
-/

set_option autoImplicit false

namespace HostKit

/-! ## Stores that agree on a set of keys -/

namespace Store
variable {K : Type} {V : K → Type} {R W : Set K} {s t u : Store K V}

def AgreeOn (R : Set K) (s t : Store K V) : Prop := ∀ k, k ∈ R → s.get k = t.get k

theorem AgreeOn.refl (R : Set K) (s : Store K V) : AgreeOn R s s := fun _ _ => rfl

theorem AgreeOn.symm (h : AgreeOn R s t) : AgreeOn R t s := fun k hk => (h k hk).symm

theorem AgreeOn.trans (h : AgreeOn R s t) (h' : AgreeOn R t u) : AgreeOn R s u :=
  fun k hk => (h k hk).trans (h' k hk)

theorem AgreeOff.agreeOn (h : AgreeOff W s t) (hapart : ∀ k ∈ R, k ∉ W) :
    AgreeOn R s t := fun k hk => (h k (hapart k hk)).symm

variable [DecidableEq K]

theorem AgreeOn.set (h : AgreeOn R s t) (k : K) (v : V k) : AgreeOn R (s.set k v) (t.set k v) :=
  fun j hj => get_set_congr k v (h j hj)

theorem AgreeOn.remove (h : AgreeOn R s t) (k : K) : AgreeOn R (s.remove k) (t.remove k) :=
  fun j hj => get_remove_congr k (h j hj)

end Store

/-! ## Computations that respect a relation -/

variable {ρ ε σ ι α β : Type}

namespace Host

def Respects (R : σ → σ → Prop) (x : Host ρ ε σ α) : Prop :=
  ∀ r s t, R s t → (x.exec r s).1 = (x.exec r t).1 ∧ R (x.exec r s).2 (x.exec r t).2

section
variable {R : σ → σ → Prop}

theorem respects_pure (a : α) : Respects R (pure a : Host ρ ε σ α) := fun _ _ _ h => ⟨rfl,h⟩

theorem Respects.bind {x : Host ρ ε σ α} {f : α → Host ρ ε σ β} (hx : Respects R x)
    (hf : ∀ a, Respects R (f a)) : Respects R (x >>= f) := by
  intro r s t h
  obtain ⟨hsame, hrest⟩ := hx r s t h
  rw [exec_bind, exec_bind]
  rcases hs : x.exec r s with ⟨e | a, s'⟩ <;> rcases ht : x.exec r t with ⟨e' | a', t'⟩ <;>
    rw [hs, ht] at hsame hrest <;> cases hsame
  · exact ⟨rfl,hrest⟩
  · exact hf a r s' t' hrest

theorem respects_check {g : σ → Except ε α} (hg : ∀ s t, R s t → g s = g t) :
    Respects R (check g : Host ρ ε σ α) := fun _ s t h => ⟨hg s t h,h⟩

theorem respects_load {g : σ → α} (hg : ∀ s t, R s t → g s = g t) :
    Respects R (load g : Host ρ ε σ α) := fun _ s t h => ⟨congrArg Except.ok (hg s t h),h⟩

theorem respects_modify {f : σ → σ} (hf : ∀ s t, R s t → R (f s) (f t)) :
    Respects R (modify f : Host ρ ε σ Unit) := fun _ s t h => ⟨rfl,hf s t h⟩

theorem respects_require (p : ρ → Bool) (e : ε) :
    Respects R (require p e : Host ρ ε σ Unit) := fun _ _ _ h => ⟨rfl,h⟩

theorem respects_failWhen (p : Prop) [Decidable p] (e : ε) :
    Respects R (failWhen p e : Host ρ ε σ Unit) := fun _ _ _ h => ⟨rfl,h⟩

end
end Host

section
variable {body : ι → Host ρ ε σ Unit} {R : σ → σ → Prop} {s t s' : σ} {i : Invocation ρ ι}

theorem Commits.respected (hi : (body i.call).Respects R) (h : R s t)
    (hc : Commits body s i s') : ∃ t', Commits body t i t' ∧ R s' t' := by
  obtain ⟨hsame, hrest⟩ := hi i.context s t h
  rw [show (body i.call).exec i.context s = (.ok (), s') from hc] at hsame hrest
  exact ⟨((body i.call).exec i.context t).2,Prod.ext hsame.symm rfl,hrest⟩

theorem settle_respects (hi : (body i.call).Respects R) (h : R s t) :
    R (settle body s i) (settle body t i) := by
  obtain ⟨hsame, hrest⟩ := hi i.context s t h
  unfold settle
  rcases hs : (body i.call).exec i.context s with ⟨e | a, s'⟩ <;>
    rcases ht : (body i.call).exec i.context t with ⟨e' | a', t'⟩ <;>
    rw [hs, ht] at hsame hrest <;> cases hsame
  · exact h
  · exact hrest

theorem run_respects {is : List (Invocation ρ ι)} (his : ∀ i ∈ is, (body i.call).Respects R)
    (h : R s t) : R (run body is s) (run body is t) := by
  induction is generalizing s t with
  | nil => exact h
  | cons i is ih =>
    rw [List.forall_mem_cons] at his
    exact ih his.2 (settle_respects his.1 h)

end

/-! ## Interleavings -/

/-- The third list holds the entries of the first two, each in its order. -/
inductive Interleaves {τ : Type} : List τ → List τ → List τ → Prop
  | nil : Interleaves [] [] []
  | left {a : τ} {as bs cs : List τ} : Interleaves as bs cs → Interleaves (a::as) bs (a::cs)
  | right {b : τ} {as bs cs : List τ} : Interleaves as bs cs → Interleaves as (b::bs) (b::cs)

theorem Interleaves.symm {τ : Type} {as bs cs : List τ} (h : Interleaves as bs cs) :
    Interleaves bs as cs := by
  induction h with
  | nil => exact .nil
  | left _ ih => exact ih.right
  | right _ ih => exact ih.left

section
variable {body : ι → Host ρ ε σ Unit} {E : σ → σ → Prop} {as bs cs : List (Invocation ρ ι)}

/-- One invocation may be put off until after a whole run it commutes with. -/
theorem run_postponed (hE : Equivalence E) (hstep : ∀ i, (body i).Respects E)
    {b : Invocation ρ ι}
    (hswap : ∀ a ∈ as, ∀ s, E (settle body (settle body s a) b) (settle body (settle body s b) a))
    (s : σ) : E (run body as (settle body s b)) (settle body (run body as s) b) := by
  induction as generalizing s with
  | nil => exact hE.refl _
  | cons a as ih =>
    rw [List.forall_mem_cons] at hswap
    have hfirst : E (run body as (settle body (settle body s b) a))
        (run body as (settle body (settle body s a) b)) :=
      run_respects (fun i _ => hstep i.call) (hE.symm (hswap.1 s))
    exact hE.trans hfirst (ih hswap.2 (settle body s a))

theorem Interleaves.run (h : Interleaves as bs cs) (hE : Equivalence E)
    (hstep : ∀ i, (body i).Respects E)
    (hswap : ∀ a ∈ as, ∀ b ∈ bs, ∀ s,
      E (settle body (settle body s a) b) (settle body (settle body s b) a))
    (s : σ) : E (run body cs s) (run body (as++bs) s) := by
  induction h generalizing s with
  | nil => exact hE.refl s
  | left _ ih =>
    rw [List.forall_mem_cons] at hswap
    exact ih hswap.2 _
  | @right b as bs cs _ ih =>
    have hrest := ih (fun a ha b' hb' => hswap a ha b' (List.mem_cons_of_mem b hb'))
      (settle body s b)
    rw [run_append] at hrest
    rw [run_append]
    have hmoved := run_postponed hE hstep
      (fun a ha => hswap a ha b List.mem_cons_self) s
    exact hE.trans hrest (run_respects (fun i _ => hstep i.call) hmoved)

end

section
variable {body : ι → Host ρ ε σ Unit} {R : σ → σ → Prop} {P : σ → Prop}
  {K L : Invocation ρ ι → Prop}

/-- The simulation rule among others: where the first group keeps the states
related, and a related state answers each commit of the second group, the
second group commits alike in every interleaving. -/
theorem Interleaves.simulates
    (hother : ∀ s t i t', P s → R s t → K i → Commits body t i t' → R s t')
    (hown : ∀ s t j s', P s → R s t → L j → Commits body s j s' →
      ∃ t', Commits body t j t' ∧ R s' t')
    {is js cs : List (Invocation ρ ι)} (h : Interleaves is js cs) (his : ∀ i ∈ is, K i)
    (hjs : ∀ j ∈ js, L j) {s t : σ} (hP : Throughout body P js s)
    (hcommit : EachStep body (fun s j => ∃ s', Commits body s j s') js s) (hR : R s t) :
    (∃ ks, ks.Sublist is ∧ Interleaves ks js ((trace body cs t).map Transition.via)) ∧
      R (HostKit.run body js s) (HostKit.run body cs t) := by
  induction h generalizing s t with
  | nil => exact ⟨⟨[],List.Sublist.refl [],.nil⟩,hR⟩
  | @left i is js cs _ ih =>
    rw [List.forall_mem_cons] at his
    rcases settle_cases body t i with ⟨hc, htrace⟩ | ⟨hstay, htrace⟩
    · obtain ⟨⟨ks, hsub, hkeep⟩, hends⟩ :=
        ih his.2 hjs hP hcommit (hother s t i _ hP.here hR his.1 hc)
      rw [htrace]
      exact ⟨⟨i::ks,hsub.cons_cons i,hkeep.left⟩,hends⟩
    · obtain ⟨⟨ks, hsub, hkeep⟩, hends⟩ := ih his.2 hjs hP hcommit hR
      rw [htrace, HostKit.run, hstay]
      exact ⟨⟨ks,hsub.cons i,hkeep⟩,hends⟩
  | @right j is js cs _ ih =>
    rw [List.forall_mem_cons] at hjs
    obtain ⟨⟨s', hc⟩, hrest⟩ := hcommit
    obtain ⟨t', hc', hrelated⟩ := hown s t j s' hP.1 hR hjs.1 hc
    have hlater := hP.2
    rw [settle_of_commits hc] at hrest hlater
    obtain ⟨⟨ks, hsub, hkeep⟩, hends⟩ := ih his hjs.2 hlater hrest hrelated
    rw [trace_of_commits hc', HostKit.run, HostKit.run, settle_of_commits hc,
      settle_of_commits hc']
    exact ⟨⟨ks,hsub,hkeep.right⟩,hends⟩

end

/-! ## Redelivery -/

/-- The second list repeats entries of one kind in place, each any number of times. -/
inductive Redelivers {α : Type} (p : α → Prop) : List α → List α → Prop
  | nil : Redelivers p [] []
  | once {as bs : List α} (a : α) (h : Redelivers p as bs) : Redelivers p (a::as) (a::bs)
  | again {as bs : List α} {a : α} (hp : p a) (h : Redelivers p (a::as) (a::bs)) :
    Redelivers p (a::as) (a::a::bs)

theorem Redelivers.run_related {ρ ε σ ι : Type} {body : ι → Host ρ ε σ Unit} {E : σ → σ → Prop}
    {p : Invocation ρ ι → Prop} {as bs : List (Invocation ρ ι)} (h : Redelivers p as bs)
    (hE : Equivalence E) (hstep : ∀ i, (body i).Respects E)
    (hidle : ∀ i, p i → ∀ s, E (settle body (settle body s i) i) (settle body s i)) (s : σ) :
    E (run body bs s) (run body as s) := by
  induction h generalizing s with
  | nil => exact hE.refl s
  | once a _ ih => exact ih (settle body s a)
  | @again as bs a hp _ ih =>
    have hsettled : E (run body bs (settle body (settle body s a) a))
        (run body bs (settle body s a)) :=
      run_respects (fun i _ => hstep i.call) (hidle a hp s)
    exact hE.trans hsettled (ih s)

end HostKit
