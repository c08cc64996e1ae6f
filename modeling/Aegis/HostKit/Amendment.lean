import Aegis.HostKit.History
import Aegis.HostKit.Machine

/-!
# Amendments in two steps

A value is amended by proposing another and accepting the proposal, unless it
is cancelled or replaced before. Proposals are vetted against the active
value when they are made and not again. In a program that refines this
machine a change of the active value is the acceptance of the latest
proposal, and no proposal is accepted twice.
-/

set_option autoImplicit false

namespace HostKit

@[ext]
structure Amendment (V : Type) where
  active : Option V
  pending : Option V

namespace Amendment
variable {V : Type}

inductive Act (V : Type) where
  | propose (value : V)
  | accept
  | cancel
  deriving DecidableEq

/-- What an act leaves pending. -/
def Act.leaves : Act V → Option V
  | .propose v => some v
  | .accept | .cancel => none

def perform : Act V → Amendment V → Amendment V
  | .propose v, m => { m with pending := some v }
  | .accept, m => ⟨m.pending,none⟩
  | .cancel, m => { m with pending := none }

/-- A proposal is vetted against the active value; the other two acts need
one to be pending. -/
def Admissible (vetted : Option V → V → Prop) : Act V → Amendment V → Prop
  | .propose v, m => vetted m.active v
  | .accept, m => m.pending ≠ none
  | .cancel, m => m.pending ≠ none

def machine (vetted : Option V → V → Prop) : Machine (Act V) (Amendment V) :=
  ⟨Admissible vetted,perform⟩

variable {vetted : Option V → V → Prop} {act : Act V} {m : Amendment V}

theorem perform_pending : (perform act m).pending = act.leaves := by
  cases act <;> rfl

theorem leaves_eq_some {v : V} : act.leaves = some v ↔ act = .propose v := by
  cases act <;> simp [Act.leaves]

/-! ## Invariants -/

/-- The active value does not change under a pending proposal, so the proposal
stays vetted. -/
theorem perform_vetted (ha : Admissible vetted act m) {v : V}
    (hv : (perform act m).pending = some v) : vetted (perform act m).active v := by
  rw [perform_pending, leaves_eq_some] at hv
  subst hv
  exact ha

theorem perform_valid {Q : V → Prop} (hvet : ∀ x v, vetted x v → Q v)
    (ha : Admissible vetted act m)
    (h : ∀ v, m.active = some v ∨ m.pending = some v → Q v) :
    ∀ v, (perform act m).active = some v ∨ (perform act m).pending = some v → Q v := by
  rintro v (hv | hv)
  · cases act with
    | propose w => exact h v (Or.inl hv)
    | accept => exact h v (Or.inr hv)
    | cancel => exact h v (Or.inl hv)
  · exact hvet _ _ (perform_vetted ha hv)

/-! ## Runs of a refining program -/

section
variable {ρ ε σ ι : Type} {body : ι → Host ρ ε σ Unit} {view : σ → Amendment V}
  {label : ι → Option (Act V)}

theorem refines_vetted (h : Machine.Refines body (machine vetted) view label) {start s : σ}
    (h0 : (view start).pending = none) (hs : Reachable body start s) {v : V}
    (hv : (view s).pending = some v) : vetted (view s).active v := by
  refine h.reachable (P := fun m => ∀ v, m.pending = some v → vetted m.active v) ?_ ?_ hs v hv
  · intro act m ha _ v hv
    exact perform_vetted ha hv
  · intro w hw
    rw [h0] at hw
    cases hw

theorem refines_valid (h : Machine.Refines body (machine vetted) view label) {Q : V → Prop}
    (hvet : ∀ x v, vetted x v → Q v) {start s : σ} (h0 : view start = ⟨none,none⟩)
    (hs : Reachable body start s) {v : V}
    (hv : (view s).active = some v ∨ (view s).pending = some v) : Q v := by
  refine h.reachable (P := fun m => ∀ v, m.active = some v ∨ m.pending = some v → Q v)
    ?_ ?_ hs v hv
  · intro act m ha hm
    exact perform_valid hvet ha hm
  · intro w hw
    simp [h0] at hw

/-- Only an acceptance changes the active value, and it leaves there what was
pending. -/
theorem changed_accepted (h : Machine.Refines body (machine vetted) view label) {s t : σ}
    {i : Invocation ρ ι} (hc : Commits body s i t) (hne : (view t).active ≠ (view s).active) :
    label i.call = some .accept := by
  have hadvance := h s i t hc
  cases hlabel : label i.call with
  | none =>
    rw [hlabel] at hadvance
    exact absurd (congrArg active hadvance) hne
  | some act =>
    rw [hlabel] at hadvance
    cases act with
    | propose w => exact absurd (congrArg active hadvance.2) hne
    | accept => rfl
    | cancel => exact absurd (congrArg active hadvance.2) hne

theorem accepted_pending (h : Machine.Refines body (machine vetted) view label) {s t : σ}
    {i : Invocation ρ ι} (hc : Commits body s i t) (haccept : label i.call = some .accept) :
    ∃ v, (view s).pending = some v ∧ (view t).active = some v := by
  have hadvance := h s i t hc
  rw [haccept] at hadvance
  obtain ⟨v, hv⟩ := Option.ne_none_iff_exists'.mp hadvance.1
  refine ⟨v,hv,?_⟩
  rw [hadvance.2]
  exact hv

/-- Every act leaves pending what its label says. -/
theorem pending_written (h : Machine.Refines body (machine vetted) view label) :
    WrittenBy body (fun s => (view s).pending) fun t => (label t.via.call).map Act.leaves := by
  intro s i t hc
  change (view t).pending = ((label i.call).map Act.leaves).getD (view s).pending
  have hadvance := h s i t hc
  cases hlabel : label i.call with
  | none =>
    rw [hlabel] at hadvance
    rw [show view t = view s from hadvance]
    rfl
  | some act =>
    rw [hlabel] at hadvance
    rw [hadvance.2]
    exact perform_pending

/-- What is pending was put there by the latest act, a proposal. -/
theorem pending_proposed (h : Machine.Refines body (machine vetted) view label)
    (is : List (Invocation ρ ι)) {s : σ} (h0 : (view s).pending = none) {v : V}
    (hv : (view (run body is s)).pending = some v) :
    Since (fun t => label t.via.call = some (.propose v)) (fun t => label t.via.call = none)
      (trace body is s) := by
  rcases (pending_written h).latest is s with ⟨-, hsame⟩ | hsince
  · rw [hv, h0] at hsame
    cases hsame
  · simp only [hv] at hsince
    refine hsince.mono (fun t _ ht => ?_) fun t _ ht => Option.map_eq_none_iff.mp ht
    obtain ⟨act, hact, hleaves⟩ := Option.map_eq_some_iff.mp ht
    rw [hact, leaves_eq_some.mp hleaves]

/-- And what the latest act proposed is still pending. -/
theorem pending_of_proposed (h : Machine.Refines body (machine vetted) view label)
    (is : List (Invocation ρ ι)) (s : σ) {v : V}
    (hsince : Since (fun t => label t.via.call = some (.propose v))
      (fun t => label t.via.call = none) (trace body is s)) :
    (view (run body is s)).pending = some v := by
  apply (pending_written h).of_latest is s
  refine hsince.mono (fun t _ ht => ?_) fun t _ ht => ?_
  · rw [ht]
    rfl
  · rw [ht]
    rfl

/-- What is accepted after an earlier acceptance was proposed after it. -/
theorem proposed_between (h : Machine.Refines body (machine vetted) view label)
    {is : List (Invocation ρ ι)} {s : σ} (h0 : (view s).pending = none)
    {before mid after : List (Transition ρ ι σ)} {t u : Transition ρ ι σ}
    (htrace : trace body is s = before++t::(mid++u::after))
    (ht : label t.via.call = some .accept) (hu : label u.via.call = some .accept) :
    ∃ v, (view u.post).active = some v ∧
      Since (fun t => label t.via.call = some (.propose v)) (fun t => label t.via.call = none)
        mid := by
  rw [← List.cons_append, ← List.append_assoc] at htrace
  obtain ⟨js, hjs, hpre, hc⟩ := exists_prefix htrace
  obtain ⟨v, hpending, hactive⟩ := accepted_pending h hc hu
  refine ⟨v,hactive,?_⟩
  rw [← hpre] at hpending
  have hsince := pending_proposed h js h0 hpending
  rw [hjs] at hsince
  apply hsince.cut
  · rw [ht]
    simp
  · rw [ht]
    simp

end

end Amendment
end HostKit
