import Aegis.HostKit.Machine
import Mathlib.Logic.Function.Basic

/-!
# Offices

An office has at most one holder and at most one nominee, and every party
has a rank, one of which is meant for the holder. The holder may name a
nominee, who succeeds by accepting; a vacant office may be founded anew.
Vacating does not withdraw a nomination.
-/

set_option autoImplicit false

namespace HostKit

@[ext]
structure Office (A R : Type) where
  holder : Option A
  nominee : Option A
  rank : A → R

namespace Office
variable {A R : Type}

inductive Act (A R : Type) where
  | found (founder : A)
  | assign (holder target : A) (rank : R)
  | nominate (holder candidate : A)
  | accede (candidate : A)
  | vacate (holder : A)
  deriving DecidableEq

variable [DecidableEq A] (top bottom : R)

/-- The ranks once the holder, if any, has lost the rank of the office. -/
def outgoing (o : Office A R) : A → R := fun a => if o.holder = some a then bottom else o.rank a

def perform : Act A R → Office A R → Office A R
  | .found a, o => { o with holder := some a, rank := Function.update o.rank a top }
  | .assign _ target r, o => { o with rank := Function.update o.rank target r }
  | .nominate _ c, o => { o with nominee := some c }
  | .accede c, o => ⟨some c,none,Function.update (o.outgoing bottom) c top⟩
  | .vacate _, o => { o with holder := none, rank := o.outgoing bottom }

omit [DecidableEq A] in
def Admissible : Act A R → Office A R → Prop
  | .found _, o => o.holder = none
  | .assign a _ r, o => o.holder = some a ∧ r ≠ top
  | .nominate a _, o => o.holder = some a
  | .accede c, o => o.holder ≠ none ∧ o.nominee = some c
  | .vacate a, o => o.holder = some a

def machine : Machine (Act A R) (Office A R) := ⟨Admissible top,perform top bottom⟩

variable {top bottom} {o o' : Office A R} {act : Act A R}

theorem outgoing_of_holder {a : A} (h : o.holder = some a) :
    o.outgoing bottom = Function.update o.rank a bottom := by
  funext x
  by_cases hx : x = a
  · subst hx
    simp [outgoing, h]
  · simp [outgoing, h, hx, Ne.symm hx]

/-! ## Ranks -/

/-- Nobody but the holder has the rank of the office. -/
def Sole (top : R) (o : Office A R) : Prop := ∀ a, o.rank a = top → o.holder = some a

/-- The holder has the rank of the office. -/
def Ranked (top : R) (o : Office A R) : Prop := ∀ a, o.holder = some a → o.rank a = top

theorem outgoing_ne (hne : bottom ≠ top) (h : Sole top o) (a : A) : o.outgoing bottom a ≠ top := by
  intro ha
  rw [outgoing] at ha
  by_cases hholder : o.holder = some a
  · rw [if_pos hholder] at ha
    exact hne ha
  · rw [if_neg hholder] at ha
    exact hholder (h a ha)

theorem perform_sole (hne : bottom ≠ top) (h : Sole top o) (ha : Admissible top act o) :
    Sole top (perform top bottom act o) := by
  intro x hx
  cases act with
  | found a =>
    by_cases hxa : x = a
    · subst hxa
      rfl
    · simp only [perform, Function.update_of_ne hxa] at hx
      have hnone : o.holder = none := ha
      rw [h x hx] at hnone
      cases hnone
  | assign a target r =>
    by_cases hxt : x = target
    · subst hxt
      simp only [perform, Function.update_self] at hx
      exact absurd hx ha.2
    · simp only [perform, Function.update_of_ne hxt] at hx
      exact h x hx
  | nominate a c => exact h x hx
  | accede c =>
    by_cases hxc : x = c
    · subst hxc
      rfl
    · simp only [perform, Function.update_of_ne hxc] at hx
      exact absurd hx (outgoing_ne hne h x)
  | vacate a => exact absurd hx (outgoing_ne hne h x)

/-- Only the holder can take the rank of the office from the holder. -/
theorem perform_ranked (h : Ranked top o) (ha : Admissible top act o)
    (hself : ∀ a r, act ≠ .assign a a r) : Ranked top (perform top bottom act o) := by
  intro x hx
  cases act with
  | found a =>
    cases hx
    simp [perform]
  | assign a target r =>
    have hxt : x ≠ target := by
      rintro rfl
      have hholder : o.holder = some x := hx
      rw [ha.1] at hholder
      cases hholder
      exact hself x r rfl
    simp only [perform, Function.update_of_ne hxt]
    exact h x hx
  | nominate a c => exact h x hx
  | accede c =>
    cases hx
    simp [perform]
  | vacate a => cases hx

variable (bottom) in
theorem self_assigned {a : A} {r : R} (ha : Admissible top (.assign a a r) o) :
    ¬Ranked top (perform top bottom (.assign a a r) o) := by
  intro h
  have hrank := h a ha.1
  simp only [perform, Function.update_self] at hrank
  exact ha.2 hrank

/-! ## Nominations -/

/-- Where a nominee and a holder found together come from: the holder has
just made the nomination, or it was standing, with the same holder or over a
vacancy that is now filled. -/
theorem nominee_origin {act : Option (Act A R)} (h : (machine top bottom).Advances act o o')
    {a b : A} (hnominee : o'.nominee = some b) (hholder : o'.holder = some a) :
    act = some (.nominate a b) ∧ o.holder = some a ∨
      o.nominee = some b ∧ (∀ x y, act ≠ some (.nominate x y)) ∧
        (o.holder = some a ∨ act = some (.found a) ∧ o.holder = none) := by
  cases act with
  | none =>
    rw [show o' = o from h] at hnominee hholder
    exact Or.inr ⟨hnominee,by simp,Or.inl hholder⟩
  | some act =>
    obtain ⟨ha, rfl⟩ := h
    cases act with
    | found founder =>
      cases hholder
      exact Or.inr ⟨hnominee,by simp,Or.inr ⟨rfl,ha⟩⟩
    | assign signer target r => exact Or.inr ⟨hnominee,by simp,Or.inl hholder⟩
    | nominate signer candidate =>
      cases hnominee
      have hsigner : o.holder = some signer := ha
      have hsame : o.holder = some a := hholder
      rw [hsigner] at hsame
      cases hsame
      exact Or.inl ⟨rfl,hsigner⟩
    | accede candidate => cases hnominee
    | vacate signer => cases hholder

end Office
end HostKit
