import Mathlib.Algebra.Order.Ring.Int

/-!
# Bounded integers with checked arithmetic

An integer of a machine type carries its own bounds, so a value out of
range cannot be built. Addition and subtraction return nothing when the
exact result leaves the range; every fact is about the exact integers.
-/

set_option autoImplicit false

namespace HostKit

@[ext]
structure CheckedInt (lo hi : ℤ) where
  val : ℤ
  lo_le : lo ≤ val
  le_hi : val ≤ hi
  deriving DecidableEq

namespace CheckedInt
variable {lo hi : ℤ}

def ofInt (z : ℤ) : Option (CheckedInt lo hi) :=
  if h : lo ≤ z ∧ z ≤ hi then some ⟨z,h.1,h.2⟩ else none

def checkedAdd (a b : CheckedInt lo hi) : Option (CheckedInt lo hi) := ofInt (a.val+b.val)

def checkedSub (a b : CheckedInt lo hi) : Option (CheckedInt lo hi) := ofInt (a.val-b.val)

def max (a b : CheckedInt lo hi) : CheckedInt lo hi := if a.val ≤ b.val then b else a

@[simp] theorem max_val (a b : CheckedInt lo hi) : (a.max b).val = Max.max a.val b.val := by
  rw [max]
  split_ifs <;> omega

theorem ofInt_eq_some {z : ℤ} {c : CheckedInt lo hi} : ofInt z = some c ↔ z = c.val := by
  constructor
  · intro h
    unfold ofInt at h
    split at h
    · cases h
      rfl
    · cases h
  · rintro rfl
    simp [ofInt, c.lo_le, c.le_hi]

theorem ofInt_eq_none {z : ℤ} : (ofInt z : Option (CheckedInt lo hi)) = none ↔ z < lo ∨ hi < z := by
  unfold ofInt
  split <;> simp <;> omega

theorem checkedAdd_eq_some {a b c : CheckedInt lo hi} :
    a.checkedAdd b = some c ↔ a.val+b.val = c.val := ofInt_eq_some

theorem checkedSub_eq_some {a b c : CheckedInt lo hi} :
    a.checkedSub b = some c ↔ a.val-b.val = c.val := ofInt_eq_some

theorem checkedAdd_eq_none {a b : CheckedInt lo hi} :
    a.checkedAdd b = none ↔ a.val+b.val < lo ∨ hi < a.val+b.val := ofInt_eq_none

/-- An exact result within the bounds is a value of the type. -/
theorem exists_val {z : ℤ} (h1 : lo ≤ z) (h2 : z ≤ hi) : ∃ c : CheckedInt lo hi, c.val = z :=
  ⟨⟨z,h1,h2⟩,rfl⟩

end CheckedInt
end HostKit
