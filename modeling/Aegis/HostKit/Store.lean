import Mathlib.Data.Set.Basic
import Mathlib.Logic.Function.Basic

/-!
# Typed key-value stores

Every key fixes the type of the value stored under it, and a key may be
absent. Writing or removing one key leaves all others as they were, so the
effect of a program on a store is described by the set of keys it touches.
-/

set_option autoImplicit false

namespace HostKit

@[ext]
structure Store (K : Type) (V : K → Type) where
  get : (k : K) → Option (V k)

namespace Store
variable {K : Type} {V : K → Type}

def empty : Store K V := ⟨fun _ => none⟩

def has (s : Store K V) (k : K) : Bool := (s.get k).isSome

@[simp] theorem get_empty (k : K) : (empty : Store K V).get k = none := rfl

variable [DecidableEq K]

def set (s : Store K V) (k : K) (v : V k) : Store K V := ⟨Function.update s.get k (some v)⟩

def remove (s : Store K V) (k : K) : Store K V := ⟨Function.update s.get k none⟩

@[simp] theorem get_set_self (s : Store K V) (k : K) (v : V k) : (s.set k v).get k = some v := by
  simp [set]

@[simp] theorem get_set_of_ne (s : Store K V) {k j : K} (v : V k) (h : j ≠ k) :
    (s.set k v).get j = s.get j := by
  simp [set, h]

@[simp] theorem get_remove_self (s : Store K V) (k : K) : (s.remove k).get k = none := by
  simp [remove]

@[simp] theorem get_remove_of_ne (s : Store K V) {k j : K} (h : j ≠ k) :
    (s.remove k).get j = s.get j := by
  simp [remove, h]

/-! Writing what is there changes nothing. -/

theorem set_of_get {s : Store K V} {k : K} {v : V k} (h : s.get k = some v) : s.set k v = s := by
  ext1
  simp [set, ← h]

theorem set_set (s : Store K V) (k : K) (v w : V k) : (s.set k v).set k w = s.set k w := by
  simp [set]

/-! What is read at a key after a write depends on what was there alone. -/

theorem get_set_congr {s t : Store K V} {j : K} (k : K) (v : V k) (h : s.get j = t.get j) :
    (s.set k v).get j = (t.set k v).get j := by
  by_cases hj : j = k
  · subst hj
    simp
  · simpa [hj] using h

theorem get_remove_congr {s t : Store K V} {j : K} (k : K) (h : s.get j = t.get j) :
    (s.remove k).get j = (t.remove k).get j := by
  by_cases hj : j = k
  · subst hj
    simp
  · simpa [hj] using h

/-! Two stores agree off a set of keys when no other key tells them apart. -/

omit [DecidableEq K]

def AgreeOff (W : Set K) (s t : Store K V) : Prop := ∀ k, k ∉ W → t.get k = s.get k

theorem AgreeOff.refl (W : Set K) (s : Store K V) : AgreeOff W s s := fun _ _ => rfl

theorem AgreeOff.trans {W : Set K} {s t u : Store K V} (h : AgreeOff W s t) (h' : AgreeOff W t u) :
    AgreeOff W s u := fun k hk => (h' k hk).trans (h k hk)

theorem AgreeOff.mono {W W' : Set K} {s t : Store K V} (h : AgreeOff W s t) (hsub : W ⊆ W') :
    AgreeOff W' s t := fun k hk => h k fun hw => hk (hsub hw)

/-- A reader of one key reads the same off the set. -/
theorem AgreeOff.getD {W : Set K} {s t : Store K V} (h : AgreeOff W s t) (k : K) (hk : k ∉ W)
    (d : V k) : (t.get k).getD d = (s.get k).getD d := by rw [h k hk]

theorem AgreeOff.mem_of_changed {W : Set K} {s t : Store K V} (h : AgreeOff W s t) {k : K}
    (hk : t.get k ≠ s.get k) : k ∈ W := by
  by_contra hw
  exact hk (h k hw)

/-! The part of a store under the keys of one kind. -/

def restrict (p : K → Bool) (s : Store K V) : Store K V :=
  ⟨fun k => if p k then s.get k else none⟩

theorem get_restrict {p : K → Bool} {k : K} (s : Store K V) (h : p k = true) :
    (s.restrict p).get k = s.get k := if_pos h

theorem AgreeOff.restrict {W : Set K} {s t : Store K V} (h : AgreeOff W s t) {p : K → Bool}
    (hW : ∀ k ∈ W, p k = false) : t.restrict p = s.restrict p := by
  ext1
  funext k
  by_cases hk : p k = true
  · rw [get_restrict t hk, get_restrict s hk]
    apply h
    intro hw
    rw [hW k hw] at hk
    cases hk
  · simp [Store.restrict, hk]

variable [DecidableEq K]

theorem AgreeOff.set {W : Set K} {s t : Store K V} (h : AgreeOff W s t) {k : K} (hk : k ∈ W)
    (v : V k) : AgreeOff W s (t.set k v) := by
  intro j hj
  have hne : j ≠ k := fun he => hj (he ▸ hk)
  rw [get_set_of_ne t v hne, h j hj]

theorem AgreeOff.remove {W : Set K} {s t : Store K V} (h : AgreeOff W s t) {k : K} (hk : k ∈ W) :
    AgreeOff W s (t.remove k) := by
  intro j hj
  have hne : j ≠ k := fun he => hj (he ▸ hk)
  rw [get_remove_of_ne t hne, h j hj]

/-! A write under a key of the kind is a write to that part, and no other
write shows in it. -/

section
variable {p : K → Bool} {k : K}

theorem restrict_set (s : Store K V) (v : V k) (h : p k = true) :
    (s.set k v).restrict p = (s.restrict p).set k v := by
  ext1
  funext j
  by_cases hj : j = k
  · subst hj
    rw [get_restrict _ h, get_set_self, get_set_self]
  · simp [restrict, hj]

theorem restrict_remove (s : Store K V) (h : p k = true) :
    (s.remove k).restrict p = (s.restrict p).remove k := by
  ext1
  funext j
  by_cases hj : j = k
  · subst hj
    rw [get_restrict _ h, get_remove_self, get_remove_self]
  · simp [restrict, hj]

theorem restrict_remove_of_not (s : Store K V) (h : p k = false) :
    (s.remove k).restrict p = s.restrict p := by
  apply ((AgreeOff.refl {k} s).remove rfl).restrict
  rintro j rfl
  exact h

end

end Store
end HostKit
