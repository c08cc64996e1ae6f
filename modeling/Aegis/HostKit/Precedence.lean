import Mathlib.Init

/-!
# Ordered preconditions

A chain of preconditions is judged by the first that fails. Neighbours that
do not fail together may change places, so a chain fixes its order only in
the states where they do.
-/

set_option autoImplicit false

namespace HostKit

/-- What a request must meet, and the reason given where it does not. -/
structure Precondition (S R : Type) where
  holds : S → Bool
  reason : S → R

namespace Precondition
variable {S R : Type} {s : S}

/-- The reason of the first precondition that fails, if one does. -/
def firstFailure (chain : List (Precondition S R)) (s : S) : Option R :=
  (chain.find? fun p => !p.holds s).map fun p => p.reason s

@[simp] theorem firstFailure_nil : firstFailure ([] : List (Precondition S R)) s = none := rfl

theorem firstFailure_cons (p : Precondition S R) (chain : List (Precondition S R)) :
    firstFailure (p::chain) s = if p.holds s then firstFailure chain s else some (p.reason s) := by
  rw [firstFailure, List.find?_cons]
  cases p.holds s <;> rfl

theorem firstFailure_append (before after : List (Precondition S R)) :
    firstFailure (before++after) s = (firstFailure before s).or (firstFailure after s) := by
  rw [firstFailure, List.find?_append, Option.map_or]
  rfl

/-- Neighbours of which one holds may change places. -/
theorem firstFailure_swap {p q : Precondition S R} (h : p.holds s = true ∨ q.holds s = true)
    (before after : List (Precondition S R)) :
    firstFailure (before++p::q::after) s = firstFailure (before++q::p::after) s := by
  rw [firstFailure_append, firstFailure_append, firstFailure_cons, firstFailure_cons,
    firstFailure_cons, firstFailure_cons]
  rcases h with hp | hq
  · rw [if_pos hp, if_pos hp]
  · rw [if_pos hq, if_pos hq]

end Precondition
end HostKit
