import Aegis.HostKit.Run

/-!
# Machines

A machine has admissible acts and says what each does to its state. A hosted
program refines a machine when each of its committed calls, seen through a
view of the state, performs the admissible act its label names, or changes
nothing in view.
-/

set_option autoImplicit false

namespace HostKit

structure Machine (E S : Type) where
  Admissible : E → S → Prop
  perform : E → S → S

namespace Machine
variable {E S : Type}

/-- One step: an admissible act, or none. -/
def Advances (m : Machine E S) : Option E → S → S → Prop
  | none, x, y => y = x
  | some e, x, y => m.Admissible e x ∧ y = m.perform e x

variable {m : Machine E S}

theorem Advances.preserves {P : S → Prop} {e : Option E} {x y : S} (h : m.Advances e x y)
    (hact : ∀ a, e = some a → m.Admissible a x → P x → P (m.perform a x)) (hx : P x) : P y := by
  cases e with
  | none =>
    rw [show y = x from h]
    exact hx
  | some a =>
    rw [h.2]
    exact hact a rfl h.1 hx

variable {ρ ε σ ι : Type}

def Refines (body : ι → Host ρ ε σ Unit) (m : Machine E S) (view : σ → S)
    (label : ι → Option E) : Prop :=
  ∀ s i t, Commits body s i t → m.Advances (label i.call) (view s) (view t)

/-- An invariant of the machine holds in view of every reachable state. -/
theorem Refines.reachable {body : ι → Host ρ ε σ Unit} {view : σ → S} {label : ι → Option E}
    (h : Refines body m view label) {P : S → Prop}
    (hact : ∀ a x, m.Admissible a x → P x → P (m.perform a x)) {start s : σ} (h0 : P (view start))
    (hs : Reachable body start s) : P (view s) :=
  hs.induct (P := fun s => P (view s)) h0 fun s i t _ hx hc =>
    (h s i t hc).preserves (fun a _ => hact a (view s)) hx

end Machine
end HostKit
