import Mathlib.Init

/-!
# Host computations

A host computation reads a fixed context, threads a state, and returns or
fails. A failing computation keeps the state it had reached: discarding it
is the host's decision and is not built into the program.
-/

set_option autoImplicit false

namespace HostKit

def Host (ρ ε σ α : Type) : Type := ρ → σ → Except ε α × σ

namespace Host
variable {ρ ε σ α β : Type}

def exec (x : Host ρ ε σ α) (r : ρ) (s : σ) : Except ε α × σ := x r s

instance : Monad (Host ρ ε σ) where
  pure a := fun _ s => (.ok a, s)
  bind x f := fun r s => match x r s with
    | (.ok a, t) => f a r t
    | (.error e, t) => (.error e, t)

/-- A guard reads the state only: its type leaves it no way to write. -/
def check (g : σ → Except ε α) : Host ρ ε σ α := fun _ s => (g s, s)

def load (g : σ → α) : Host ρ ε σ α := fun _ s => (.ok (g s), s)

def modify (f : σ → σ) : Host ρ ε σ Unit := fun _ s => (.ok (), f s)

def require (p : ρ → Bool) (e : ε) : Host ρ ε σ Unit :=
  fun r s => (if p r then .ok () else .error e, s)

def failWhen (p : Prop) [Decidable p] (e : ε) : Host ρ ε σ Unit :=
  fun _ s => (if p then .error e else .ok (), s)

theorem exec_bind (x : Host ρ ε σ α) (f : α → Host ρ ε σ β) (r : ρ) (s : σ) :
    (x >>= f).exec r s = match x.exec r s with
      | (.ok a, t) => (f a).exec r t
      | (.error e, t) => (.error e, t) := rfl

@[simp] theorem exec_pure (a : α) (r : ρ) (s : σ) :
    (pure a : Host ρ ε σ α).exec r s = (.ok a, s) := rfl

@[simp] theorem exec_check (g : σ → Except ε α) (r : ρ) (s : σ) :
    (check g : Host ρ ε σ α).exec r s = (g s, s) := rfl

@[simp] theorem exec_load (g : σ → α) (r : ρ) (s : σ) :
    (load g : Host ρ ε σ α).exec r s = (.ok (g s), s) := rfl

@[simp] theorem exec_modify (f : σ → σ) (r : ρ) (s : σ) :
    (modify f : Host ρ ε σ Unit).exec r s = (.ok (), f s) := rfl

@[simp] theorem exec_require (p : ρ → Bool) (e : ε) (r : ρ) (s : σ) :
    (require p e : Host ρ ε σ Unit).exec r s = (if p r then .ok () else .error e, s) := rfl

@[simp] theorem exec_failWhen (p : Prop) [Decidable p] (e : ε) (r : ρ) (s : σ) :
    (failWhen p e : Host ρ ε σ Unit).exec r s = (if p then .error e else .ok (), s) := rfl

/-! Composition. A sequence fails with the state its failing part reached,
and a sequence of steps that leave the state alone leaves it alone. -/

theorem exec_bind_of_ok {x : Host ρ ε σ α} {f : α → Host ρ ε σ β} {r : ρ} {s t : σ} {a : α}
    (h : x.exec r s = (.ok a, t)) : (x >>= f).exec r s = (f a).exec r t := by
  rw [exec_bind, h]

theorem exec_bind_of_error {x : Host ρ ε σ α} {f : α → Host ρ ε σ β} {r : ρ} {s t : σ} {e : ε}
    (h : x.exec r s = (.error e, t)) : (x >>= f).exec r s = (.error e, t) := by
  rw [exec_bind, h]

theorem bind_ok_iff {x : Host ρ ε σ α} {f : α → Host ρ ε σ β} {r : ρ} {s u : σ} {b : β} :
    (x >>= f).exec r s = (.ok b, u) ↔
      ∃ a t, x.exec r s = (.ok a, t) ∧ (f a).exec r t = (.ok b, u) := by
  rw [exec_bind]
  rcases x.exec r s with ⟨e | a, t⟩
  · simp
  · constructor
    · intro h
      exact ⟨a,t,rfl,h⟩
    · rintro ⟨a', t', h, h'⟩
      cases h
      exact h'

theorem bind_error_iff {x : Host ρ ε σ α} {f : α → Host ρ ε σ β} {r : ρ} {s u : σ} {e : ε} :
    (x >>= f).exec r s = (.error e, u) ↔
      x.exec r s = (.error e, u) ∨
        ∃ a t, x.exec r s = (.ok a, t) ∧ (f a).exec r t = (.error e, u) := by
  rw [exec_bind]
  rcases x.exec r s with ⟨e' | a, t⟩
  · simp
  · constructor
    · intro h
      exact Or.inr ⟨a,t,rfl,h⟩
    · rintro (h | ⟨a', t', h, h'⟩)
      · cases h
      · cases h
        exact h'

theorem check_ok_iff {g : σ → Except ε α} {r : ρ} {s t : σ} {a : α} :
    (check g : Host ρ ε σ α).exec r s = (.ok a, t) ↔ g s = .ok a ∧ t = s := by
  simp [eq_comm]

theorem load_ok_iff {g : σ → α} {r : ρ} {s t : σ} {a : α} :
    (load g : Host ρ ε σ α).exec r s = (.ok a, t) ↔ a = g s ∧ t = s := by
  simp [eq_comm]

theorem modify_ok_iff {f : σ → σ} {r : ρ} {s t : σ} {a : Unit} :
    (modify f : Host ρ ε σ Unit).exec r s = (.ok a, t) ↔ t = f s := by
  simp [eq_comm]

theorem require_ok_iff {p : ρ → Bool} {e : ε} {r : ρ} {s t : σ} {a : Unit} :
    (require p e : Host ρ ε σ Unit).exec r s = (.ok a, t) ↔ p r = true ∧ t = s := by
  rw [exec_require]
  by_cases h : p r = true <;> simp [h, eq_comm]

theorem failWhen_ok_iff {p : Prop} [Decidable p] {e : ε} {r : ρ} {s t : σ} {a : Unit} :
    (failWhen p e : Host ρ ε σ Unit).exec r s = (.ok a, t) ↔ ¬p ∧ t = s := by
  rw [exec_failWhen]
  by_cases h : p <;> simp [h, eq_comm]

/-- A guard inside a computation refuses as it does in a chain of guards, if
what follows it does. -/
theorem check_refuses {γ : Type} {g : σ → Except ε α} {f : α → Host ρ ε σ β} {rest : α → Except ε γ}
    {r : ρ} {s : σ} {e : ε} (h : (g s >>= rest) = .error e)
    (hrest : ∀ a, rest a = .error e → (f a).exec r s = (.error e, s)) :
    (check g >>= f).exec r s = (.error e, s) := by
  rw [exec_bind, exec_check]
  cases hg : g s with
  | error e' =>
    rw [hg] at h
    cases h
    rfl
  | ok a =>
    rw [hg] at h
    exact hrest a h

/-! The errors a computation can fail with, in whatever context and state. -/

def FailsOnly (P : ε → Prop) (x : Host ρ ε σ α) : Prop :=
  ∀ r s e t, x.exec r s = (.error e, t) → P e

section
variable {P : ε → Prop}

theorem FailsOnly.bind {x : Host ρ ε σ α} {f : α → Host ρ ε σ β} (hx : FailsOnly P x)
    (hf : ∀ a, FailsOnly P (f a)) : FailsOnly P (x >>= f) := by
  intro r s e u h
  rcases bind_error_iff.mp h with hfirst | ⟨a, t, -, hnext⟩
  · exact hx r s e u hfirst
  · exact hf a r t e u hnext

theorem failsOnly_check {g : σ → Except ε α} (h : ∀ s e, g s = .error e → P e) :
    FailsOnly P (check g : Host ρ ε σ α) := by
  intro r s e t hfail
  exact h s e (Prod.ext_iff.mp hfail).1

theorem failsOnly_modify (f : σ → σ) : FailsOnly P (modify f : Host ρ ε σ Unit) := by
  intro r s e t hfail
  cases hfail

theorem failsOnly_failWhen (p : Prop) [Decidable p] {e : ε} (h : P e) :
    FailsOnly P (failWhen p e : Host ρ ε σ Unit) := by
  intro r s e' t hfail
  rw [exec_failWhen] at hfail
  by_cases hp : p
  · rw [if_pos hp] at hfail
    cases hfail
    exact h
  · rw [if_neg hp] at hfail
    cases hfail

end
end Host

/-! The same composition for guards, which carry no state. -/

section
variable {ε α β : Type} {x : Except ε α} {f : α → Except ε β}

theorem guard_bind_ok_iff {b : β} : (x >>= f) = .ok b ↔ ∃ a, x = .ok a ∧ f a = .ok b := by
  cases x with
  | error e => simp [bind, Except.bind]
  | ok a => simp [bind, Except.bind]

theorem guard_bind_of_ok {a : α} (h : x = .ok a) : (x >>= f) = f a := by
  rw [h]
  rfl

theorem guard_bind_of_error {e : ε} (h : x = .error e) : (x >>= f) = .error e := by
  rw [h]
  rfl

/-- A chain of guards that refuses refuses with anything after it. -/
theorem guard_chain_error {γ : Type} {g : β → Except ε γ} {e : ε} (h : (x >>= f) = .error e) :
    (x >>= fun a => f a >>= g) = .error e := by
  rw [← bind_assoc]
  exact guard_bind_of_error h

end
end HostKit
