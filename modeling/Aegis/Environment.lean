import Aegis.Errors
import Aegis.HostKit.Run
import Aegis.Ledger

/-!
# The contract's host environment

An entrypoint runs against a ledger and an event log, in the context of the
addresses that authorised the invocation. It fails by returning an error, by
panicking with one, or by one of the host's untyped traps.
-/

set_option autoImplicit false

namespace Aegis
open HostKit

inductive Failure where
  | err (error : Error)
  | panic (error : Error)
  | assertion (message : String)
  | overflow
  | unauthenticated
  deriving DecidableEq

def Failure.error : Failure → Option Error
  | err e => some e
  | panic e => some e
  | _ => none

structure Env (Address : Type) where
  ledger : Ledger Address
  events : List (Event Address)

abbrev Auth (Address : Type) := Address → Bool

abbrev Contract (Address α : Type) := Host (Auth Address) Failure (Env Address) α

def Env.fresh {Address : Type} : Env Address := ⟨Store.empty,[]⟩

variable {Address α : Type}

def load (g : Ledger Address → α) : Contract Address α := Host.load fun env => g env.ledger

def check (g : Ledger Address → Except Failure α) : Contract Address α :=
  Host.check fun env => g env.ledger

def requireAuth (address : Address) : Contract Address Unit :=
  Host.require (fun auth => auth address) .unauthenticated

def errWhen (p : Prop) [Decidable p] (e : Error) : Contract Address Unit :=
  Host.failWhen p (.err e)

def assertThat (p : Prop) [Decidable p] (message : String) : Contract Address Unit :=
  Host.failWhen (¬p) (.assertion message)

def getOr (g : Ledger Address → Option α) (f : Failure) : Contract Address α :=
  check fun l => match g l with
    | some a => .ok a
    | none => .error f

def publish (e : Event Address) : Contract Address Unit :=
  Host.modify fun env => { env with events := env.events++[e] }

variable [DecidableEq Address]

def set (k : DataKey Address) (v : k.Value) : Contract Address Unit :=
  Host.modify fun env => { env with ledger := env.ledger.set k v }

def remove (k : DataKey Address) : Contract Address Unit :=
  Host.modify fun env => { env with ledger := env.ledger.remove k }

/-- The checked additions and subtractions of the code: overflow traps. -/
def add (a b : I128) : Except Failure I128 :=
  match a.checkedAdd b with
  | some c => .ok c
  | none => .error .overflow

def sub (a b : I128) : Except Failure I128 :=
  match a.checkedSub b with
  | some c => .ok c
  | none => .error .overflow

/-! Outcomes of the primitives. -/

section
variable {auth : Auth Address} {env env' : Env Address}

omit [DecidableEq Address]

theorem exec_load (g : Ledger Address → α) :
    (load g).exec auth env = (.ok (g env.ledger), env) := rfl

theorem exec_check (g : Ledger Address → Except Failure α) :
    (check g).exec auth env = (g env.ledger, env) := rfl

theorem exec_requireAuth (a : Address) :
    (requireAuth a).exec auth env = (if auth a then .ok () else .error .unauthenticated, env) := rfl

theorem exec_errWhen (p : Prop) [Decidable p] (e : Error) :
    (errWhen p e).exec auth env = (if p then .error (.err e) else .ok (), env) := rfl

@[simp] theorem load_ok {g : Ledger Address → α} {a : α} :
    (load g).exec auth env = (.ok a, env') ↔ a = g env.ledger ∧ env' = env := Host.load_ok_iff

@[simp] theorem check_ok {g : Ledger Address → Except Failure α} {a : α} :
    (check g).exec auth env = (.ok a, env') ↔ g env.ledger = .ok a ∧ env' = env :=
  Host.check_ok_iff

@[simp] theorem requireAuth_ok {a : Address} {u : Unit} :
    (requireAuth a).exec auth env = (.ok u, env') ↔ auth a = true ∧ env' = env :=
  Host.require_ok_iff

@[simp] theorem errWhen_ok {p : Prop} [Decidable p] {e : Error} {u : Unit} :
    (errWhen p e).exec auth env = (.ok u, env') ↔ ¬p ∧ env' = env := Host.failWhen_ok_iff

@[simp] theorem assertThat_ok {p : Prop} [Decidable p] {m : String} {u : Unit} :
    (assertThat p m).exec auth env = (.ok u, env') ↔ p ∧ env' = env := by
  rw [assertThat, Host.failWhen_ok_iff, not_not]

@[simp] theorem getOr_ok {g : Ledger Address → Option α} {f : Failure} {a : α} :
    (getOr g f).exec auth env = (.ok a, env') ↔ g env.ledger = some a ∧ env' = env := by
  rw [getOr, check_ok]
  cases g env.ledger <;> simp

@[simp] theorem publish_ok {e : Event Address} {u : Unit} :
    (publish e).exec auth env = (.ok u, env') ↔
      env' = { env with events := env.events++[e] } := Host.modify_ok_iff

/-! A guard of an entrypoint lets what follows it run, or refuses for it. -/

section
variable {β : Type}

theorem guard_passes {g : Ledger Address → Except Failure α} {next : α → Contract Address β}
    {a : α} (h : g env.ledger = .ok a) :
    (check g >>= next).exec auth env = (next a).exec auth env := by
  apply Host.exec_bind_of_ok
  rw [exec_check, h]

theorem guard_refuses {g : Ledger Address → Except Failure α} {next : α → Contract Address β}
    {f : Failure} (h : g env.ledger = .error f) :
    (check g >>= next).exec auth env = (.error f, env) := by
  apply Host.exec_bind_of_error
  rw [exec_check, h]

theorem exec_signed {a : Address} (hauth : auth a = true) {next : Unit → Contract Address β} :
    (requireAuth a >>= next).exec auth env = (next ()).exec auth env := by
  apply Host.exec_bind_of_ok
  rw [exec_requireAuth, if_pos hauth]

end

/-! A guard of an entrypoint refuses as it does in a chain of guards. -/

theorem check_refuses {β γ : Type} {g : Ledger Address → Except Failure α}
    {next : α → Contract Address β} {rest : α → Except Failure γ} {f : Failure}
    (h : (g env.ledger >>= rest) = .error f)
    (hrest : ∀ a, rest a = .error f → (next a).exec auth env = (.error f, env)) :
    (check g >>= next).exec auth env = (.error f, env) :=
  Host.check_refuses (g := fun env : Env Address => g env.ledger) h hrest

theorem errWhen_refuses {β γ : Type} {p : Prop} [Decidable p] {e : Error}
    {next : Unit → Contract Address β} {rest : Unit → Except Failure γ} {f : Failure}
    (h : ((if p then .error (.err e) else .ok ()) >>= rest) = .error f)
    (hrest : ∀ u, rest u = .error f → (next u).exec auth env = (.error f, env)) :
    (errWhen p e >>= next).exec auth env = (.error f, env) := by
  have hcheck : errWhen p e =
      check fun _ : Ledger Address => if p then .error (.err e) else .ok () := rfl
  rw [hcheck]
  exact check_refuses h hrest

variable [DecidableEq Address]

@[simp] theorem set_ok {k : DataKey Address} {v : k.Value} {u : Unit} :
    (set k v).exec auth env = (.ok u, env') ↔
      env' = { env with ledger := env.ledger.set k v } := Host.modify_ok_iff

@[simp] theorem remove_ok {k : DataKey Address} {u : Unit} :
    (remove k).exec auth env = (.ok u, env') ↔
      env' = { env with ledger := env.ledger.remove k } := Host.modify_ok_iff

end

theorem add_ok {a b c : I128} : add a b = .ok c ↔ a.val+b.val = c.val := by
  rw [← CheckedInt.checkedAdd_eq_some, add]
  cases a.checkedAdd b <;> simp

theorem sub_ok {a b c : I128} : sub a b = .ok c ↔ a.val-b.val = c.val := by
  rw [← CheckedInt.checkedSub_eq_some, sub]
  cases a.checkedSub b <;> simp

end Aegis
