import Aegis.Environment

/-!
# Administration

Pause and role helpers, initialisation, role management, the two-step
transfer of the admin role, and the contract-wide pause. Each entrypoint is
followed by its exact success condition and effect.
-/

set_option autoImplicit false

namespace Aegis
open HostKit

variable {Address : Type}

def isPaused (l : Ledger Address) : Bool := (l.get .paused).getD false

def requireNotPaused (l : Ledger Address) : Except Failure Unit :=
  if isPaused l then .error (.panic .contractPaused) else .ok ()

def getAdmin (l : Ledger Address) : Except Failure Address :=
  match l.get .admin with
  | some admin => .ok admin
  | none => .error (.panic .notInitialized)

def getRole (address : Address) (l : Ledger Address) : Role :=
  (l.get (.role address)).getD .none

def IsAdmin (address : Address) (l : Ledger Address) : Prop := l.get .admin = some address

/-- The authority a role check asks for: the role itself, or the admin key. -/
def ActsAs (caller : Address) (allowed : Role → Prop) (l : Ledger Address) : Prop :=
  ∃ admin, IsAdmin admin l ∧ (caller = admin ∨ allowed (getRole caller l))

@[simp] theorem requireNotPaused_ok {l : Ledger Address} {u : Unit} :
    requireNotPaused l = .ok u ↔ isPaused l = false := by
  rw [requireNotPaused]
  cases isPaused l <;> simp

/-- What opens with the running check is refused for nothing else while the
contract is paused. -/
theorem paused_first {auth : Auth Address} {env : Env Address}
    (hp : isPaused env.ledger = true) {β : Type} {f : Unit → Contract Address β} :
    (check requireNotPaused >>= f).exec auth env = (.error (.panic .contractPaused), env) := by
  apply Host.exec_bind_of_error
  rw [exec_check, requireNotPaused, if_pos hp]

/-- How every call that needs a running contract opens for its signer. -/
theorem exec_opened {auth : Auth Address} {env : Env Address} {caller : Address}
    (hrun : isPaused env.ledger = false) (hauth : auth caller = true) {β : Type}
    {next : Unit → Contract Address β} :
    (check requireNotPaused >>= fun _ => requireAuth caller >>= next).exec auth env =
      (next ()).exec auth env :=
  (guard_passes (requireNotPaused_ok (u := ()).mpr hrun)).trans (exec_signed hauth)

@[simp] theorem getAdmin_ok {l : Ledger Address} {admin : Address} :
    getAdmin l = .ok admin ↔ IsAdmin admin l := by
  rw [getAdmin, IsAdmin]
  cases l.get .admin <;> simp

variable [DecidableEq Address]

/-- The supreme admin bypasses every role check. -/
def requireRole (caller : Address) (required : Role) (l : Ledger Address) :
    Except Failure Unit := do
  let role := getRole caller l
  let admin ← getAdmin l
  if caller = admin then
    .ok ()
  else if role ≠ required then
    .error (.panic .unauthorized)
  else
    .ok ()

@[simp] theorem requireRole_ok {caller : Address} {required : Role} {l : Ledger Address}
    {u : Unit} : requireRole caller required l = .ok u ↔ ActsAs caller (· = required) l := by
  rw [requireRole, getAdmin, ActsAs]
  cases h : l.get .admin with
  | none => simp [bind, Except.bind, IsAdmin, h]
  | some admin =>
    simp only [bind, Except.bind, IsAdmin, h, Option.some.injEq]
    split_ifs <;> simp_all

/-- The check for one of several roles, which no entrypoint makes any more. -/
def requireAnyRole (caller : Address) (allowed : List Role) (l : Ledger Address) :
    Except Failure Unit := do
  let role := getRole caller l
  let admin ← getAdmin l
  if caller = admin then
    .ok ()
  else if role ∉ allowed then
    .error (.panic .unauthorized)
  else
    .ok ()

/-! The lines that open every entrypoint only the supreme admin may call
while the contract runs. -/

def requireGoverning (admin : Address) : Contract Address Unit := do
  check requireNotPaused
  requireAuth admin
  errWhen (admin ≠ (← check getAdmin)) .unauthorized

def Governs (auth : Auth Address) (admin : Address) (l : Ledger Address) : Prop :=
  isPaused l = false ∧ auth admin = true ∧ IsAdmin admin l

section
variable {auth : Auth Address} {env env' : Env Address}

@[simp] theorem requireGoverning_ok {admin : Address} {u : Unit} :
    (requireGoverning admin).exec auth env = (.ok u, env') ↔
      Governs auth admin env.ledger ∧ env' = env := by
  simp only [requireGoverning, Host.bind_ok_iff, check_ok, requireAuth_ok, errWhen_ok, Governs,
    requireNotPaused_ok, getAdmin_ok]
  constructor
  · rintro ⟨_, _, ⟨hrun, rfl⟩, _, _, ⟨hauth, rfl⟩, stored, _, ⟨hadmin, rfl⟩, hne, rfl⟩
    rw [not_not] at hne
    subst hne
    exact ⟨⟨hrun,hauth,hadmin⟩,rfl⟩
  · rintro ⟨⟨hrun, hauth, hadmin⟩, rfl⟩
    exact ⟨(),_,⟨hrun,rfl⟩,(),_,⟨hauth,rfl⟩,admin,_,⟨hadmin,rfl⟩,not_not.mpr rfl,rfl⟩

end

/-! ## Initialisation -/

def initializeContract (admin : Address) : Contract Address Unit := do
  errWhen (← load fun l => l.has .admin) .alreadyInitialized
  requireAuth admin
  set .admin admin
  set (.role admin) .admin
  publish (.contractInitialized admin)

/-! ## Roles -/

def setRole (admin target : Address) (role : Role) : Contract Address Unit := do
  requireGoverning admin
  errWhen (role = .admin) .cannotAssignAdminRole
  set (.role target) role
  publish (.roleAssigned admin target role)

def removeRole (admin target : Address) : Contract Address Unit := do
  requireGoverning admin
  let previousRole ← load (getRole target)
  errWhen (previousRole = .none) .noRoleToRevoke
  set (.role target) .none
  publish (.roleRevoked admin target previousRole)

/-! ## The admin role -/

def transferAdmin (admin candidate : Address) : Contract Address Unit := do
  requireGoverning admin
  set .adminCandidate candidate
  publish (.adminTransferInitiated admin candidate)

def acceptAdmin (candidate : Address) : Contract Address Unit := do
  check requireNotPaused
  requireAuth candidate
  let storedCandidate ← getOr (·.get .adminCandidate) (.err .noPendingAdminTransfer)
  errWhen (candidate ≠ storedCandidate) .notPendingCandidate
  let previousAdmin ← check getAdmin
  remove .adminCandidate
  set .admin candidate
  -- when the admin accepts its own nomination the second write wins
  set (.role previousAdmin) .none
  set (.role candidate) .admin
  publish (.adminTransferred previousAdmin candidate)

def renounceAdmin (admin : Address) : Contract Address Unit := do
  requireGoverning admin
  remove .admin
  set (.role admin) .none
  publish (.adminRenounced admin admin)

/-! ## The contract-wide pause -/

def pause (caller : Address) : Contract Address Unit := do
  requireAuth caller
  check (requireRole caller .emergencyOfficer)
  errWhen (← load isPaused) .alreadyPaused
  set .paused true
  publish (.contractPaused caller)

def unpause (caller : Address) : Contract Address Unit := do
  requireAuth caller
  errWhen (caller ≠ (← check getAdmin)) .unauthorized
  errWhen (!(← load isPaused)) .notPaused
  set .paused false
  publish (.contractUnpaused caller)

/-! ## Success conditions and effects -/

section
variable {auth : Auth Address} {env env' : Env Address} {u : Unit}

theorem initializeContract_ok {admin : Address} :
    (initializeContract admin).exec auth env = (.ok u, env') ↔
      env.ledger.get .admin = none ∧ auth admin = true ∧
        env' = ⟨(env.ledger.set .admin admin).set (.role admin) .admin,
          env.events++[.contractInitialized admin]⟩ := by
  simp [initializeContract, Host.bind_ok_iff, Store.has]

theorem setRole_ok {admin target : Address} {role : Role} :
    (setRole admin target role).exec auth env = (.ok u, env') ↔
      Governs auth admin env.ledger ∧ role ≠ .admin ∧
        env' = ⟨env.ledger.set (.role target) role,
          env.events++[.roleAssigned admin target role]⟩ := by
  simp [setRole, Host.bind_ok_iff]

theorem removeRole_ok {admin target : Address} :
    (removeRole admin target).exec auth env = (.ok u, env') ↔
      Governs auth admin env.ledger ∧ getRole target env.ledger ≠ .none ∧
        env' = ⟨env.ledger.set (.role target) .none,
          env.events++[.roleRevoked admin target (getRole target env.ledger)]⟩ := by
  simp [removeRole, Host.bind_ok_iff]

theorem transferAdmin_ok {admin candidate : Address} :
    (transferAdmin admin candidate).exec auth env = (.ok u, env') ↔
      Governs auth admin env.ledger ∧
        env' = ⟨env.ledger.set .adminCandidate candidate,
          env.events++[.adminTransferInitiated admin candidate]⟩ := by
  simp [transferAdmin, Host.bind_ok_iff]

theorem acceptAdmin_ok {candidate : Address} :
    (acceptAdmin candidate).exec auth env = (.ok u, env') ↔
      isPaused env.ledger = false ∧ auth candidate = true ∧
        env.ledger.get .adminCandidate = some candidate ∧
        ∃ previous, IsAdmin previous env.ledger ∧
          env' = ⟨(((env.ledger.remove .adminCandidate).set .admin candidate).set
              (.role previous) .none).set (.role candidate) .admin,
            env.events++[.adminTransferred previous candidate]⟩ := by
  simp [acceptAdmin, Host.bind_ok_iff]

theorem renounceAdmin_ok {admin : Address} :
    (renounceAdmin admin).exec auth env = (.ok u, env') ↔
      Governs auth admin env.ledger ∧
        env' = ⟨(env.ledger.remove .admin).set (.role admin) .none,
          env.events++[.adminRenounced admin admin]⟩ := by
  simp [renounceAdmin, Host.bind_ok_iff]

theorem pause_ok {caller : Address} :
    (pause caller).exec auth env = (.ok u, env') ↔
      auth caller = true ∧ ActsAs caller (· = .emergencyOfficer) env.ledger ∧
        isPaused env.ledger = false ∧
        env' = ⟨env.ledger.set .paused true,env.events++[.contractPaused caller]⟩ := by
  simp [pause, Host.bind_ok_iff]

theorem unpause_ok {caller : Address} :
    (unpause caller).exec auth env = (.ok u, env') ↔
      auth caller = true ∧ IsAdmin caller env.ledger ∧ isPaused env.ledger = true ∧
        env' = ⟨env.ledger.set .paused false,env.events++[.contractUnpaused caller]⟩ := by
  simp [unpause, Host.bind_ok_iff]

end

end Aegis
