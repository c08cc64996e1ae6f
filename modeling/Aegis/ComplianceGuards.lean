import Aegis.Admin

/-!
# Compliance transition guards

The lifecycle matrix of an investor and the ordered evaluation that decides
whether a caller may move an investor along one of its edges. Enforcement
and the pre-flight reads share this evaluation.
-/

set_option autoImplicit false

namespace Aegis
open HostKit

namespace ComplianceStatus

def isApproved (s : ComplianceStatus) : Bool := s = .approved
def isBlocked (s : ComplianceStatus) : Bool := s = .blocked

end ComplianceStatus

def transitionIsAllowed (current next : ComplianceStatus) : Bool :=
  if current = next ∨ next = .unknown then
    false
  else match current with
    | .unknown => next = .pending ∨ next = .approved ∨ next = .blocked
    | .pending => next = .approved ∨ next = .revoked ∨ next = .blocked
    | .approved => next = .pending ∨ next = .revoked ∨ next = .blocked
    | .revoked => next = .pending ∨ next = .approved ∨ next = .blocked
    | .blocked => next = .pending

/-- Every status one edge away, in the order of the declaration. -/
def allowedTransitions (current : ComplianceStatus) : List ComplianceStatus :=
  [.unknown,.pending,.approved,.revoked,.blocked].filter (transitionIsAllowed current)

inductive TransitionGuard where
  | allowed
  | notInitialized
  | contractPaused
  | callerUnauthorized
  | blockedRequiresAdmin
  | statusUnchanged
  | targetUnknownForbidden
  | transitionForbidden
  | duplicateUserInBatch
  deriving DecidableEq, Repr

namespace TransitionGuard

def isAllowed (g : TransitionGuard) : Bool := g = .allowed

/-- Whether the caller is the problem, and not the requested edge. -/
def isAuthorizationFailure : TransitionGuard → Bool
  | callerUnauthorized | blockedRequiresAdmin => true
  | _ => false

def errorForGuard : TransitionGuard → Option Error
  | allowed => none
  | notInitialized => some .notInitialized
  | contractPaused => some .contractPaused
  | callerUnauthorized | blockedRequiresAdmin => some .unauthorized
  | statusUnchanged => some .complianceStatusUnchanged
  | targetUnknownForbidden | transitionForbidden | duplicateUserInBatch =>
    some .invalidComplianceTransition

theorem errorForGuard_eq_none {g : TransitionGuard} : g.errorForGuard = none ↔ g = allowed := by
  cases g <;> simp [errorForGuard]

/-- Refusals of authority and availability abort by panicking; refusals of
the requested edge are returned. -/
def guardPanics : TransitionGuard → Bool
  | notInitialized | contractPaused | callerUnauthorized | blockedRequiresAdmin => true
  | _ => false

end TransitionGuard

variable {Address : Type}

def getComplianceStatus (user : Address) (l : Ledger Address) : ComplianceStatus :=
  (l.get (.complianceStatus user)).getD .unknown

def isWhitelisted (user : Address) (l : Ledger Address) : Bool :=
  (getComplianceStatus user l).isApproved

def getAllowedTransitionsFor (user : Address) (l : Ledger Address) : List ComplianceStatus :=
  allowedTransitions (getComplianceStatus user l)

theorem isWhitelisted_iff {user : Address} {l : Ledger Address} :
    isWhitelisted user l = true ↔ getComplianceStatus user l = .approved := by
  simp [isWhitelisted, ComplianceStatus.isApproved]

variable [DecidableEq Address]

def authorityGuard (caller : Address) (current : ComplianceStatus) (l : Ledger Address) :
    TransitionGuard :=
  match l.get .admin with
  | none => .notInitialized
  | some admin =>
    if caller = admin then
      .allowed
    else if current.isBlocked then
      .blockedRequiresAdmin
    else match getRole caller l with
      | .complianceOfficer | .emergencyOfficer => .allowed
      | _ => .callerUnauthorized

def evaluateFromStatus (caller : Address) (current next : ComplianceStatus) (l : Ledger Address) :
    TransitionGuard :=
  if isPaused l then
    .contractPaused
  else if !(authorityGuard caller current l).isAllowed then
    authorityGuard caller current l
  else if current = next then
    .statusUnchanged
  else if next = .unknown then
    .targetUnknownForbidden
  else if !transitionIsAllowed current next then
    .transitionForbidden
  else
    .allowed

def evaluateTransition (caller user : Address) (next : ComplianceStatus) (l : Ledger Address) :
    TransitionGuard := evaluateFromStatus caller (getComplianceStatus user l) next l

def requireTransition (caller : Address) (current next : ComplianceStatus) (l : Ledger Address) :
    Except Failure Unit :=
  let guard := evaluateFromStatus caller current next l
  if guard.isAllowed then
    .ok ()
  else match guard.errorForGuard with
    | some error => if guard.guardPanics then .error (.panic error) else .error (.err error)
    | none => .ok ()

def requireTransitionAuthority (caller : Address) (current : ComplianceStatus)
    (l : Ledger Address) : Except Failure Unit :=
  let guard := authorityGuard caller current l
  if guard.isAllowed then
    .ok ()
  else match guard.errorForGuard with
    | some error => .error (.panic error)
    | none => .ok ()

/-! ## The pre-flight report -/

structure ComplianceTransitionCheck (Address : Type) where
  user : Address
  caller : Address
  currentStatus : ComplianceStatus
  requestedStatus : ComplianceStatus
  allowed : Bool
  reason : TransitionGuard
  errorCode : Option UInt32
  deriving DecidableEq

def checkTransition (caller user : Address) (newStatus : ComplianceStatus) (l : Ledger Address) :
    ComplianceTransitionCheck Address :=
  let currentStatus := getComplianceStatus user l
  let reason := evaluateFromStatus caller currentStatus newStatus l
  { user := user
    caller := caller
    currentStatus := currentStatus
    requestedStatus := newStatus
    allowed := reason.isAllowed
    reason := reason
    errorCode := reason.errorForGuard.map Error.code }

def checkComplianceTransition (caller user : Address) (newStatus : ComplianceStatus)
    (l : Ledger Address) : ComplianceTransitionCheck Address :=
  checkTransition caller user newStatus l

/-! ## What the guards admit -/

def isComplianceRole (role : Role) : Prop := role = .complianceOfficer ∨ role = .emergencyOfficer

/-- Lifting a block takes the supreme admin; every other change takes the
admin or one of the two compliance roles. -/
def MayClear (caller : Address) (current : ComplianceStatus) (l : Ledger Address) : Prop :=
  ActsAs caller (fun role => isComplianceRole role ∧ current ≠ .blocked) l

section
variable {caller : Address} {current next : ComplianceStatus} {l : Ledger Address} {u : Unit}

theorem authorityGuard_allowed :
    authorityGuard caller current l = .allowed ↔ MayClear caller current l := by
  rw [authorityGuard, MayClear, ActsAs]
  cases hadmin : l.get .admin with
  | none => simp [IsAdmin, hadmin]
  | some admin =>
    simp only [IsAdmin, hadmin, Option.some.injEq, exists_eq_left', isComplianceRole,
      ComplianceStatus.isBlocked]
    cases getRole caller l <;> cases current <;> by_cases h : caller = admin <;> simp [h]

/-! Only a batch finds duplicates. -/

theorem authorityGuard_ne_duplicate : authorityGuard caller current l ≠ .duplicateUserInBatch := by
  fun_cases authorityGuard <;> simp

theorem evaluateFromStatus_ne_duplicate :
    evaluateFromStatus caller current next l ≠ .duplicateUserInBatch := by
  fun_cases evaluateFromStatus with
  | case2 => exact authorityGuard_ne_duplicate
  | _ => simp

theorem evaluateFromStatus_allowed :
    evaluateFromStatus caller current next l = .allowed ↔
      isPaused l = false ∧ MayClear caller current l ∧ transitionIsAllowed current next = true := by
  rw [evaluateFromStatus, ← authorityGuard_allowed]
  have hself : transitionIsAllowed next next = false := by simp [transitionIsAllowed]
  have hunknown : transitionIsAllowed current .unknown = false := by simp [transitionIsAllowed]
  split_ifs <;> simp_all [TransitionGuard.isAllowed]

@[simp] theorem requireTransition_ok :
    requireTransition caller current next l = .ok u ↔
      evaluateFromStatus caller current next l = .allowed := by
  rw [requireTransition]
  cases evaluateFromStatus caller current next l <;>
    simp [TransitionGuard.isAllowed, TransitionGuard.errorForGuard, TransitionGuard.guardPanics]

/-- A refusal carries the error of its reason, whichever way it leaves. -/
theorem requireTransition_refuses (h : evaluateFromStatus caller current next l ≠ .allowed) :
    ∃ f e, requireTransition caller current next l = .error f ∧ f.error = some e ∧
      (evaluateFromStatus caller current next l).errorForGuard = some e := by
  have hrefused : (evaluateFromStatus caller current next l).isAllowed = false := by
    simpa [TransitionGuard.isAllowed] using h
  cases herror : (evaluateFromStatus caller current next l).errorForGuard with
  | none => exact absurd (TransitionGuard.errorForGuard_eq_none.mp herror) h
  | some e =>
    rw [requireTransition]
    cases (evaluateFromStatus caller current next l).guardPanics with
    | true => exact ⟨.panic e,e,by simp [hrefused, herror],rfl,rfl⟩
    | false => exact ⟨.err e,e,by simp [hrefused, herror],rfl,rfl⟩

@[simp] theorem requireTransitionAuthority_ok :
    requireTransitionAuthority caller current l = .ok u ↔ MayClear caller current l := by
  rw [requireTransitionAuthority, ← authorityGuard_allowed]
  cases authorityGuard caller current l <;>
    simp [TransitionGuard.isAllowed, TransitionGuard.errorForGuard]

end

end Aegis
