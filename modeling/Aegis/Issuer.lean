import Aegis.Admin

/-!
# Issuer role separation

Duties derived from what the contract enforces, the opt-in policy that keeps
clearance and issuance in different hands, and the guard every issuance
passes. The record of the last approver is read here and written by the
compliance lifecycle.
-/

set_option autoImplicit false

namespace Aegis
open HostKit

inductive IssuerDuty where
  | compliance
  | issuance
  | emergency
  | governance
  deriving DecidableEq, Repr

def roleHasDuty : Role → IssuerDuty → Bool
  | .none, _ => false
  | .admin, _ => true
  | .complianceOfficer, duty => duty = .compliance
  | .assetManager, duty => duty = .issuance
  | .emergencyOfficer, duty => duty = .compliance ∨ duty = .emergency

/-- Every duty of a role, in the order of the declaration. -/
def dutiesOfRole (role : Role) : List IssuerDuty :=
  [.compliance,.issuance,.emergency,.governance].filter (roleHasDuty role)

theorem mem_dutiesOfRole {role : Role} {duty : IssuerDuty} :
    duty ∈ dutiesOfRole role ↔ roleHasDuty role duty = true := by
  cases duty <;> simp [dutiesOfRole]

def defaultPolicy : IssuerSeparationPolicy :=
  { enforced := false
    allowDualDutyIssuance := true
    allowSelfIssuance := true
    requireIndependentApprover := false }

inductive IssuanceGuard where
  | allowed
  | notInitialized
  | missingIssuanceDuty
  | dualDutyConflict
  | selfIssuanceForbidden
  | approverConflict
  deriving DecidableEq, Repr

namespace IssuanceGuard

def isAllowed (g : IssuanceGuard) : Bool := g = .allowed

/-- Whether the policy refuses, and not the roles. -/
def isSeparationFailure : IssuanceGuard → Bool
  | dualDutyConflict | selfIssuanceForbidden | approverConflict => true
  | _ => false

def errorForGuard : IssuanceGuard → Option Error
  | allowed => none
  | notInitialized => some .notInitialized
  | missingIssuanceDuty => some .unauthorized
  | dualDutyConflict => some .issuanceDutyConflict
  | selfIssuanceForbidden => some .selfIssuanceForbidden
  | approverConflict => some .issuanceApproverConflict

end IssuanceGuard

variable {Address : Type}

def getPolicy (l : Ledger Address) : IssuerSeparationPolicy :=
  (l.get .issuerSeparationPolicy).getD defaultPolicy

def getComplianceApprover (user : Address) (l : Ledger Address) : Option Address :=
  l.get (.complianceApprover user)

variable [DecidableEq Address]

def effectiveRole (caller : Address) (l : Ledger Address) : Role :=
  match l.get .admin with
  | some admin => if admin = caller then .admin else getRole caller l
  | none => .none

def recordComplianceApprover (user approver : Address) : Contract Address Unit :=
  set (.complianceApprover user) approver

/-- The first control that refuses an issuance. Without a recipient the
controls about one do not apply. -/
def evaluateIssuance (caller : Address) (recipient : Option Address) (l : Ledger Address) :
    IssuanceGuard :=
  if !l.has .admin then
    .notInitialized
  else if !roleHasDuty (effectiveRole caller l) .issuance then
    .missingIssuanceDuty
  else if !(getPolicy l).enforced then
    .allowed
  else if !(getPolicy l).allowDualDutyIssuance &&
      roleHasDuty (effectiveRole caller l) .compliance then
    .dualDutyConflict
  else match recipient with
    | none => .allowed
    | some recipient =>
      if !(getPolicy l).allowSelfIssuance && caller = recipient then
        .selfIssuanceForbidden
      else if (getPolicy l).requireIndependentApprover then
        match getComplianceApprover recipient l with
        | some approver => if approver = caller then .approverConflict else .allowed
        | none => .allowed
      else
        .allowed

def requireIssuanceAuthority (caller : Address) (recipient : Option Address) (l : Ledger Address) :
    Except Failure Unit :=
  let guard := evaluateIssuance caller recipient l
  if guard.isAllowed then
    .ok ()
  else match guard.errorForGuard with
    | some error => .error (.panic error)
    | none => .ok ()

@[simp] theorem requireIssuanceAuthority_ok {caller : Address} {recipient : Option Address}
    {l : Ledger Address} {u : Unit} : requireIssuanceAuthority caller recipient l = .ok u ↔
      evaluateIssuance caller recipient l = .allowed := by
  rw [requireIssuanceAuthority]
  cases evaluateIssuance caller recipient l <;>
    simp [IssuanceGuard.isAllowed, IssuanceGuard.errorForGuard]

theorem requireIssuanceAuthority_refuses {caller : Address} {recipient : Option Address}
    {l : Ledger Address} {e : Error}
    (h : (evaluateIssuance caller recipient l).errorForGuard = some e) :
    requireIssuanceAuthority caller recipient l = .error (.panic e) := by
  rw [requireIssuanceAuthority]
  cases hguard : evaluateIssuance caller recipient l <;> rw [hguard] at h <;> cases h <;> rfl

/-! ## The reads -/

def getDutiesOf (address : Address) (l : Ledger Address) : List IssuerDuty :=
  dutiesOfRole (effectiveRole address l)

structure IssuanceAuthorityCheck (Address : Type) where
  caller : Address
  recipient : Address
  callerRole : Role
  callerDuties : List IssuerDuty
  recipientApprover : Option Address
  allowed : Bool
  reason : IssuanceGuard
  errorCode : Option UInt32
  deriving DecidableEq

def checkIssuance (caller recipient : Address) (l : Ledger Address) :
    IssuanceAuthorityCheck Address :=
  let callerRole := effectiveRole caller l
  let reason := evaluateIssuance caller (some recipient) l
  { caller := caller
    recipient := recipient
    callerRole := callerRole
    callerDuties := dutiesOfRole callerRole
    recipientApprover := getComplianceApprover recipient l
    allowed := reason.isAllowed
    reason := reason
    errorCode := reason.errorForGuard.map Error.code }

def checkIssuanceAuthority (caller recipient : Address) (l : Ledger Address) :
    IssuanceAuthorityCheck Address := checkIssuance caller recipient l

/-! ## The policy -/

def setIssuerSeparationPolicy (admin : Address) (policy : IssuerSeparationPolicy) :
    Contract Address Unit := do
  requireGoverning admin
  let previousPolicy ← load getPolicy
  set .issuerSeparationPolicy policy
  publish (.issuerSeparationPolicyUpdated admin previousPolicy policy)

theorem setIssuerSeparationPolicy_ok {auth : Auth Address} {env env' : Env Address} {u : Unit}
    {admin : Address} {policy : IssuerSeparationPolicy} :
    (setIssuerSeparationPolicy admin policy).exec auth env = (.ok u, env') ↔
      Governs auth admin env.ledger ∧
        env' = ⟨env.ledger.set .issuerSeparationPolicy policy,
          env.events++[.issuerSeparationPolicyUpdated admin (getPolicy env.ledger) policy]⟩ := by
  simp [setIssuerSeparationPolicy, Host.bind_ok_iff]

end Aegis
