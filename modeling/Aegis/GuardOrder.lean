import Aegis.ComplianceLifecycle
import Aegis.HostKit.Precedence
import Aegis.PauseFreeze

/-!
# The order of the transition guards

The guards of a status change are documented in one order and evaluated in
another: the evaluation asks for the pause before it asks for an admin. The
two disagree only on a paused contract without an admin, and no run leads
to one.
-/

set_option autoImplicit false

namespace Aegis
open HostKit

structure TransitionRequest (Address : Type) where
  caller : Address
  user : Address
  newStatus : ComplianceStatus
  ledger : Ledger Address

namespace TransitionRequest
variable {Address : Type} [DecidableEq Address]

def current (r : TransitionRequest Address) : ComplianceStatus :=
  getComplianceStatus r.user r.ledger

/-! ## The documented preconditions -/

def initialized : Precondition (TransitionRequest Address) TransitionGuard where
  holds r := r.ledger.has .admin
  reason _ := .notInitialized

def notPaused : Precondition (TransitionRequest Address) TransitionGuard where
  holds r := !isPaused r.ledger
  reason _ := .contractPaused

/-- The admin may act on any status, the two compliance roles on any but the
blocked one. A refusal tells a blocked user from a caller without authority. -/
def authority : Precondition (TransitionRequest Address) TransitionGuard where
  holds r := r.ledger.get .admin = some r.caller ∨ r.current ≠ .blocked ∧
    (getRole r.caller r.ledger = .complianceOfficer ∨
      getRole r.caller r.ledger = .emergencyOfficer)
  reason r := if r.current = .blocked then .blockedRequiresAdmin else .callerUnauthorized

def statusDiffers : Precondition (TransitionRequest Address) TransitionGuard where
  holds r := r.current ≠ r.newStatus
  reason _ := .statusUnchanged

def targetKnown : Precondition (TransitionRequest Address) TransitionGuard where
  holds r := r.newStatus ≠ .unknown
  reason _ := .targetUnknownForbidden

def edgeInMatrix : Precondition (TransitionRequest Address) TransitionGuard where
  holds r := (r.current,r.newStatus) ∈ matrix
  reason _ := .transitionForbidden

/-- The guard chain in the order of its documentation. -/
def documentedOrder : List (Precondition (TransitionRequest Address) TransitionGuard) :=
  [initialized,notPaused,authority,statusDiffers,targetKnown,edgeInMatrix]

/-- The guard chain in the order of the evaluation. -/
def enforcedOrder : List (Precondition (TransitionRequest Address) TransitionGuard) :=
  [notPaused,initialized,authority,statusDiffers,targetKnown,edgeInMatrix]

/-- The reason of the first precondition that fails, `allowed` if none does. -/
def verdict (chain : List (Precondition (TransitionRequest Address) TransitionGuard))
    (r : TransitionRequest Address) : TransitionGuard :=
  (Precondition.firstFailure chain r).getD .allowed

end TransitionRequest

open Precondition TransitionRequest

variable {Address : Type} [DecidableEq Address] {env : Env Address}
  {r : TransitionRequest Address}

omit [DecidableEq Address] in
theorem verdict_cons (p : Precondition (TransitionRequest Address) TransitionGuard)
    (chain : List (Precondition (TransitionRequest Address) TransitionGuard)) :
    verdict (p::chain) r = if p.holds r then verdict chain r else p.reason r := by
  rw [verdict, firstFailure_cons]
  cases p.holds r <;> rfl

/-- The guard of authority asks for an admin and for the caller's standing. -/
theorem authorityGuard_eq :
    authorityGuard r.caller r.current r.ledger = verdict [initialized,authority] r := by
  rw [authorityGuard, verdict_cons, verdict_cons]
  rcases Option.eq_none_or_eq_some (r.ledger.get .admin) with hnone | ⟨admin, hadmin⟩
  · simp [initialized, Store.has, hnone]
  · by_cases hself : r.caller = admin
    · simp [initialized, authority, Store.has, hadmin, hself, verdict]
    · cases hcurrent : r.current <;> cases hrole : getRole r.caller r.ledger <;>
        simp [initialized, authority, Store.has, hadmin, hself, Ne.symm hself, hcurrent, hrole,
          ComplianceStatus.isBlocked, verdict]

/-- The evaluation is judged in its own order, whatever the ledger. -/
theorem evaluateTransition_eq :
    evaluateTransition r.caller r.user r.newStatus r.ledger = verdict enforcedOrder r := by
  have hcurrent : getComplianceStatus r.user r.ledger = r.current := rfl
  have hrefused : (authority.reason r).isAllowed = false := by
    rw [authority]
    dsimp only
    split_ifs <;> rfl
  rw [evaluateTransition, evaluateFromStatus, hcurrent, authorityGuard_eq]
  simp only [enforcedOrder, verdict_cons]
  cases hpaused : isPaused r.ledger with
  | true => simp [notPaused, hpaused]
  | false =>
    cases initialized.holds r with
    | false => simp [notPaused, hpaused, initialized, TransitionGuard.isAllowed]
    | true =>
      cases authority.holds r with
      | false => simp [notPaused, hpaused, hrefused]
      | true =>
        cases hedge : transitionIsAllowed r.current r.newStatus <;>
          simp [notPaused, hpaused, statusDiffers, targetKnown, edgeInMatrix,
            ← transitionIsAllowed_iff, hedge, TransitionGuard.isAllowed, verdict]

/-- The two orders part on a paused contract without an admin only. -/
theorem evaluateTransition_documented_iff :
    evaluateTransition r.caller r.user r.newStatus r.ledger = verdict documentedOrder r ↔
      (isPaused r.ledger = true → r.ledger.has .admin = true) := by
  rw [evaluateTransition_eq]
  constructor
  · intro hsame hpaused
    by_contra hnone
    have henforced : verdict enforcedOrder r = .contractPaused := by
      rw [enforcedOrder, verdict_cons]
      simp [notPaused, hpaused]
    have hdocumented : verdict documentedOrder r = .notInitialized := by
      rw [documentedOrder, verdict_cons]
      simp [initialized, hnone]
    rw [henforced, hdocumented] at hsame
    cases hsame
  · intro hadmin
    have heither : notPaused.holds r = true ∨ initialized.holds r = true := by
      cases hpaused : isPaused r.ledger with
      | true => exact Or.inr (hadmin hpaused)
      | false => exact Or.inl (by simp [notPaused, hpaused])
    exact congrArg (Option.getD · .allowed) (firstFailure_swap heither [] _)

theorem guard_precedence (h : Reachable Call.body Env.fresh env) (caller user : Address)
    (newStatus : ComplianceStatus) :
    evaluateTransition caller user newStatus env.ledger =
      verdict documentedOrder ⟨caller,user,newStatus,env.ledger⟩ := by
  have hadmin : isPaused env.ledger = true → env.ledger.has .admin = true :=
    fun hpaused => Option.isSome_iff_ne_none.mpr (paused_has_admin h hpaused)
  exact (evaluateTransition_documented_iff (r := ⟨caller,user,newStatus,env.ledger⟩)).mpr hadmin

/-- A stranger asks the suspended deployment for a revocation. -/
theorem guard_precedence_suspended :
    evaluateTransition 7 1 .revoked suspended.ledger =
      verdict documentedOrder ⟨7,1,.revoked,suspended.ledger⟩ :=
  guard_precedence ⟨deployment++[⟨fun a => a = 0,.pause 0⟩],rfl⟩ 7 1 .revoked

end Aegis
