import Aegis.Admin

/-!
# Asset lifecycle

The status of the issued asset, separate from the contract-wide pause, and
the transitions the admin may make. Retirement has no way out.
-/

set_option autoImplicit false

namespace Aegis
open HostKit

variable {Address : Type}

/-- `asset::get_asset_status_internal` reads the same key with the same default. -/
def getAssetStatus (l : Ledger Address) : AssetStatus := (l.get .assetStatus).getD .draft

def isValidTransition : AssetStatus → AssetStatus → Bool
  | .draft, .active => true
  | .active, .paused => true
  | .active, .retired => true
  | .active, .blocked => true
  | .paused, .active => true
  | .paused, .retired => true
  | .paused, .blocked => true
  | .blocked, .active => true
  | _, _ => false

variable [DecidableEq Address]

/-- Only activation is refused while the contract is paused. -/
def setAssetStatus (admin : Address) (newStatus : AssetStatus) : Contract Address Unit := do
  check fun l => if newStatus = .active then requireNotPaused l else .ok ()
  requireAuth admin
  errWhen (admin ≠ (← check getAdmin)) .unauthorized
  let current ← load getAssetStatus
  errWhen (current = newStatus) .invalidLifecycleTransition
  errWhen (!isValidTransition current newStatus) .invalidLifecycleTransition
  set .assetStatus newStatus
  publish (.assetStatusChanged admin current newStatus)

theorem setAssetStatus_ok {auth : Auth Address} {env env' : Env Address} {u : Unit}
    {admin : Address} {newStatus : AssetStatus} :
    (setAssetStatus admin newStatus).exec auth env = (.ok u, env') ↔
      (newStatus = .active → isPaused env.ledger = false) ∧ auth admin = true ∧
        IsAdmin admin env.ledger ∧ isValidTransition (getAssetStatus env.ledger) newStatus = true ∧
        env' = ⟨env.ledger.set .assetStatus newStatus,
          env.events++[.assetStatusChanged admin (getAssetStatus env.ledger) newStatus]⟩ := by
  have hopen : ∀ u : Unit, (if newStatus = .active then requireNotPaused env.ledger else .ok ()) =
      .ok u ↔ (newStatus = .active → isPaused env.ledger = false) := by
    intro u
    by_cases h : newStatus = .active <;> simp [h]
  have hself : isValidTransition newStatus newStatus = false := by cases newStatus <;> rfl
  have hne : isValidTransition (getAssetStatus env.ledger) newStatus = true →
      getAssetStatus env.ledger ≠ newStatus := by
    intro hedge hsame
    rw [hsame, hself] at hedge
    cases hedge
  simp [setAssetStatus, Host.bind_ok_iff, hopen]
  intro _ _ _ hedge _
  exact hne hedge

end Aegis
