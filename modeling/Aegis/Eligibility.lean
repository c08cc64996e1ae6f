import Aegis.Restrictions

/-!
# Investor eligibility

The snapshot of one investor, with the headroom left under the holding cap,
and the boolean verdict on a transfer, which is taken from the reason
evaluator.
-/

set_option autoImplicit false

namespace Aegis

variable {Address : Type}

structure InvestorEligibility where
  whitelisted : Bool
  complianceStatus : ComplianceStatus
  contractPaused : Bool
  balance : I128
  holdingCap : I128
  remainingCapacity : Option I128
  assetStatus : AssetStatus
  canReceive : Bool
  canSend : Bool
  deriving DecidableEq

/-- The headroom under a cap, floored at zero, and none where no cap is active. -/
def remainingCapacityUnder (holdingCap balance : I128) : Except Failure (Option I128) := do
  if holdingCap.val ≤ 0 then
    .ok none
  else
    let headroom ← sub holdingCap balance
    .ok (some (headroom.max 0))

def getInvestorEligibility (investor : Address) (l : Ledger Address) :
    Except Failure InvestorEligibility := do
  let complianceStatus := getComplianceStatus investor l
  let whitelisted := complianceStatus.isApproved
  let contractPaused := isPaused l
  let assetStatus := getAssetStatus l
  let balance := getBalanceOf investor l
  let holdingCap := getHoldingCap l
  let remainingCapacity ← remainingCapacityUnder holdingCap balance
  let hasHeadroom : Bool := holdingCap.val ≤ 0 ∨ balance.val < holdingCap.val
  let assetOperable : Bool := assetStatus = .active
  .ok
    { whitelisted := whitelisted
      complianceStatus := complianceStatus
      contractPaused := contractPaused
      balance := balance
      holdingCap := holdingCap
      remainingCapacity := remainingCapacity
      assetStatus := assetStatus
      canReceive := whitelisted && !contractPaused && assetOperable && hasHeadroom
      canSend := whitelisted && !contractPaused && assetOperable && decide (0 < balance.val) }

def checkTransferEligibility (sender recipient : Address) (amount : I128) (l : Ledger Address) :
    Except Failure Bool := do
  let reason ← evaluateTransfer sender recipient amount l
  .ok !reason.isBlocked

theorem checkTransferEligibility_eq_true {sender recipient : Address} {amount : I128}
    {l : Ledger Address} : checkTransferEligibility sender recipient amount l = .ok true ↔
      evaluateTransfer sender recipient amount l = .ok .none := by
  rw [checkTransferEligibility]
  rcases evaluateTransfer sender recipient amount l with f | r
  · simp [bind, Except.bind]
  · cases r <;> simp [bind, Except.bind, RestrictionReason.isBlocked]

end Aegis
