import Aegis.Caps
import Aegis.ComplianceGuards
import Aegis.Lifecycle

/-!
# Movement restrictions

The reason a transfer or a mint is, or would be, blocked, its correspondence
with the numbered errors, and the two evaluators the pre-flight reads serve.
The evaluators only read, but the sum they compare with a positive cap is
checked and may trap.
-/

set_option autoImplicit false

namespace Aegis
open HostKit

inductive RestrictionReason where
  | none
  | unauthorizedOperation
  | contractPaused
  | assetPaused
  | assetRetired
  | assetBlocked
  | senderNotCompliant
  | recipientNotCompliant
  | invalidAmount
  | insufficientBalance
  | holdingCapExceeded
  | supplyCapExceeded
  deriving DecidableEq, Repr

namespace RestrictionReason

def isBlocked (r : RestrictionReason) : Bool := r ≠ .none

/-- Only retirement has no later ledger under which a retry succeeds. -/
def isTerminal (r : RestrictionReason) : Bool := r = .assetRetired

end RestrictionReason

def errorForReason : RestrictionReason → Option Error
  | .none => none
  | .unauthorizedOperation => some .unauthorized
  | .contractPaused => some .contractPaused
  | .assetPaused => some .assetPausedRestriction
  | .assetRetired => some .assetRetiredRestriction
  | .assetBlocked => some .assetBlockedRestriction
  | .senderNotCompliant => some .senderNotWhitelisted
  | .recipientNotCompliant => some .receiverNotWhitelisted
  | .invalidAmount => some .invalidAmount
  | .insufficientBalance => some .insufficientBalance
  | .holdingCapExceeded => some .holdingCapExceeded
  | .supplyCapExceeded => some .supplyCapExceeded

def reasonForError : Error → Option RestrictionReason
  | .unauthorized => some .unauthorizedOperation
  | .contractPaused => some .contractPaused
  | .assetPausedRestriction => some .assetPaused
  | .assetRetiredRestriction => some .assetRetired
  | .assetBlockedRestriction => some .assetBlocked
  | .senderNotWhitelisted => some .senderNotCompliant
  | .receiverNotWhitelisted => some .recipientNotCompliant
  | .invalidAmount => some .invalidAmount
  | .insufficientBalance => some .insufficientBalance
  | .holdingCapExceeded => some .holdingCapExceeded
  | .supplyCapExceeded => some .supplyCapExceeded
  | _ => none

def codeForReason (r : RestrictionReason) : UInt32 :=
  match errorForReason r with
  | some e => e.code
  | none => 0

def getRestrictionCode (r : RestrictionReason) : UInt32 := codeForReason r

/-- The two tables are inverse to each other on every blocking reason. -/
theorem reasonForError_eq_some {e : Error} {r : RestrictionReason} :
    reasonForError e = some r ↔ errorForReason r = some e := by
  cases r <;> cases e <;> simp [reasonForError, errorForReason]

theorem errorForReason_eq_none {r : RestrictionReason} :
    errorForReason r = none ↔ r.isBlocked = false := by
  cases r <;> simp [errorForReason, RestrictionReason.isBlocked]

theorem code_eq_of_reasonForError {e : Error} {r : RestrictionReason}
    (h : reasonForError e = some r) : getRestrictionCode r = e.code := by
  rw [getRestrictionCode, codeForReason, reasonForError_eq_some.mp h]

/-- A draft asset is reported like a blocked one. -/
def assetStatusReason : AssetStatus → RestrictionReason
  | .active => .none
  | .draft => .assetBlocked
  | .paused => .assetPaused
  | .retired => .assetRetired
  | .blocked => .assetBlocked

theorem assetStatusReason_isBlocked {s : AssetStatus} :
    (assetStatusReason s).isBlocked = false ↔ s = .active := by
  cases s <;> simp [assetStatusReason, RestrictionReason.isBlocked]

variable {Address : Type}

/-- The comparison with a cap, made wherever an evaluator reads one. -/
def exceedsCap (cap current incoming : I128) : Except Failure Bool := do
  if cap.val ≤ 0 then
    .ok false
  else
    let sum ← add current incoming
    .ok (cap.val < sum.val)

/-- Enforcement and evaluation form the same sum and compare it the same way. -/
theorem enforceCap_eq (cap current incoming : I128) (e : Error) :
    enforceCap cap current incoming e =
      (exceedsCap cap current incoming >>= fun exceeded =>
        if exceeded then .error (.err e) else .ok ()) := by
  rw [enforceCap, exceedsCap]
  by_cases hoff : cap.val ≤ 0
  · simp [hoff, bind, Except.bind]
  · rw [if_neg hoff, if_neg hoff]
    cases add current incoming <;> simp [bind, Except.bind]

theorem exceedsCap_eq_false {cap current incoming : I128} (hpos : 0 < incoming.val) :
    exceedsCap cap current incoming = .ok false ↔ WithinCap cap current incoming := by
  rw [← enforceCap_ok (e := .supplyCapExceeded) (u := ()) hpos, enforceCap_eq]
  rcases exceedsCap cap current incoming with f | _ | _ <;> simp [bind, Except.bind]

/-! ## Evaluators -/

def evaluateTransfer (sender recipient : Address) (amount : I128) (l : Ledger Address) :
    Except Failure RestrictionReason :=
  if isPaused l then
    .ok .contractPaused
  else if amount.val ≤ 0 then
    .ok .invalidAmount
  else if (assetStatusReason (getAssetStatus l)).isBlocked then
    .ok (assetStatusReason (getAssetStatus l))
  else if !isWhitelisted sender l then
    .ok .senderNotCompliant
  else if !isWhitelisted recipient l then
    .ok .recipientNotCompliant
  else do
    let exceeded ← exceedsCap (getHoldingCap l) (getBalanceOf recipient l) amount
    if exceeded then
      .ok .holdingCapExceeded
    else if (getBalanceOf sender l).val < amount.val then
      .ok .insufficientBalance
    else
      .ok .none

def checkTransferRestriction (sender recipient : Address) (amount : I128) (l : Ledger Address) :
    Except Failure RestrictionReason := evaluateTransfer sender recipient amount l

/-- The sum with a positive cap traps above the range of the amounts. -/
theorem exceedsCap_traps {cap current incoming : I128} (hpos : 0 < incoming.val) :
    (∃ f, exceedsCap cap current incoming = .error f) ↔
      0 < cap.val ∧ 2^127-1 < current.val+incoming.val := by
  have hlow := current.lo_le
  rw [exceedsCap]
  by_cases hoff : cap.val ≤ 0
  · simp [hoff, not_lt.mpr hoff]
  · rw [if_neg hoff, add]
    cases hadd : current.checkedAdd incoming with
    | none =>
      have hout := CheckedInt.checkedAdd_eq_none.mp hadd
      simp only [bind, Except.bind, Except.error.injEq, exists_eq', true_iff]
      omega
    | some c =>
      have hin := CheckedInt.checkedAdd_eq_some.mp hadd
      have htop := c.le_hi
      apply iff_of_false
      · rintro ⟨f, hf⟩
        cases hf
      · omega

variable [DecidableEq Address]

/-- Reads the admin key itself, so that it answers before initialisation. -/
def canMint (caller : Address) (l : Ledger Address) : Bool :=
  match l.get .admin with
  | some admin => caller = admin ∨ getRole caller l = .assetManager
  | none => false

theorem canMint_iff {caller : Address} {l : Ledger Address} :
    canMint caller l = true ↔ ActsAs caller (· = .assetManager) l := by
  rw [canMint, ActsAs]
  cases h : l.get .admin <;> simp [IsAdmin, h]

def evaluateMint (caller recipient : Address) (amount : I128) (l : Ledger Address) :
    Except Failure RestrictionReason :=
  if isPaused l then
    .ok .contractPaused
  else if !canMint caller l then
    .ok .unauthorizedOperation
  else if amount.val ≤ 0 then
    .ok .invalidAmount
  else if (assetStatusReason (getAssetStatus l)).isBlocked then
    .ok (assetStatusReason (getAssetStatus l))
  else if !isWhitelisted recipient l then
    .ok .recipientNotCompliant
  else do
    let overSupply ← exceedsCap (getSupplyCap l) (getTotalSupply l) amount
    if overSupply then
      .ok .supplyCapExceeded
    else
      let overHolding ← exceedsCap (getHoldingCap l) (getBalanceOf recipient l) amount
      if overHolding then
        .ok .holdingCapExceeded
      else
        .ok .none

def checkMintRestriction (caller recipient : Address) (amount : I128) (l : Ledger Address) :
    Except Failure RestrictionReason := evaluateMint caller recipient amount l

end Aegis
