import Aegis.Compliance
import Aegis.Restrictions

/-!
# The asset

Metadata, minting, transfers, and the mocked yield distribution. Minting and
transfers are the only writers of balances, minting the only writer of the
supply.
-/

set_option autoImplicit false

namespace Aegis
open HostKit

variable {Address : Type}

def requireAssetMovable (l : Ledger Address) : Except Failure Unit :=
  match errorForReason (assetStatusReason (getAssetStatus l)) with
  | some e => .error (.err e)
  | none => .ok ()

@[simp] theorem requireAssetMovable_ok {l : Ledger Address} {u : Unit} :
    requireAssetMovable l = .ok u ↔ getAssetStatus l = .active := by
  rw [requireAssetMovable]
  cases getAssetStatus l <;> simp [assetStatusReason, errorForReason]

structure AssetMetadata where
  name : String
  symbol : String
  uri : String
  deriving DecidableEq

def getAssetMetadata (l : Ledger Address) : AssetMetadata :=
  { name := (l.get .assetName).getD ""
    symbol := (l.get .assetSymbol).getD ""
    uri := (l.get .assetMetadataUri).getD "" }

/-! ## What the two movers require -/

@[mk_iff]
structure Transferable (sender recipient : Address) (amount : I128) (l : Ledger Address) :
    Prop where
  running : isPaused l = false
  positive : 0 < amount.val
  active : getAssetStatus l = .active
  senderCleared : getComplianceStatus sender l = .approved
  recipientCleared : getComplianceStatus recipient l = .approved
  withinHolding : WithinCap (getHoldingCap l) (getBalanceOf recipient l) amount
  covered : amount.val ≤ (getBalanceOf sender l).val

def oneUnit : I128 := ⟨1,by decide,by decide⟩

/-- What lets any amount through lets a single unit through. -/
theorem Transferable.one {sender recipient : Address} {amount : I128} {l : Ledger Address}
    (h : Transferable sender recipient amount l) : Transferable sender recipient oneUnit l where
  running := h.running
  positive := one_pos
  active := h.active
  senderCleared := h.senderCleared
  recipientCleared := h.recipientCleared
  withinHolding hon := (add_le_add_right h.positive _).trans (h.withinHolding hon)
  covered := (Int.add_one_le_of_lt h.positive).trans h.covered

variable [DecidableEq Address]

@[mk_iff]
structure Mintable (caller recipient : Address) (amount : I128) (l : Ledger Address) : Prop where
  running : isPaused l = false
  manages : ActsAs caller (· = .assetManager) l
  separated : evaluateIssuance caller (some recipient) l = .allowed
  positive : 0 < amount.val
  active : getAssetStatus l = .active
  cleared : getComplianceStatus recipient l = .approved
  withinSupply : WithinCap (getSupplyCap l) (getTotalSupply l) amount
  withinHolding : WithinCap (getHoldingCap l) (getBalanceOf recipient l) amount

/-! ## Entrypoints -/

def updateAssetMetadata (caller : Address) (name symbol uri : String) : Contract Address Unit := do
  check requireNotPaused
  requireAuth caller
  check (requireRole caller .assetManager)
  let status ← load getAssetStatus
  errWhen (status = .retired ∨ status = .blocked) .assetMetadataUpdateBlocked
  set .assetName name
  set .assetSymbol symbol
  set .assetMetadataUri uri
  publish (.assetMetadataUpdated caller name symbol uri)

def mintAsset (admin recipient : Address) (amount : I128) : Contract Address Unit := do
  check requireNotPaused
  requireAuth admin
  check (requireRole admin .assetManager)
  check (requireIssuanceAuthority admin (some recipient))
  errWhen (amount.val ≤ 0) .invalidAmount
  check requireAssetMovable
  check (requireCanReceive recipient)
  check (enforceSupplyCap amount)
  check (enforceHoldingCap recipient amount)
  let balance ← check fun l => add (getBalanceOf recipient l) amount
  set (.balance recipient) balance
  let supply ← check fun l => add (getTotalSupply l) amount
  set .totalSupply supply
  publish (.assetMinted admin recipient amount supply)

/-- The receiver's balance is read after the sender's is written. -/
def transfer (sender recipient : Address) (amount : I128) : Contract Address Unit := do
  check requireNotPaused
  requireAuth sender
  errWhen (amount.val ≤ 0) .invalidAmount
  check requireAssetMovable
  check (requireCanSend sender)
  check (requireCanReceive recipient)
  check (enforceHoldingCap recipient amount)
  let senderBalance ← load (getBalanceOf sender)
  errWhen (senderBalance.val < amount.val) .insufficientBalance
  let senderBalance ← check fun _ => sub senderBalance amount
  set (.balance sender) senderBalance
  let recipientBalance ← check fun l => add (getBalanceOf recipient l) amount
  set (.balance recipient) recipientBalance
  publish (.transfer sender recipient amount)

/-- Records a distribution without moving anything. -/
def distributeYield (admin : Address) (amount : I128) : Contract Address Unit := do
  check requireNotPaused
  requireAuth admin
  check (requireRole admin .assetManager)
  check (requireIssuanceAuthority admin none)
  errWhen (amount.val ≤ 0) .invalidAmount
  publish (.yieldDistributed admin amount)

/-! ## Success conditions and effects -/

section
variable {auth : Auth Address} {env env' : Env Address} {u : Unit}

theorem updateAssetMetadata_ok {caller : Address} {name symbol uri : String} :
    (updateAssetMetadata caller name symbol uri).exec auth env = (.ok u, env') ↔
      isPaused env.ledger = false ∧ auth caller = true ∧
        ActsAs caller (· = .assetManager) env.ledger ∧
        getAssetStatus env.ledger ≠ .retired ∧ getAssetStatus env.ledger ≠ .blocked ∧
        env' = ⟨((env.ledger.set .assetName name).set .assetSymbol symbol).set
            .assetMetadataUri uri,
          env.events++[.assetMetadataUpdated caller name symbol uri]⟩ := by
  simp [updateAssetMetadata, Host.bind_ok_iff, and_assoc]

theorem mintAsset_ok {admin recipient : Address} {amount : I128} :
    (mintAsset admin recipient amount).exec auth env = (.ok u, env') ↔
      auth admin = true ∧ Mintable admin recipient amount env.ledger ∧
        ∃ balance supply : I128,
          (getBalanceOf recipient env.ledger).val+amount.val = balance.val ∧
          (getTotalSupply env.ledger).val+amount.val = supply.val ∧
          env' = ⟨(env.ledger.set (.balance recipient) balance).set .totalSupply supply,
            env.events++[.assetMinted admin recipient amount supply]⟩ := by
  have hsupply : ∀ balance : I128,
      getTotalSupply (env.ledger.set (.balance recipient) balance) = getTotalSupply env.ledger := by
    simp [getTotalSupply]
  by_cases hpos : 0 < amount.val
  · simp [mintAsset, Host.bind_ok_iff, hpos, enforceSupplyCap_ok hpos, enforceHoldingCap_ok hpos,
      add_ok, hsupply, mintable_iff, and_assoc]
    exact and_left_comm
  · simp [mintAsset, Host.bind_ok_iff, hpos, mintable_iff]

theorem transfer_ok {sender recipient : Address} {amount : I128} :
    (transfer sender recipient amount).exec auth env = (.ok u, env') ↔
      auth sender = true ∧ Transferable sender recipient amount env.ledger ∧
        ∃ debited credited : I128,
          (getBalanceOf sender env.ledger).val-amount.val = debited.val ∧
          (getBalanceOf recipient (env.ledger.set (.balance sender) debited)).val+amount.val =
            credited.val ∧
          env' = ⟨(env.ledger.set (.balance sender) debited).set (.balance recipient) credited,
            env.events++[.transfer sender recipient amount]⟩ := by
  by_cases hpos : 0 < amount.val
  · simp [transfer, Host.bind_ok_iff, hpos, enforceHoldingCap_ok hpos, add_ok, sub_ok,
      transferable_iff, and_assoc]
    exact and_left_comm
  · simp [transfer, Host.bind_ok_iff, hpos, transferable_iff]

theorem distributeYield_ok {admin : Address} {amount : I128} :
    (distributeYield admin amount).exec auth env = (.ok u, env') ↔
      isPaused env.ledger = false ∧ auth admin = true ∧
        ActsAs admin (· = .assetManager) env.ledger ∧
        evaluateIssuance admin none env.ledger = .allowed ∧ 0 < amount.val ∧
        env' = ⟨env.ledger,env.events++[.yieldDistributed admin amount]⟩ := by
  simp [distributeYield, Host.bind_ok_iff]

end

end Aegis
