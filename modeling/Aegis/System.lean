import Aegis.Asset
import Aegis.Config

/-!
# The deployed contract

Every state-changing entrypoint is a call. A run starts at the empty ledger
and makes calls in any order, by anybody, authorised by any set of
addresses. Each call has a footprint, and off it a committed call leaves the
ledger as it was.
-/

set_option autoImplicit false

namespace Aegis
open HostKit

inductive Call (Address : Type) where
  | initializeContract (admin : Address)
  | setRole (admin target : Address) (role : Role)
  | removeRole (admin target : Address)
  | transferAdmin (admin candidate : Address)
  | acceptAdmin (candidate : Address)
  | renounceAdmin (admin : Address)
  | pause (caller : Address)
  | unpause (caller : Address)
  | setComplianceStatus (caller user : Address) (newStatus : ComplianceStatus)
  | batchSetComplianceStatus (caller : Address) (updates : List (ComplianceBatchUpdate Address))
  | whitelistUser (admin user : Address)
  | revokeWhitelist (admin user : Address)
  | setAssetStatus (admin : Address) (newStatus : AssetStatus)
  | updateAssetMetadata (caller : Address) (name symbol uri : String)
  | mintAsset (admin recipient : Address) (amount : I128)
  | transfer (sender recipient : Address) (amount : I128)
  | distributeYield (admin : Address) (amount : I128)
  | proposeSupplyCap (admin : Address) (proposedCap : I128)
  | acceptSupplyCap (admin : Address)
  | cancelSupplyCapProposal (admin : Address)
  | proposeHoldingCap (admin : Address) (proposedCap : I128)
  | acceptHoldingCap (admin : Address)
  | cancelHoldingCapProposal (admin : Address)
  | proposeConfig (admin : Address) (proposedConfig : ProtocolConfig)
  | acceptConfig (admin : Address)
  | cancelConfigProposal (admin : Address)
  | setIssuerSeparationPolicy (admin : Address) (policy : IssuerSeparationPolicy)
  deriving DecidableEq

namespace Call
variable {Address : Type}

/-- The one address each entrypoint requires to have authorised it. -/
def signer : Call Address → Address
  | initializeContract admin => admin
  | setRole admin _ _ => admin
  | removeRole admin _ => admin
  | transferAdmin admin _ => admin
  | acceptAdmin candidate => candidate
  | renounceAdmin admin => admin
  | pause caller => caller
  | unpause caller => caller
  | setComplianceStatus caller _ _ => caller
  | batchSetComplianceStatus caller _ => caller
  | whitelistUser admin _ => admin
  | revokeWhitelist admin _ => admin
  | setAssetStatus admin _ => admin
  | updateAssetMetadata caller _ _ _ => caller
  | mintAsset admin _ _ => admin
  | transfer sender _ _ => sender
  | distributeYield admin _ => admin
  | proposeSupplyCap admin _ => admin
  | acceptSupplyCap admin => admin
  | cancelSupplyCapProposal admin => admin
  | proposeHoldingCap admin _ => admin
  | acceptHoldingCap admin => admin
  | cancelHoldingCapProposal admin => admin
  | proposeConfig admin _ => admin
  | acceptConfig admin => admin
  | cancelConfigProposal admin => admin
  | setIssuerSeparationPolicy admin _ => admin

/-- The keys a call may write on a ledger. Accepting the admin role also
writes the role of the admin who is replaced. -/
def writes (l : Ledger Address) : Call Address → Set (DataKey Address)
  | initializeContract admin => {.admin, .role admin}
  | setRole _ target _ => {.role target}
  | removeRole _ target => {.role target}
  | transferAdmin _ _ => {.adminCandidate}
  | acceptAdmin candidate =>
    {.adminCandidate, .admin, .role candidate} ∪ {k | ∃ p, IsAdmin p l ∧ k = .role p}
  | renounceAdmin admin => {.admin, .role admin}
  | pause _ => {.paused}
  | unpause _ => {.paused}
  | setComplianceStatus _ user _ => statusKeys user
  | batchSetComplianceStatus _ updates => {k | ∃ update ∈ updates, k ∈ statusKeys update.user}
  | whitelistUser _ user => statusKeys user
  | revokeWhitelist _ user => statusKeys user
  | setAssetStatus _ _ => {.assetStatus}
  | updateAssetMetadata _ _ _ _ => {.assetName, .assetSymbol, .assetMetadataUri}
  | mintAsset _ recipient _ => {.balance recipient, .totalSupply}
  | transfer sender recipient _ => {.balance sender, .balance recipient}
  | distributeYield _ _ => ∅
  | proposeSupplyCap _ _ => {.supplyCapCandidate}
  | acceptSupplyCap _ => {.supplyCapCandidate, .supplyCap}
  | cancelSupplyCapProposal _ => {.supplyCapCandidate}
  | proposeHoldingCap _ _ => {.holdingCapCandidate}
  | acceptHoldingCap _ => {.holdingCapCandidate, .holdingCap}
  | cancelHoldingCapProposal _ => {.holdingCapCandidate}
  | proposeConfig _ _ => {.protocolConfigCandidate}
  | acceptConfig _ => {.protocolConfigCandidate, .protocolConfig}
  | cancelConfigProposal _ => {.protocolConfigCandidate}
  | setIssuerSeparationPolicy _ _ => {.issuerSeparationPolicy}

variable [DecidableEq Address]

/-- The batch returns a count, which no state depends on. -/
def body : Call Address → Contract Address Unit
  | initializeContract admin => Aegis.initializeContract admin
  | setRole admin target role => Aegis.setRole admin target role
  | removeRole admin target => Aegis.removeRole admin target
  | transferAdmin admin candidate => Aegis.transferAdmin admin candidate
  | acceptAdmin candidate => Aegis.acceptAdmin candidate
  | renounceAdmin admin => Aegis.renounceAdmin admin
  | pause caller => Aegis.pause caller
  | unpause caller => Aegis.unpause caller
  | setComplianceStatus caller user newStatus => Aegis.setComplianceStatus caller user newStatus
  | batchSetComplianceStatus caller updates => do
    let _ ← Aegis.batchSetComplianceStatus caller updates
    pure ()
  | whitelistUser admin user => Aegis.whitelistUser admin user
  | revokeWhitelist admin user => Aegis.revokeWhitelist admin user
  | setAssetStatus admin newStatus => Aegis.setAssetStatus admin newStatus
  | updateAssetMetadata caller name symbol uri => Aegis.updateAssetMetadata caller name symbol uri
  | mintAsset admin recipient amount => Aegis.mintAsset admin recipient amount
  | transfer sender recipient amount => Aegis.transfer sender recipient amount
  | distributeYield admin amount => Aegis.distributeYield admin amount
  | proposeSupplyCap admin proposedCap => Aegis.proposeSupplyCap admin proposedCap
  | acceptSupplyCap admin => Aegis.acceptSupplyCap admin
  | cancelSupplyCapProposal admin => Aegis.cancelSupplyCapProposal admin
  | proposeHoldingCap admin proposedCap => Aegis.proposeHoldingCap admin proposedCap
  | acceptHoldingCap admin => Aegis.acceptHoldingCap admin
  | cancelHoldingCapProposal admin => Aegis.cancelHoldingCapProposal admin
  | proposeConfig admin proposedConfig => Aegis.proposeConfig admin proposedConfig
  | acceptConfig admin => Aegis.acceptConfig admin
  | cancelConfigProposal admin => Aegis.cancelConfigProposal admin
  | setIssuerSeparationPolicy admin policy => Aegis.setIssuerSeparationPolicy admin policy

end Call

abbrev Signed (Address : Type) := Invocation (Auth Address) (Call Address)

variable {Address : Type} [DecidableEq Address] {env env' : Env Address} {i : Signed Address}

theorem batch_commits {auth : Auth Address} {caller : Address}
    {updates : List (ComplianceBatchUpdate Address)} {u : Unit} :
    (Call.batchSetComplianceStatus caller updates).body.exec auth env = (.ok u, env') ↔
      isPaused env.ledger = false ∧ auth caller = true ∧ ValidUpdates caller updates env.ledger ∧
        env' = ⟨withUpdates caller updates env.ledger,
          env.events++updates.map fun update => .complianceStatusChanged caller update.user
            (getComplianceStatus update.user env.ledger) update.newStatus⟩ := by
  simp only [Call.body, Host.bind_ok_iff, batchSetComplianceStatus_ok]
  constructor
  · rintro ⟨n, t, ⟨hrun, hauth, hvalid, -, rfl⟩, h⟩
    cases h
    exact ⟨hrun,hauth,hvalid,rfl⟩
  · rintro ⟨hrun, hauth, hvalid, rfl⟩
    exact ⟨_,_,⟨hrun,hauth,hvalid,rfl,rfl⟩,rfl⟩

/-! ## Every committed call was authorised by its signer -/

theorem signer_authorised (h : Commits Call.body env i env') :
    i.context i.call.signer = true := by
  obtain ⟨auth, c⟩ := i
  cases c with
  | initializeContract admin => exact (initializeContract_ok.mp h).2.1
  | setRole admin target role => exact (setRole_ok.mp h).1.2.1
  | removeRole admin target => exact (removeRole_ok.mp h).1.2.1
  | transferAdmin admin candidate => exact (transferAdmin_ok.mp h).1.2.1
  | acceptAdmin candidate => exact (acceptAdmin_ok.mp h).2.1
  | renounceAdmin admin => exact (renounceAdmin_ok.mp h).1.2.1
  | pause caller => exact (pause_ok.mp h).1
  | unpause caller => exact (unpause_ok.mp h).1
  | setComplianceStatus caller user newStatus => exact (setComplianceStatus_ok.mp h).1
  | batchSetComplianceStatus caller updates => exact (batch_commits.mp h).2.1
  | whitelistUser admin user => exact (whitelistUser_ok.mp h).2.1
  | revokeWhitelist admin user => exact (revokeWhitelist_ok.mp h).2.1
  | setAssetStatus admin newStatus => exact (setAssetStatus_ok.mp h).2.1
  | updateAssetMetadata caller name symbol uri => exact (updateAssetMetadata_ok.mp h).2.1
  | mintAsset admin recipient amount => exact (mintAsset_ok.mp h).1
  | transfer sender recipient amount => exact (transfer_ok.mp h).1
  | distributeYield admin amount => exact (distributeYield_ok.mp h).2.1
  | proposeSupplyCap admin proposedCap => exact (proposeCap_ok.mp h).1.2.1
  | acceptSupplyCap admin => exact (acceptCap_ok.mp h).1.2.1
  | cancelSupplyCapProposal admin => exact (cancelCapProposal_ok.mp h).1.2.1
  | proposeHoldingCap admin proposedCap => exact (proposeCap_ok.mp h).1.2.1
  | acceptHoldingCap admin => exact (acceptCap_ok.mp h).1.2.1
  | cancelHoldingCapProposal admin => exact (cancelCapProposal_ok.mp h).1.2.1
  | proposeConfig admin proposedConfig => exact (proposeConfig_ok.mp h).1.2.1
  | acceptConfig admin => exact (acceptConfig_ok.mp h).1.2.1
  | cancelConfigProposal admin => exact (cancelConfigProposal_ok.mp h).1.2.1
  | setIssuerSeparationPolicy admin policy => exact (setIssuerSeparationPolicy_ok.mp h).1.2.1

/-! ## Off its footprint a committed call changes nothing -/

theorem commits_frame (h : Commits Call.body env i env') :
    Store.AgreeOff (i.call.writes env.ledger) env.ledger env'.ledger := by
  obtain ⟨auth, c⟩ := i
  have hrefl := Store.AgreeOff.refl (c.writes env.ledger) env.ledger
  cases c with
  | initializeContract admin =>
    obtain ⟨-, -, rfl⟩ := initializeContract_ok.mp h
    exact (hrefl.set (k := .admin) (by simp [Call.writes]) admin).set (k := .role admin)
      (by simp [Call.writes]) .admin
  | setRole admin target role =>
    obtain ⟨-, -, rfl⟩ := setRole_ok.mp h
    exact hrefl.set (k := .role target) (by simp [Call.writes]) role
  | removeRole admin target =>
    obtain ⟨-, -, rfl⟩ := removeRole_ok.mp h
    exact hrefl.set (k := .role target) (by simp [Call.writes]) .none
  | transferAdmin admin candidate =>
    obtain ⟨-, rfl⟩ := transferAdmin_ok.mp h
    exact hrefl.set (k := .adminCandidate) (by simp [Call.writes]) candidate
  | acceptAdmin candidate =>
    obtain ⟨-, -, -, previous, hadmin, rfl⟩ := acceptAdmin_ok.mp h
    have hcleared := hrefl.remove (k := .adminCandidate) (by simp [Call.writes])
    have hseated := hcleared.set (k := .admin) (by simp [Call.writes]) candidate
    have hdemoted := hseated.set (k := .role previous) (by simp [Call.writes, hadmin]) .none
    exact hdemoted.set (k := .role candidate) (by simp [Call.writes]) .admin
  | renounceAdmin admin =>
    obtain ⟨-, rfl⟩ := renounceAdmin_ok.mp h
    exact (hrefl.remove (k := .admin) (by simp [Call.writes])).set (k := .role admin)
      (by simp [Call.writes]) .none
  | pause caller =>
    obtain ⟨-, -, -, rfl⟩ := pause_ok.mp h
    exact hrefl.set (k := .paused) (by simp [Call.writes]) true
  | unpause caller =>
    obtain ⟨-, -, -, rfl⟩ := unpause_ok.mp h
    exact hrefl.set (k := .paused) (by simp [Call.writes]) false
  | setComplianceStatus caller user newStatus =>
    obtain ⟨-, -, rfl⟩ := setComplianceStatus_ok.mp h
    exact withStatus_frame caller user newStatus env.ledger
  | batchSetComplianceStatus caller updates =>
    obtain ⟨-, -, -, rfl⟩ := batch_commits.mp h
    exact withUpdates_frame caller updates env.ledger
  | whitelistUser admin user =>
    obtain ⟨-, -, -, ⟨-, rfl⟩ | ⟨-, rfl⟩⟩ := whitelistUser_ok.mp h
    · exact hrefl
    · exact withStatus_frame admin user .approved env.ledger
  | revokeWhitelist admin user =>
    obtain ⟨-, -, -, ⟨-, rfl⟩ | ⟨-, rfl⟩⟩ := revokeWhitelist_ok.mp h
    · exact hrefl
    · exact withStatus_frame admin user .revoked env.ledger
  | setAssetStatus admin newStatus =>
    obtain ⟨-, -, -, -, rfl⟩ := setAssetStatus_ok.mp h
    exact hrefl.set (k := .assetStatus) (by simp [Call.writes]) newStatus
  | updateAssetMetadata caller name symbol uri =>
    obtain ⟨-, -, -, -, -, rfl⟩ := updateAssetMetadata_ok.mp h
    have hname := hrefl.set (k := .assetName) (by simp [Call.writes]) name
    have hsymbol := hname.set (k := .assetSymbol) (by simp [Call.writes]) symbol
    exact hsymbol.set (k := .assetMetadataUri) (by simp [Call.writes]) uri
  | mintAsset admin recipient amount =>
    obtain ⟨-, -, balance, supply, -, -, rfl⟩ := mintAsset_ok.mp h
    exact (hrefl.set (k := .balance recipient) (by simp [Call.writes]) balance).set
      (k := .totalSupply) (by simp [Call.writes]) supply
  | transfer sender recipient amount =>
    obtain ⟨-, -, debited, credited, -, -, rfl⟩ := transfer_ok.mp h
    exact (hrefl.set (k := .balance sender) (by simp [Call.writes]) debited).set
      (k := .balance recipient) (by simp [Call.writes]) credited
  | distributeYield admin amount =>
    obtain ⟨-, -, -, -, -, rfl⟩ := distributeYield_ok.mp h
    exact hrefl
  | proposeSupplyCap admin proposedCap =>
    obtain ⟨-, -, -, rfl⟩ := proposeCap_ok.mp h
    exact hrefl.set (k := .supplyCapCandidate) (by simp [Call.writes]) proposedCap
  | acceptSupplyCap admin =>
    obtain ⟨-, proposed, -, rfl⟩ := acceptCap_ok.mp h
    exact (hrefl.remove (k := .supplyCapCandidate) (by simp [Call.writes])).set (k := .supplyCap)
      (by simp [Call.writes]) proposed
  | cancelSupplyCapProposal admin =>
    obtain ⟨-, -, rfl⟩ := cancelCapProposal_ok.mp h
    exact hrefl.remove (k := .supplyCapCandidate) (by simp [Call.writes])
  | proposeHoldingCap admin proposedCap =>
    obtain ⟨-, -, -, rfl⟩ := proposeCap_ok.mp h
    exact hrefl.set (k := .holdingCapCandidate) (by simp [Call.writes]) proposedCap
  | acceptHoldingCap admin =>
    obtain ⟨-, proposed, -, rfl⟩ := acceptCap_ok.mp h
    exact (hrefl.remove (k := .holdingCapCandidate) (by simp [Call.writes])).set (k := .holdingCap)
      (by simp [Call.writes]) proposed
  | cancelHoldingCapProposal admin =>
    obtain ⟨-, -, rfl⟩ := cancelCapProposal_ok.mp h
    exact hrefl.remove (k := .holdingCapCandidate) (by simp [Call.writes])
  | proposeConfig admin proposedConfig =>
    obtain ⟨-, -, -, rfl⟩ := proposeConfig_ok.mp h
    exact hrefl.set (k := .protocolConfigCandidate) (by simp [Call.writes]) proposedConfig
  | acceptConfig admin =>
    obtain ⟨-, pending, -, rfl⟩ := acceptConfig_ok.mp h
    exact (hrefl.remove (k := .protocolConfigCandidate) (by simp [Call.writes])).set
      (k := .protocolConfig) (by simp [Call.writes]) pending
  | cancelConfigProposal admin =>
    obtain ⟨-, -, rfl⟩ := cancelConfigProposal_ok.mp h
    exact hrefl.remove (k := .protocolConfigCandidate) (by simp [Call.writes])
  | setIssuerSeparationPolicy admin policy =>
    obtain ⟨-, rfl⟩ := setIssuerSeparationPolicy_ok.mp h
    exact hrefl.set (k := .issuerSeparationPolicy) (by simp [Call.writes]) policy

/-- A key outside the footprint reads the same before and after. -/
theorem commits_unchanged (h : Commits Call.body env i env') {k : DataKey Address}
    (hk : k ∉ i.call.writes env.ledger) : env'.ledger.get k = env.ledger.get k :=
  commits_frame h k hk

/-- A deployment whose first five units are held by one approved account. -/
def deployment : List (Signed ℕ) :=
  [⟨fun a => a = 0,.initializeContract 0⟩,
    ⟨fun a => a = 0,.setAssetStatus 0 .active⟩,
    ⟨fun a => a = 0,.setComplianceStatus 0 1 .approved⟩,
    ⟨fun a => a = 0,.mintAsset 0 1 ⟨5,by decide,by decide⟩⟩]

def deployed : Env ℕ := run Call.body deployment Env.fresh

end Aegis
