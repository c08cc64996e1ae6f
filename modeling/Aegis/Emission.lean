import Aegis.System

/-!
# Published events

A committed call appends to the event log exactly the events read here off
the call and the ledger it ran on. A failed call appends nothing, because the
host discards what it had published.
-/

set_option autoImplicit false

namespace Aegis
open HostKit

variable {Address : Type} [DecidableEq Address] {env env' : Env Address} {i : Signed Address}

/-- What a call publishes if it commits. The optional values are there
whenever it does. -/
def Call.emitted (l : Ledger Address) : Call Address → List (Event Address)
  | .initializeContract admin => [.contractInitialized admin]
  | .setRole admin target role => [.roleAssigned admin target role]
  | .removeRole admin target => [.roleRevoked admin target (getRole target l)]
  | .transferAdmin admin candidate => [.adminTransferInitiated admin candidate]
  | .acceptAdmin candidate =>
    (l.get .admin).toList.map fun previous => .adminTransferred previous candidate
  | .renounceAdmin admin => [.adminRenounced admin admin]
  | .pause caller => [.contractPaused caller]
  | .unpause caller => [.contractUnpaused caller]
  | .setComplianceStatus caller user newStatus =>
    [.complianceStatusChanged caller user (getComplianceStatus user l) newStatus]
  | .batchSetComplianceStatus caller updates => updates.map fun update =>
    .complianceStatusChanged caller update.user (getComplianceStatus update.user l) update.newStatus
  | .whitelistUser admin user =>
    (if getComplianceStatus user l = .approved then []
      else [.complianceStatusChanged admin user (getComplianceStatus user l) .approved])++
      [.userWhitelisted admin user]
  | .revokeWhitelist admin user =>
    (if transitionIsAllowed (getComplianceStatus user l) .revoked then
        [.complianceStatusChanged admin user (getComplianceStatus user l) .revoked]
      else [])++
      [.whitelistRevoked admin user]
  | .setAssetStatus admin newStatus => [.assetStatusChanged admin (getAssetStatus l) newStatus]
  | .updateAssetMetadata caller name symbol uri => [.assetMetadataUpdated caller name symbol uri]
  | .mintAsset admin recipient amount =>
    ((getTotalSupply l).checkedAdd amount).toList.map fun supply =>
      .assetMinted admin recipient amount supply
  | .transfer sender recipient amount => [.transfer sender recipient amount]
  | .distributeYield admin amount => [.yieldDistributed admin amount]
  | .proposeSupplyCap admin proposedCap =>
    [.capProposed .supply admin (getCap .supply l) proposedCap]
  | .acceptSupplyCap admin => (l.get .supplyCapCandidate).toList.map fun proposed =>
    .capAmended .supply admin (getCap .supply l) proposed
  | .cancelSupplyCapProposal _ => []
  | .proposeHoldingCap admin proposedCap =>
    [.capProposed .holding admin (getCap .holding l) proposedCap]
  | .acceptHoldingCap admin => (l.get .holdingCapCandidate).toList.map fun proposed =>
    .capAmended .holding admin (getCap .holding l) proposed
  | .cancelHoldingCapProposal _ => []
  | .proposeConfig admin proposedConfig => [.configProposed admin proposedConfig]
  | .acceptConfig admin => (l.get .protocolConfigCandidate).toList.map fun pending =>
    .configAmended admin pending
  | .cancelConfigProposal _ => []
  | .setIssuerSeparationPolicy admin policy =>
    [.issuerSeparationPolicyUpdated admin (getPolicy l) policy]

theorem commits_emit (h : Commits Call.body env i env') :
    env'.events = env.events++i.call.emitted env.ledger := by
  obtain ⟨auth, c⟩ := i
  cases c with
  | initializeContract admin =>
    obtain ⟨-, -, rfl⟩ := initializeContract_ok.mp h
    rfl
  | setRole admin target role =>
    obtain ⟨-, -, rfl⟩ := setRole_ok.mp h
    rfl
  | removeRole admin target =>
    obtain ⟨-, -, rfl⟩ := removeRole_ok.mp h
    rfl
  | transferAdmin admin candidate =>
    obtain ⟨-, rfl⟩ := transferAdmin_ok.mp h
    rfl
  | acceptAdmin candidate =>
    obtain ⟨-, -, -, previous, hadmin, rfl⟩ := acceptAdmin_ok.mp h
    rw [Call.emitted, show env.ledger.get .admin = some previous from hadmin]
    rfl
  | renounceAdmin admin =>
    obtain ⟨-, rfl⟩ := renounceAdmin_ok.mp h
    rfl
  | pause caller =>
    obtain ⟨-, -, -, rfl⟩ := pause_ok.mp h
    rfl
  | unpause caller =>
    obtain ⟨-, -, -, rfl⟩ := unpause_ok.mp h
    rfl
  | setComplianceStatus caller user newStatus =>
    obtain ⟨-, -, rfl⟩ := setComplianceStatus_ok.mp h
    rfl
  | batchSetComplianceStatus caller updates =>
    obtain ⟨-, -, -, rfl⟩ := batch_commits.mp h
    rfl
  | whitelistUser admin user =>
    obtain ⟨-, -, -, ⟨happroved, rfl⟩ | ⟨hedge, rfl⟩⟩ := whitelistUser_ok.mp h
    · rw [Call.emitted, if_pos happroved]
      rfl
    · have hne : getComplianceStatus user env.ledger ≠ .approved := by
        intro happroved
        rw [happroved] at hedge
        cases hedge
      rw [Call.emitted, if_neg hne]
      rfl
  | revokeWhitelist admin user =>
    obtain ⟨-, -, -, ⟨hedge, rfl⟩ | ⟨hedge, rfl⟩⟩ := revokeWhitelist_ok.mp h
    · rw [Call.emitted, hedge]
      rfl
    · rw [Call.emitted, hedge]
      rfl
  | setAssetStatus admin newStatus =>
    obtain ⟨-, -, -, -, rfl⟩ := setAssetStatus_ok.mp h
    rfl
  | updateAssetMetadata caller name symbol uri =>
    obtain ⟨-, -, -, -, -, rfl⟩ := updateAssetMetadata_ok.mp h
    rfl
  | mintAsset admin recipient amount =>
    obtain ⟨-, -, balance, supply, -, hsupply, rfl⟩ := mintAsset_ok.mp h
    rw [Call.emitted, CheckedInt.checkedAdd_eq_some.mpr hsupply]
    rfl
  | transfer sender recipient amount =>
    obtain ⟨-, -, debited, credited, -, -, rfl⟩ := transfer_ok.mp h
    rfl
  | distributeYield admin amount =>
    obtain ⟨-, -, -, -, -, rfl⟩ := distributeYield_ok.mp h
    rfl
  | proposeSupplyCap admin proposedCap =>
    obtain ⟨-, -, -, rfl⟩ := proposeCap_ok.mp h
    rfl
  | acceptSupplyCap admin =>
    obtain ⟨-, proposed, hpending, rfl⟩ := acceptCap_ok.mp h
    rw [Call.emitted, hpending]
    rfl
  | cancelSupplyCapProposal admin =>
    obtain ⟨-, -, rfl⟩ := cancelCapProposal_ok.mp h
    exact (List.append_nil env.events).symm
  | proposeHoldingCap admin proposedCap =>
    obtain ⟨-, -, -, rfl⟩ := proposeCap_ok.mp h
    rfl
  | acceptHoldingCap admin =>
    obtain ⟨-, proposed, hpending, rfl⟩ := acceptCap_ok.mp h
    rw [Call.emitted, hpending]
    rfl
  | cancelHoldingCapProposal admin =>
    obtain ⟨-, -, rfl⟩ := cancelCapProposal_ok.mp h
    exact (List.append_nil env.events).symm
  | proposeConfig admin proposedConfig =>
    obtain ⟨-, -, -, rfl⟩ := proposeConfig_ok.mp h
    rfl
  | acceptConfig admin =>
    obtain ⟨-, pending, hpending, rfl⟩ := acceptConfig_ok.mp h
    rw [Call.emitted, hpending]
    rfl
  | cancelConfigProposal admin =>
    obtain ⟨-, -, rfl⟩ := cancelConfigProposal_ok.mp h
    exact (List.append_nil env.events).symm
  | setIssuerSeparationPolicy admin policy =>
    obtain ⟨-, rfl⟩ := setIssuerSeparationPolicy_ok.mp h
    rfl

/-- The events of a run are those of its committed calls, in their order. -/
theorem events_of_run (is : List (Signed Address)) (env : Env Address) :
    (run Call.body is env).events =
      env.events++(trace Call.body is env).flatMap fun t => t.via.call.emitted t.pre.ledger := by
  induction is generalizing env with
  | nil => simp [run, trace]
  | cons i is ih =>
    rw [run, ih]
    rcases settle_cases Call.body env i with ⟨hc, htrace⟩ | ⟨hstay, htrace⟩
    · rw [htrace, commits_emit hc, List.flatMap_cons, List.append_assoc]
    · rw [htrace, hstay]

end Aegis
