import Aegis.Movement

/-!
# Authorisation frame

One table says, key by key, what the signer of a call must have been for the
call to change that key. Three mechanisms enforce it: the comparison with
the admin key, the role check the admin bypasses, and the compliance
authority guard.
-/

set_option autoImplicit false

namespace Aegis
open HostKit

variable {Address : Type}

/-- The entitlement to a key, read on the ledger before the call. The ledger
after it tells a pause from an unpause, and shows the candidate cleared. -/
def Entitled (call : Call Address) (l l' : Ledger Address) : DataKey Address → Prop
  | .totalSupply => ActsAs call.signer (· = .assetManager) l
  | .balance a => (getBalanceOf a l').val < (getBalanceOf a l).val → call.signer = a
  | .complianceStatus u | .whitelist u | .complianceApprover u =>
    MayClear call.signer (getComplianceStatus u l) l
  | .paused =>
    (isPaused l' = true → ActsAs call.signer (· = .emergencyOfficer) l) ∧
      (isPaused l' = false → IsAdmin call.signer l)
  | .assetName | .assetSymbol | .assetMetadataUri => ActsAs call.signer (· = .assetManager) l
  | .assetStatus | .cap _ | .capCandidate _ | .protocolConfig | .protocolConfigCandidate
  | .issuerSeparationPolicy => IsAdmin call.signer l
  | .adminCandidate =>
    IsAdmin call.signer l ∨
      call = .acceptAdmin call.signer ∧ l.get .adminCandidate = some call.signer ∧
        l'.get .adminCandidate = none
  | .admin | .role _ =>
    IsAdmin call.signer l ∨
      call = .initializeContract call.signer ∧ l.get .admin = none ∨
      call = .acceptAdmin call.signer ∧ l.get .adminCandidate = some call.signer ∧
        l'.get .adminCandidate = none

/-- The admin is entitled to every key but the balances. -/
theorem Entitled.of_admin {call : Call Address} {l l' : Ledger Address} {k : DataKey Address}
    (h : IsAdmin call.signer l) (hk : ∀ a, k ≠ .balance a) : Entitled call l l' k := by
  cases k with
  | balance a => exact absurd rfl (hk a)
  | paused => exact ⟨fun _ => ⟨call.signer,h,Or.inl rfl⟩,fun _ => h⟩
  | admin | role _ | adminCandidate => exact Or.inl h
  | assetStatus | cap _ | capCandidate _ | protocolConfig => exact h
  | protocolConfigCandidate | issuerSeparationPolicy => exact h
  | _ => exact ⟨call.signer,h,Or.inl rfl⟩

/-- Whoever may change one user's status may change all that records it. -/
theorem Entitled.of_statusKeys {call : Call Address} {l l' : Ledger Address} {user : Address}
    {k : DataKey Address} (h : MayClear call.signer (getComplianceStatus user l) l)
    (hk : k ∈ statusKeys user) : Entitled call l l' k := by
  rcases hk with rfl | rfl | rfl
  · exact h
  · exact h
  · exact h

variable [DecidableEq Address] {env env' : Env Address} {i : Signed Address}

theorem debited_by_signer (h : Commits Call.body env i env') {a : Address}
    (hlt : (getBalanceOf a env'.ledger).val < (getBalanceOf a env.ledger).val) :
    i.call.signer = a := by
  have hheld : (bookOf env'.ledger).holding a < (bookOf env.ledger).holding a := hlt
  obtain ⟨e, he, hadmissible, hpost⟩ := posted_of_changed (fun b => b.holding a) h hheld.ne
  rw [hpost] at hheld
  obtain ⟨recipient, n, rfl, -⟩ := Book.debited hadmissible hheld
  revert he
  cases i.call <;> simp [Call.entry, Call.signer]
  intro hs _ _
  exact hs

theorem changed_entitled (h : Commits Call.body env i env') {k : DataKey Address}
    (hk : k ∈ i.call.writes env.ledger) (hb : ∀ a, k ≠ .balance a) :
    Entitled i.call env.ledger env'.ledger k := by
  obtain ⟨auth, c⟩ := i
  cases c with
  | initializeContract admin =>
    have hnone := (initializeContract_ok.mp h).1
    rcases hk with rfl | rfl <;> exact Or.inr (Or.inl ⟨rfl,hnone⟩)
  | setRole admin target role => exact Entitled.of_admin (setRole_ok.mp h).1.2.2 hb
  | removeRole admin target => exact Entitled.of_admin (removeRole_ok.mp h).1.2.2 hb
  | transferAdmin admin candidate => exact Entitled.of_admin (transferAdmin_ok.mp h).1.2.2 hb
  | acceptAdmin candidate =>
    obtain ⟨-, -, hstored, previous, hadmin, rfl⟩ := acceptAdmin_ok.mp h
    have hcleared : ((((env.ledger.remove .adminCandidate).set .admin candidate).set
        (.role previous) .none).set (.role candidate) .admin).get .adminCandidate = none := by
      simp
    rcases hk with (rfl | rfl | rfl) | ⟨p, -, rfl⟩
    · exact Or.inr ⟨rfl,hstored,hcleared⟩
    · exact Or.inr (Or.inr ⟨rfl,hstored,hcleared⟩)
    · exact Or.inr (Or.inr ⟨rfl,hstored,hcleared⟩)
    · exact Or.inr (Or.inr ⟨rfl,hstored,hcleared⟩)
  | renounceAdmin admin => exact Entitled.of_admin (renounceAdmin_ok.mp h).1.2.2 hb
  | pause caller =>
    obtain ⟨-, hacts, -, rfl⟩ := pause_ok.mp h
    rw [show k = .paused from hk]
    exact ⟨fun _ => hacts,fun hrunning => by simp [isPaused] at hrunning⟩
  | unpause caller => exact Entitled.of_admin (unpause_ok.mp h).2.1 hb
  | setComplianceStatus caller user newStatus =>
    have hallowed := (setComplianceStatus_ok.mp h).2.1
    exact Entitled.of_statusKeys (evaluateTransition_allowed.mp hallowed).2.1 hk
  | batchSetComplianceStatus caller updates =>
    obtain ⟨update, hmem, hkey⟩ := hk
    have hallowed := (batch_commits.mp h).2.2.1.2 update hmem
    exact Entitled.of_statusKeys (evaluateTransition_allowed.mp hallowed).2.1 hkey
  | whitelistUser admin user => exact Entitled.of_statusKeys (whitelistUser_ok.mp h).2.2.1 hk
  | revokeWhitelist admin user => exact Entitled.of_statusKeys (revokeWhitelist_ok.mp h).2.2.1 hk
  | setAssetStatus admin newStatus => exact Entitled.of_admin (setAssetStatus_ok.mp h).2.2.1 hb
  | updateAssetMetadata caller name symbol uri =>
    have hacts := (updateAssetMetadata_ok.mp h).2.2.1
    rcases hk with rfl | rfl | rfl <;> exact hacts
  | mintAsset admin recipient amount =>
    rcases hk with rfl | rfl
    · exact absurd rfl (hb recipient)
    · exact (mintAsset_ok.mp h).2.1.manages
  | transfer sender recipient amount =>
    rcases hk with rfl | rfl
    · exact absurd rfl (hb sender)
    · exact absurd rfl (hb recipient)
  | distributeYield admin amount => exact absurd hk (Set.notMem_empty k)
  | proposeSupplyCap admin proposedCap => exact Entitled.of_admin (proposeCap_ok.mp h).1.2.2 hb
  | acceptSupplyCap admin => exact Entitled.of_admin (acceptCap_ok.mp h).1.2.2 hb
  | cancelSupplyCapProposal admin =>
    exact Entitled.of_admin (cancelCapProposal_ok.mp h).1.2.2 hb
  | proposeHoldingCap admin proposedCap => exact Entitled.of_admin (proposeCap_ok.mp h).1.2.2 hb
  | acceptHoldingCap admin => exact Entitled.of_admin (acceptCap_ok.mp h).1.2.2 hb
  | cancelHoldingCapProposal admin =>
    exact Entitled.of_admin (cancelCapProposal_ok.mp h).1.2.2 hb
  | proposeConfig admin proposedConfig =>
    exact Entitled.of_admin (proposeConfig_ok.mp h).1.2.2 hb
  | acceptConfig admin => exact Entitled.of_admin (acceptConfig_ok.mp h).1.2.2 hb
  | cancelConfigProposal admin => exact Entitled.of_admin (cancelConfigProposal_ok.mp h).1.2.2 hb
  | setIssuerSeparationPolicy admin policy =>
    exact Entitled.of_admin (setIssuerSeparationPolicy_ok.mp h).1.2.2 hb

theorem authorization_frame (h : Commits Call.body env i env') :
    i.context i.call.signer = true ∧
      ∀ k, env'.ledger.get k ≠ env.ledger.get k → Entitled i.call env.ledger env'.ledger k := by
  refine ⟨signer_authorised h,fun k hk => ?_⟩
  by_cases hb : ∃ a, k = .balance a
  · obtain ⟨a, rfl⟩ := hb
    exact debited_by_signer h
  · exact changed_entitled h ((commits_frame h).mem_of_changed hk) (not_exists.mp hb)

theorem authorization_frame_pause :
    Entitled (.pause 0) deployed.ledger
      (settle Call.body deployed ⟨fun a => a = 0,.pause 0⟩).ledger .paused := by
  have hc : Commits Call.body deployed ⟨fun a => a = 0,.pause 0⟩
      (settle Call.body deployed ⟨fun a => a = 0,.pause 0⟩) := rfl
  exact (authorization_frame hc).2 .paused (by decide)

end Aegis
