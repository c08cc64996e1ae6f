import Aegis.ComplianceBatch
import Aegis.Emission
import Aegis.HostKit.Journal
import Aegis.Independence
import Aegis.MintPreflight
import Aegis.TransferPreflight

/-!
# The event log as a specification

What an auditor knows of the contract is its event log. Here a log is read
with nothing but the events before each one: who may publish an event, when,
and what it does to the ledger. The logs that pass are exactly the logs of
runs, and what they lead to is the ledger, up to the proposals that were
withdrawn, since a cancellation publishes nothing.
-/

set_option autoImplicit false

namespace Aegis
open HostKit

variable {Address : Type}

/-- A governing act needs the admin and a running contract. -/
def Presides (admin : Address) (l : Ledger Address) : Prop :=
  isPaused l = false ∧ IsAdmin admin l

/-- The sum or the difference, where it is a value. -/
def plus (a b : I128) : I128 := (a.checkedAdd b).getD 0
def minus (a b : I128) : I128 := (a.checkedSub b).getD 0

theorem plus_eq {a b c : I128} (h : a.val+b.val = c.val) : plus a b = c := by
  rw [plus, CheckedInt.checkedAdd_eq_some.mpr h, Option.getD_some]

theorem minus_eq {a b c : I128} (h : a.val-b.val = c.val) : minus a b = c := by
  rw [minus, CheckedInt.checkedSub_eq_some.mpr h, Option.getD_some]

variable [DecidableEq Address]

/-! ## What an event may follow, and what it does -/

/-- Whether the ledger the earlier events lead to warrants the event: its
author had the authority, its recorded values are true, and the step is one
the contract provides for. -/
def Event.Warranted : Event Address → Ledger Address → Prop
  | .contractInitialized _, l => l.get .admin = none
  | .roleAssigned admin _ role, l => Presides admin l ∧ role ≠ .admin
  | .roleRevoked admin target role, l =>
    Presides admin l ∧ role = getRole target l ∧ role ≠ .none
  | .adminTransferInitiated currentAdmin _, l => Presides currentAdmin l
  | .adminTransferred previousAdmin newAdmin, l =>
    Presides previousAdmin l ∧ l.get .adminCandidate = some newAdmin
  | .adminRenounced previousAdmin newAdmin, l => Presides previousAdmin l ∧ newAdmin = previousAdmin
  | .contractPaused caller, l => isPaused l = false ∧ ActsAs caller (· = .emergencyOfficer) l
  | .contractUnpaused caller, l => isPaused l = true ∧ IsAdmin caller l
  | .userWhitelisted caller user, l =>
    isPaused l = false ∧ MayClear caller (getComplianceStatus user l) l ∧
      getComplianceStatus user l = .approved
  | .whitelistRevoked caller user, l =>
    isPaused l = false ∧ MayClear caller (getComplianceStatus user l) l ∧
      transitionIsAllowed (getComplianceStatus user l) .revoked = false
  | .complianceStatusChanged caller user previousStatus newStatus, l =>
    previousStatus = getComplianceStatus user l ∧
      evaluateTransition caller user newStatus l = .allowed
  | .assetMinted caller recipient amount totalSupply, l =>
    Mintable caller recipient amount l ∧ (getTotalSupply l).val+amount.val = totalSupply.val
  | .transfer sender recipient amount, l => Transferable sender recipient amount l
  | .yieldDistributed caller amount, l =>
    isPaused l = false ∧ ActsAs caller (· = .assetManager) l ∧
      evaluateIssuance caller none l = .allowed ∧ 0 < amount.val
  | .assetMetadataUpdated caller _ _ _, l =>
    isPaused l = false ∧ ActsAs caller (· = .assetManager) l ∧ getAssetStatus l ≠ .retired ∧
      getAssetStatus l ≠ .blocked
  | .assetStatusChanged admin previousStatus newStatus, l =>
    IsAdmin admin l ∧ previousStatus = getAssetStatus l ∧
      isValidTransition previousStatus newStatus = true ∧
      (newStatus = .active → isPaused l = false)
  | .capProposed kind admin currentCap proposedCap, l =>
    Presides admin l ∧ currentCap = getCap kind l ∧ 0 ≤ proposedCap.val ∧ proposedCap ≠ currentCap
  | .capAmended kind admin previousCap newCap, l =>
    Presides admin l ∧ previousCap = getCap kind l ∧ l.get (.capCandidate kind) = some newCap
  | .configProposed admin proposedConfig, l =>
    Presides admin l ∧ 0 ≤ proposedConfig.minTransferAmount.val ∧ proposedConfig.maxBatchSize ≠ 0
  | .configAmended admin newConfig, l =>
    Presides admin l ∧ l.get .protocolConfigCandidate = some newConfig
  | .issuerSeparationPolicyUpdated admin previousPolicy _, l =>
    Presides admin l ∧ previousPolicy = getPolicy l

/-- The writes an event stands for. -/
def Event.enact : Event Address → Ledger Address → Ledger Address
  | .contractInitialized admin, l => (l.set .admin admin).set (.role admin) .admin
  | .roleAssigned _ target role, l => l.set (.role target) role
  | .roleRevoked _ target _, l => l.set (.role target) .none
  | .adminTransferInitiated _ candidate, l => l.set .adminCandidate candidate
  | .adminTransferred previousAdmin newAdmin, l =>
    (((l.remove .adminCandidate).set .admin newAdmin).set (.role previousAdmin) .none).set
      (.role newAdmin) .admin
  | .adminRenounced previousAdmin _, l => (l.remove .admin).set (.role previousAdmin) .none
  | .contractPaused _, l => l.set .paused true
  | .contractUnpaused _, l => l.set .paused false
  | .complianceStatusChanged caller user _ newStatus, l => withStatus caller user newStatus l
  | .assetMinted _ recipient amount totalSupply, l =>
    (l.set (.balance recipient) (plus (getBalanceOf recipient l) amount)).set .totalSupply
      totalSupply
  | .transfer sender recipient amount, l =>
    let debited := l.set (.balance sender) (minus (getBalanceOf sender l) amount)
    debited.set (.balance recipient) (plus (getBalanceOf recipient debited) amount)
  | .assetMetadataUpdated _ name symbol uri, l =>
    ((l.set .assetName name).set .assetSymbol symbol).set .assetMetadataUri uri
  | .assetStatusChanged _ _ newStatus, l => l.set .assetStatus newStatus
  | .capProposed kind _ _ proposedCap, l => l.set (.capCandidate kind) proposedCap
  | .capAmended kind _ _ newCap, l => (l.remove (.capCandidate kind)).set (.cap kind) newCap
  | .configProposed _ proposedConfig, l => l.set .protocolConfigCandidate proposedConfig
  | .configAmended _ newConfig, l =>
    (l.remove .protocolConfigCandidate).set .protocolConfig newConfig
  | .issuerSeparationPolicyUpdated _ _ newPolicy, l => l.set .issuerSeparationPolicy newPolicy
  | .userWhitelisted _ _, l | .whitelistRevoked _ _, l | .yieldDistributed _ _, l => l

def audit : Machine (Event Address) (Ledger Address) := ⟨Event.Warranted,Event.enact⟩

/-- The ledger a log leads to. -/
def audited (events : List (Event Address)) : Ledger Address := audit.replay events Store.empty

variable {env env' : Env Address} {i : Signed Address} {l : Ledger Address}
  {caller user : Address}

/-! ## Every call publishes what is warranted -/

/-- A withdrawn proposal leaves no event. -/
def Call.cancels : Call Address → Bool
  | .cancelSupplyCapProposal _ | .cancelHoldingCapProposal _ | .cancelConfigProposal _ => true
  | _ => false

/-- Whoever moved a user along an edge may act on where it led, unless that is
quarantine. -/
theorem mayClear_moved {status : ComplianceStatus} (hne : status ≠ .blocked)
    (h : MayClear caller (getComplianceStatus user l) l) :
    MayClear caller status (withStatus caller user status l) := by
  have hframe := withStatus_frame caller user status l
  obtain ⟨admin, hadmin, hacts⟩ := h
  refine ⟨admin,?_,hacts.imp id fun hrole => ⟨?_,hne⟩⟩
  · rw [IsAdmin, hframe .admin (by simp [statusKeys])]
    exact hadmin
  · rw [getRole, hframe (.role caller) (by simp [statusKeys])]
    exact hrole.1

theorem running_moved {status : ComplianceStatus} (h : isPaused l = false) :
    isPaused (withStatus caller user status l) = false := by
  rw [isPaused, withStatus_frame caller user status l .paused (by simp [statusKeys])]
  exact h

theorem leads_changed {status : ComplianceStatus}
    (h : evaluateTransition caller user status l = .allowed) :
    audit.Leads [.complianceStatusChanged caller user (getComplianceStatus user l) status] l
      (withStatus caller user status l) :=
  Machine.leads_single (m := audit) ⟨rfl,h⟩

/-- Each entry of a batch is warranted where the earlier ones lead. -/
theorem leads_batch {updates : List (ComplianceBatchUpdate Address)}
    (h : ValidUpdates caller updates l) :
    audit.Leads (updates.map fun update => .complianceStatusChanged caller update.user
        (getComplianceStatus update.user l) update.newStatus) l
      (withUpdates caller updates l) := by
  induction updates generalizing l with
  | nil => exact Machine.leads_nil l
  | cons first rest ih =>
    obtain ⟨hnodup, hallowed⟩ := h
    rw [List.map_cons, List.nodup_cons] at hnodup
    rw [List.forall_mem_cons] at hallowed
    have hne : ∀ update ∈ rest, update.user ≠ first.user := by
      intro update hmem huser
      exact hnodup.1 (List.mem_map.mpr ⟨update,hmem,huser⟩)
    have hrest : ValidUpdates caller rest (withStatus caller first.user first.newStatus l) := by
      refine ⟨hnodup.2,fun update hmem => ?_⟩
      rw [evaluateTransition_withStatus _ _ (hne update hmem)]
      exact hallowed.2 update hmem
    have hcaptured : ∀ update ∈ rest,
        getComplianceStatus update.user (withStatus caller first.user first.newStatus l) =
          getComplianceStatus update.user l := by
      intro update hmem
      rw [getComplianceStatus_withStatus, if_neg (hne update hmem)]
    have hlater := ih hrest
    rw [List.map_congr_left fun update hmem => by rw [hcaptured update hmem]] at hlater
    exact (leads_changed hallowed.1).append hlater

theorem leads_minted {recipient : Address} {amount balance supply : I128}
    (h : Mintable caller recipient amount l)
    (hbalance : (getBalanceOf recipient l).val+amount.val = balance.val)
    (hsupply : (getTotalSupply l).val+amount.val = supply.val) :
    audit.Leads [.assetMinted caller recipient amount supply] l
      ((l.set (.balance recipient) balance).set .totalSupply supply) := by
  rw [← plus_eq hbalance]
  exact Machine.leads_single (m := audit) ⟨h,hsupply⟩

theorem leads_transferred {sender recipient : Address} {amount debited credited : I128}
    (h : Transferable sender recipient amount l)
    (hdebit : (getBalanceOf sender l).val-amount.val = debited.val)
    (hcredit : (getBalanceOf recipient (l.set (.balance sender) debited)).val+amount.val =
      credited.val) :
    audit.Leads [.transfer sender recipient amount] l
      ((l.set (.balance sender) debited).set (.balance recipient) credited) := by
  rw [← plus_eq hcredit, ← minus_eq hdebit]
  exact Machine.leads_single (m := audit) h

theorem leads_whitelisted (hrun : isPaused l = false)
    (hclear : MayClear caller (getComplianceStatus user l) l)
    (hedge : transitionIsAllowed (getComplianceStatus user l) .approved = true) :
    audit.Leads [.complianceStatusChanged caller user (getComplianceStatus user l) .approved,
        .userWhitelisted caller user] l (withStatus caller user .approved l) := by
  have hreached : getComplianceStatus user (withStatus caller user .approved l) = .approved := by
    rw [getComplianceStatus_withStatus, if_pos rfl]
  have hlast : audit.Leads [.userWhitelisted caller user] (withStatus caller user .approved l)
      (withStatus caller user .approved l) := by
    apply Machine.leads_single (m := audit)
    refine ⟨running_moved hrun,?_,hreached⟩
    rw [hreached]
    exact mayClear_moved nofun hclear
  exact (leads_changed (evaluateTransition_allowed.mpr ⟨hrun,hclear,hedge⟩)).append hlast

theorem leads_revoked (hrun : isPaused l = false)
    (hclear : MayClear caller (getComplianceStatus user l) l)
    (hedge : transitionIsAllowed (getComplianceStatus user l) .revoked = true) :
    audit.Leads [.complianceStatusChanged caller user (getComplianceStatus user l) .revoked,
        .whitelistRevoked caller user] l (withStatus caller user .revoked l) := by
  have hreached : getComplianceStatus user (withStatus caller user .revoked l) = .revoked := by
    rw [getComplianceStatus_withStatus, if_pos rfl]
  have hlast : audit.Leads [.whitelistRevoked caller user] (withStatus caller user .revoked l)
      (withStatus caller user .revoked l) := by
    apply Machine.leads_single (m := audit)
    refine ⟨running_moved hrun,?_,?_⟩
    · rw [hreached]
      exact mayClear_moved nofun hclear
    · rw [hreached]
      rfl
  exact (leads_changed (evaluateTransition_allowed.mpr ⟨hrun,hclear,hedge⟩)).append hlast

/-- The events of a call are warranted one after another and make its writes. -/
theorem commits_audited (h : Commits Call.body env i env') (hkeeps : i.call.cancels = false) :
    audit.Leads (i.call.emitted env.ledger) env.ledger env'.ledger := by
  obtain ⟨auth, c⟩ := i
  cases c with
  | initializeContract admin =>
    obtain ⟨hnone, -, rfl⟩ := initializeContract_ok.mp h
    exact Machine.leads_single (m := audit) hnone
  | setRole admin target role =>
    obtain ⟨⟨hrun, -, hadmin⟩, hrole, rfl⟩ := setRole_ok.mp h
    exact Machine.leads_single (m := audit) ⟨⟨hrun,hadmin⟩,hrole⟩
  | removeRole admin target =>
    obtain ⟨⟨hrun, -, hadmin⟩, hrole, rfl⟩ := removeRole_ok.mp h
    exact Machine.leads_single (m := audit) ⟨⟨hrun,hadmin⟩,rfl,hrole⟩
  | transferAdmin admin candidate =>
    obtain ⟨⟨hrun, -, hadmin⟩, rfl⟩ := transferAdmin_ok.mp h
    exact Machine.leads_single (m := audit) ⟨hrun,hadmin⟩
  | acceptAdmin candidate =>
    obtain ⟨hrun, -, hcandidate, previous, hadmin, rfl⟩ := acceptAdmin_ok.mp h
    rw [Call.emitted, show env.ledger.get .admin = some previous from hadmin]
    exact Machine.leads_single (m := audit) ⟨⟨hrun,hadmin⟩,hcandidate⟩
  | renounceAdmin admin =>
    obtain ⟨⟨hrun, -, hadmin⟩, rfl⟩ := renounceAdmin_ok.mp h
    exact Machine.leads_single (m := audit) ⟨⟨hrun,hadmin⟩,rfl⟩
  | pause caller =>
    obtain ⟨-, hacts, hrun, rfl⟩ := pause_ok.mp h
    exact Machine.leads_single (m := audit) ⟨hrun,hacts⟩
  | unpause caller =>
    obtain ⟨-, hadmin, hpaused, rfl⟩ := unpause_ok.mp h
    exact Machine.leads_single (m := audit) ⟨hpaused,hadmin⟩
  | setComplianceStatus caller user newStatus =>
    obtain ⟨-, hallowed, rfl⟩ := setComplianceStatus_ok.mp h
    exact leads_changed hallowed
  | batchSetComplianceStatus caller updates =>
    obtain ⟨-, -, hvalid, rfl⟩ := batch_commits.mp h
    exact leads_batch hvalid
  | whitelistUser admin user =>
    obtain ⟨hrun, -, hclear, ⟨happroved, rfl⟩ | ⟨hedge, rfl⟩⟩ := whitelistUser_ok.mp h
    · rw [Call.emitted, if_pos happroved]
      exact Machine.leads_single (m := audit) ⟨hrun,hclear,happroved⟩
    · have hne : getComplianceStatus user env.ledger ≠ .approved := by
        intro happroved
        rw [happroved] at hedge
        cases hedge
      rw [Call.emitted, if_neg hne]
      exact leads_whitelisted hrun hclear hedge
  | revokeWhitelist admin user =>
    obtain ⟨hrun, -, hclear, ⟨hedge, rfl⟩ | ⟨hedge, rfl⟩⟩ := revokeWhitelist_ok.mp h
    · rw [Call.emitted, hedge]
      exact Machine.leads_single (m := audit) ⟨hrun,hclear,hedge⟩
    · rw [Call.emitted, if_pos hedge]
      exact leads_revoked hrun hclear hedge
  | setAssetStatus admin newStatus =>
    obtain ⟨hopen, -, hadmin, hedge, rfl⟩ := setAssetStatus_ok.mp h
    exact Machine.leads_single (m := audit) ⟨hadmin,rfl,hedge,hopen⟩
  | updateAssetMetadata caller name symbol uri =>
    obtain ⟨hrun, -, hacts, hretired, hblocked, rfl⟩ := updateAssetMetadata_ok.mp h
    exact Machine.leads_single (m := audit) ⟨hrun,hacts,hretired,hblocked⟩
  | mintAsset admin recipient amount =>
    obtain ⟨-, hmintable, balance, supply, hbalance, hsupply, rfl⟩ := mintAsset_ok.mp h
    rw [Call.emitted, CheckedInt.checkedAdd_eq_some.mpr hsupply]
    exact leads_minted hmintable hbalance hsupply
  | transfer sender recipient amount =>
    obtain ⟨-, hmovable, debited, credited, hdebit, hcredit, rfl⟩ := transfer_ok.mp h
    exact leads_transferred hmovable hdebit hcredit
  | distributeYield admin amount =>
    obtain ⟨hrun, -, hacts, hseparated, hpos, rfl⟩ := distributeYield_ok.mp h
    exact Machine.leads_single (m := audit) ⟨hrun,hacts,hseparated,hpos⟩
  | proposeSupplyCap admin proposedCap | proposeHoldingCap admin proposedCap =>
    obtain ⟨⟨hrun, -, hadmin⟩, hsign, hne, rfl⟩ := proposeCap_ok.mp h
    exact Machine.leads_single (m := audit) ⟨⟨hrun,hadmin⟩,rfl,hsign,hne⟩
  | acceptSupplyCap admin | acceptHoldingCap admin =>
    obtain ⟨⟨hrun, -, hadmin⟩, proposed, hpending, rfl⟩ := acceptCap_ok.mp h
    rw [Call.emitted, hpending]
    exact Machine.leads_single (m := audit) ⟨⟨hrun,hadmin⟩,rfl,hpending⟩
  | proposeConfig admin proposedConfig =>
    obtain ⟨⟨hrun, -, hadmin⟩, hsign, hsize, rfl⟩ := proposeConfig_ok.mp h
    exact Machine.leads_single (m := audit) ⟨⟨hrun,hadmin⟩,hsign,hsize⟩
  | acceptConfig admin =>
    obtain ⟨⟨hrun, -, hadmin⟩, pending, hpending, rfl⟩ := acceptConfig_ok.mp h
    rw [Call.emitted, hpending]
    exact Machine.leads_single (m := audit) ⟨⟨hrun,hadmin⟩,hpending⟩
  | setIssuerSeparationPolicy admin policy =>
    obtain ⟨⟨hrun, -, hadmin⟩, rfl⟩ := setIssuerSeparationPolicy_ok.mp h
    exact Machine.leads_single (m := audit) ⟨⟨hrun,hadmin⟩,rfl⟩
  | cancelSupplyCapProposal | cancelHoldingCapProposal | cancelConfigProposal => cases hkeeps

/-! ## Withdrawn proposals -/

omit [DecidableEq Address] in
def pendingKeys : Set (DataKey Address) :=
  {k | (∃ kind, k = .capCandidate kind) ∨ k = .protocolConfigCandidate}

/-- A ledger and the one its log leads to, where proposals may have been
withdrawn. -/
def Shadows (w l : Ledger Address) : Prop :=
  ∀ k, l.get k = w.get k ∨ k ∈ pendingKeys ∧ l.get k = none

omit [DecidableEq Address] in
theorem Shadows.get_eq {w : Ledger Address} {k : DataKey Address} (h : Shadows w l)
    (hk : k ∉ pendingKeys) : l.get k = w.get k :=
  (h k).resolve_right fun hpending => hk hpending.1

/-- A call that withdraws nothing commits only if the proposal it reads is there. -/
theorem pending_present (h : Commits Call.body env i env') (hkeeps : i.call.cancels = false)
    {k : DataKey Address} (hread : k ∈ i.call.reads) (hk : k ∈ pendingKeys) :
    env.ledger.get k ≠ none := by
  obtain ⟨auth, c⟩ := i
  have haccepted : (c = .acceptSupplyCap c.signer ∧ k = .supplyCapCandidate) ∨
      (c = .acceptHoldingCap c.signer ∧ k = .holdingCapCandidate) ∨
      c = .acceptConfig c.signer ∧ k = .protocolConfigCandidate := by
    rcases hk with ⟨kind, rfl⟩ | rfl <;> cases c <;> cases hkeeps <;>
      simp_all [Call.reads, Call.signer]
  rcases haccepted with ⟨hcall, rfl⟩ | ⟨hcall, rfl⟩ | ⟨hcall, rfl⟩
  · rw [hcall] at h
    obtain ⟨-, proposed, hpending, -⟩ := acceptCap_ok.mp h
    simp [hpending]
  · rw [hcall] at h
    obtain ⟨-, proposed, hpending, -⟩ := acceptCap_ok.mp h
    simp [hpending]
  · rw [hcall] at h
    obtain ⟨-, pending, hpending, -⟩ := acceptConfig_ok.mp h
    simp [hpending]

/-- Whatever a call writes under a pending key does not depend on the ledger. -/
theorem pending_written {env₁ env₂ : Env Address} (h : Commits Call.body env i env')
    (h' : Commits Call.body env₁ i env₂) {k : DataKey Address}
    (hwrite : k ∈ i.call.writes env.ledger) (hk : k ∈ pendingKeys) :
    env'.ledger.get k = env₂.ledger.get k := by
  obtain ⟨auth, c⟩ := i
  cases c with
  | proposeSupplyCap admin proposedCap | proposeHoldingCap admin proposedCap =>
    obtain ⟨-, -, -, rfl⟩ := proposeCap_ok.mp h
    obtain ⟨-, -, -, rfl⟩ := proposeCap_ok.mp h'
    cases hwrite
    simp
  | acceptSupplyCap admin | acceptHoldingCap admin =>
    obtain ⟨-, proposed, -, rfl⟩ := acceptCap_ok.mp h
    obtain ⟨-, proposed', -, rfl⟩ := acceptCap_ok.mp h'
    rcases hwrite with rfl | rfl
    · simp
    · simp [pendingKeys] at hk
  | cancelSupplyCapProposal admin | cancelHoldingCapProposal admin =>
    obtain ⟨-, -, rfl⟩ := cancelCapProposal_ok.mp h
    obtain ⟨-, -, rfl⟩ := cancelCapProposal_ok.mp h'
    cases hwrite
    simp
  | proposeConfig admin proposedConfig =>
    obtain ⟨-, -, -, rfl⟩ := proposeConfig_ok.mp h
    obtain ⟨-, -, -, rfl⟩ := proposeConfig_ok.mp h'
    cases hwrite
    simp
  | acceptConfig admin =>
    obtain ⟨-, pending, -, rfl⟩ := acceptConfig_ok.mp h
    obtain ⟨-, pending', -, rfl⟩ := acceptConfig_ok.mp h'
    rcases hwrite with rfl | rfl
    · simp
    · simp [pendingKeys] at hk
  | cancelConfigProposal admin =>
    obtain ⟨-, -, rfl⟩ := cancelConfigProposal_ok.mp h
    obtain ⟨-, -, rfl⟩ := cancelConfigProposal_ok.mp h'
    cases hwrite
    simp
  | _ => rcases hk with ⟨kind, rfl⟩ | rfl <;> simp [Call.writes, statusKeys] at hwrite

/-- A call that withdraws nothing does the same on the shadow. -/
theorem Shadows.commits {w : Ledger Address} (h : Shadows w env.ledger)
    (log : List (Event Address)) (hc : Commits Call.body env i env')
    (hkeeps : i.call.cancels = false) :
    ∃ v, Commits Call.body ⟨w,log⟩ i v ∧ i.call.emitted w = i.call.emitted env.ledger ∧
      Shadows v.ledger env'.ledger := by
  have hreads : i.call.reads ⊆ {k | env.ledger.get k = w.get k} := by
    intro k hk
    rcases h k with hsame | ⟨hpending, hnone⟩
    · exact hsame
    · exact absurd hnone (pending_present hc hkeeps hk hpending)
  have halike : Alike {k | env.ledger.get k = w.get k} env.events log env ⟨w,log⟩ :=
    ⟨fun _ hk => hk,[],(List.append_nil _).symm,(List.append_nil _).symm⟩
  obtain ⟨v, hv, hledger, es, hlog, hlog'⟩ := hc.respected (body_decided hreads _ _) halike
  refine ⟨v,hv,?_,fun k => ?_⟩
  · rw [commits_emit hc] at hlog
    rw [commits_emit hv] at hlog'
    rw [List.append_cancel_left hlog, ← List.append_cancel_left hlog']
  · rcases h k with hsame | ⟨hpending, hnone⟩
    · exact Or.inl (hledger k hsame)
    · by_cases hwrite : k ∈ i.call.writes env.ledger
      · exact Or.inl (pending_written hc hv hwrite hpending)
      · right
        exact ⟨hpending,(commits_unchanged hc hwrite).trans hnone⟩

/-- A withdrawal shows neither in the log nor in the shadow. -/
theorem Shadows.cancelled {w : Ledger Address} (h : Shadows w env.ledger)
    (hc : Commits Call.body env i env') (hcancels : i.call.cancels = true) :
    env'.events = env.events ∧ Shadows w env'.ledger := by
  obtain ⟨auth, c⟩ := i
  have hremoved : ∀ j : DataKey Address, j ∈ pendingKeys → Shadows w (env.ledger.remove j) := by
    intro j hj k
    by_cases hk : k = j
    · subst hk
      exact Or.inr ⟨hj,Store.get_remove_self _ _⟩
    · rw [Store.get_remove_of_ne _ hk]
      exact h k
  cases c with
  | cancelSupplyCapProposal admin | cancelHoldingCapProposal admin =>
    obtain ⟨-, -, rfl⟩ := cancelCapProposal_ok.mp hc
    exact ⟨rfl,hremoved _ (Or.inl ⟨_,rfl⟩)⟩
  | cancelConfigProposal admin =>
    obtain ⟨-, -, rfl⟩ := cancelConfigProposal_ok.mp hc
    exact ⟨rfl,hremoved _ (Or.inr rfl)⟩
  | _ => cases hcancels

/-- What a run publishes is warranted from where it starts, and leads to the ledger. -/
theorem run_shadowed (is : List (Signed Address)) (env : Env Address) :
    ∃ es, (run Call.body is env).events = env.events++es ∧ audit.Accepts es env.ledger ∧
      Shadows (audit.replay es env.ledger) (run Call.body is env).ledger := by
  apply run_preserves (P := fun s : Env Address => ∃ es, s.events = env.events++es ∧
    audit.Accepts es env.ledger ∧ Shadows (audit.replay es env.ledger) s.ledger) _ is
  · exact ⟨[],(List.append_nil _).symm,trivial,fun _ => Or.inl rfl⟩
  · rintro s i t ⟨es, hlog, haccepts, hshadows⟩ hc
    cases hkeeps : i.call.cancels with
    | true =>
      obtain ⟨hsilent, hsame⟩ := hshadows.cancelled hc hkeeps
      exact ⟨es,hsilent.trans hlog,haccepts,hsame⟩
    | false =>
      obtain ⟨v, hv, hemitted, hsame⟩ := hshadows.commits s.events hc hkeeps
      obtain ⟨hwarranted, hleads⟩ := commits_audited hv hkeeps
      rw [hemitted] at hwarranted hleads
      refine ⟨es++i.call.emitted s.ledger,?_,?_,?_⟩
      · rw [commits_emit hc, hlog, List.append_assoc]
      · exact (Machine.accepts_append _ _ _).mpr ⟨haccepts,hwarranted⟩
      · rw [Machine.replay_append, ← hleads]
        exact hsame

/-- The log of a run passes, and the ledger is what it leads to. -/
theorem run_audited (is : List (Signed Address)) :
    audit.Accepts (run Call.body is Env.fresh).events Store.empty ∧
      Shadows (audited (run Call.body is Env.fresh).events)
        (run Call.body is Env.fresh).ledger := by
  obtain ⟨es, hlog, haudited⟩ := run_shadowed is Env.fresh
  rw [hlog]
  exact haudited

/-! ## Every warranted log is the log of a run -/

/-- The call that publishes an event and nothing else. -/
def Event.request : Event Address → Call Address
  | .contractInitialized admin => .initializeContract admin
  | .roleAssigned admin target role => .setRole admin target role
  | .roleRevoked admin target _ => .removeRole admin target
  | .adminTransferInitiated currentAdmin candidate => .transferAdmin currentAdmin candidate
  | .adminTransferred _ newAdmin => .acceptAdmin newAdmin
  | .adminRenounced previousAdmin _ => .renounceAdmin previousAdmin
  | .contractPaused caller => .pause caller
  | .contractUnpaused caller => .unpause caller
  | .userWhitelisted caller user => .whitelistUser caller user
  | .whitelistRevoked caller user => .revokeWhitelist caller user
  | .complianceStatusChanged caller user _ newStatus => .setComplianceStatus caller user newStatus
  | .assetMinted caller recipient amount _ => .mintAsset caller recipient amount
  | .transfer sender recipient amount => .transfer sender recipient amount
  | .yieldDistributed caller amount => .distributeYield caller amount
  | .assetMetadataUpdated caller name symbol uri => .updateAssetMetadata caller name symbol uri
  | .assetStatusChanged admin _ newStatus => .setAssetStatus admin newStatus
  | .capProposed .supply admin _ proposedCap => .proposeSupplyCap admin proposedCap
  | .capProposed .holding admin _ proposedCap => .proposeHoldingCap admin proposedCap
  | .capAmended .supply admin _ _ => .acceptSupplyCap admin
  | .capAmended .holding admin _ _ => .acceptHoldingCap admin
  | .configProposed admin proposedConfig => .proposeConfig admin proposedConfig
  | .configAmended admin _ => .acceptConfig admin
  | .issuerSeparationPolicyUpdated admin _ newPolicy => .setIssuerSeparationPolicy admin newPolicy

/-- What is warranted can be done, and is then all that is published. -/
theorem warranted_commits {e : Event Address} (hsound : (bookOf env.ledger).Sound)
    (h : e.Warranted env.ledger) :
    ∃ env', Commits Call.body env ⟨fun _ => true,e.request⟩ env' ∧
      e.request.emitted env.ledger = [e] := by
  cases e with
  | contractInitialized admin => exact ⟨_,initializeContract_ok.mpr ⟨h,rfl,rfl⟩,rfl⟩
  | roleAssigned admin target role =>
    obtain ⟨⟨hrun, hadmin⟩, hrole⟩ := h
    exact ⟨_,setRole_ok.mpr ⟨⟨hrun,rfl,hadmin⟩,hrole,rfl⟩,rfl⟩
  | roleRevoked admin target role =>
    obtain ⟨⟨hrun, hadmin⟩, rfl, hrole⟩ := h
    exact ⟨_,removeRole_ok.mpr ⟨⟨hrun,rfl,hadmin⟩,hrole,rfl⟩,rfl⟩
  | adminTransferInitiated currentAdmin candidate =>
    obtain ⟨hrun, hadmin⟩ := h
    exact ⟨_,transferAdmin_ok.mpr ⟨⟨hrun,rfl,hadmin⟩,rfl⟩,rfl⟩
  | adminTransferred previousAdmin newAdmin =>
    obtain ⟨⟨hrun, hadmin⟩, hcandidate⟩ := h
    refine ⟨_,acceptAdmin_ok.mpr ⟨hrun,rfl,hcandidate,previousAdmin,hadmin,rfl⟩,?_⟩
    rw [Event.request, Call.emitted, show env.ledger.get .admin = some previousAdmin from hadmin]
    rfl
  | adminRenounced previousAdmin newAdmin =>
    obtain ⟨⟨hrun, hadmin⟩, rfl⟩ := h
    exact ⟨_,renounceAdmin_ok.mpr ⟨⟨hrun,rfl,hadmin⟩,rfl⟩,rfl⟩
  | contractPaused caller =>
    obtain ⟨hrun, hacts⟩ := h
    exact ⟨_,pause_ok.mpr ⟨rfl,hacts,hrun,rfl⟩,rfl⟩
  | contractUnpaused caller =>
    obtain ⟨hpaused, hadmin⟩ := h
    exact ⟨_,unpause_ok.mpr ⟨rfl,hadmin,hpaused,rfl⟩,rfl⟩
  | userWhitelisted caller user =>
    obtain ⟨hrun, hclear, happroved⟩ := h
    refine ⟨_,whitelistUser_ok.mpr ⟨hrun,rfl,hclear,Or.inl ⟨happroved,rfl⟩⟩,?_⟩
    rw [Event.request, Call.emitted, if_pos happroved]
    rfl
  | whitelistRevoked caller user =>
    obtain ⟨hrun, hclear, hedge⟩ := h
    refine ⟨_,revokeWhitelist_ok.mpr ⟨hrun,rfl,hclear,Or.inl ⟨hedge,rfl⟩⟩,?_⟩
    rw [Event.request, Call.emitted, hedge]
    rfl
  | complianceStatusChanged caller user previousStatus newStatus =>
    obtain ⟨rfl, hallowed⟩ := h
    exact ⟨_,setComplianceStatus_ok.mpr ⟨rfl,hallowed,rfl⟩,rfl⟩
  | assetMinted caller recipient amount totalSupply =>
    obtain ⟨hmintable, hsupply⟩ := h
    have hroom := totalSupply.le_hi
    obtain ⟨env', hc⟩ : ∃ t, Commits Call.body env
        ⟨fun _ => true,.mintAsset caller recipient amount⟩ t :=
      (mint_commits_iff hsound rfl).mpr ⟨hmintable,hsupply.le.trans hroom⟩
    refine ⟨env',hc,?_⟩
    rw [Event.request, Call.emitted, CheckedInt.checkedAdd_eq_some.mpr hsupply]
    rfl
  | transfer sender recipient amount =>
    obtain ⟨env', hc⟩ : ∃ t, Commits Call.body env
        ⟨fun _ => true,.transfer sender recipient amount⟩ t :=
      (transfer_commits_iff hsound rfl).mpr h
    exact ⟨env',hc,rfl⟩
  | yieldDistributed caller amount =>
    obtain ⟨hrun, hacts, hseparated, hpos⟩ := h
    exact ⟨_,distributeYield_ok.mpr ⟨hrun,rfl,hacts,hseparated,hpos,rfl⟩,rfl⟩
  | assetMetadataUpdated caller name symbol uri =>
    obtain ⟨hrun, hacts, hretired, hblocked⟩ := h
    exact ⟨_,updateAssetMetadata_ok.mpr ⟨hrun,rfl,hacts,hretired,hblocked,rfl⟩,rfl⟩
  | assetStatusChanged admin previousStatus newStatus =>
    obtain ⟨hadmin, rfl, hedge, hopen⟩ := h
    exact ⟨_,setAssetStatus_ok.mpr ⟨hopen,rfl,hadmin,hedge,rfl⟩,rfl⟩
  | capProposed kind admin currentCap proposedCap =>
    obtain ⟨⟨hrun, hadmin⟩, rfl, hsign, hne⟩ := h
    have hgoverns : Governs (fun _ => true) admin env.ledger := ⟨hrun,rfl,hadmin⟩
    cases kind with
    | supply => exact ⟨_,proposeCap_ok.mpr ⟨hgoverns,hsign,hne,rfl⟩,rfl⟩
    | holding => exact ⟨_,proposeCap_ok.mpr ⟨hgoverns,hsign,hne,rfl⟩,rfl⟩
  | capAmended kind admin previousCap newCap =>
    obtain ⟨⟨hrun, hadmin⟩, rfl, hpending⟩ := h
    have hgoverns : Governs (fun _ => true) admin env.ledger := ⟨hrun,rfl,hadmin⟩
    cases kind with
    | supply =>
      refine ⟨_,acceptCap_ok.mpr ⟨hgoverns,newCap,hpending,rfl⟩,?_⟩
      rw [Event.request, Call.emitted, hpending]
      rfl
    | holding =>
      refine ⟨_,acceptCap_ok.mpr ⟨hgoverns,newCap,hpending,rfl⟩,?_⟩
      rw [Event.request, Call.emitted, hpending]
      rfl
  | configProposed admin proposedConfig =>
    obtain ⟨⟨hrun, hadmin⟩, hsign, hsize⟩ := h
    exact ⟨_,proposeConfig_ok.mpr ⟨⟨hrun,rfl,hadmin⟩,hsign,hsize,rfl⟩,rfl⟩
  | configAmended admin newConfig =>
    obtain ⟨⟨hrun, hadmin⟩, hpending⟩ := h
    refine ⟨_,acceptConfig_ok.mpr ⟨⟨hrun,rfl,hadmin⟩,newConfig,hpending,rfl⟩,?_⟩
    rw [Event.request, Call.emitted, hpending]
    rfl
  | issuerSeparationPolicyUpdated admin previousPolicy newPolicy =>
    obtain ⟨⟨hrun, hadmin⟩, rfl⟩ := h
    exact ⟨_,setIssuerSeparationPolicy_ok.mpr ⟨⟨hrun,rfl,hadmin⟩,rfl⟩,rfl⟩

omit [DecidableEq Address] in
theorem request_keeps (e : Event Address) : e.request.cancels = false := by
  cases e with
  | capProposed kind | capAmended kind => cases kind <;> rfl
  | _ => rfl

/-- One call for each event leads where the log does. -/
theorem accepted_realised (events : List (Event Address))
    (h : audit.Accepts events Store.empty) :
    ∃ is, run Call.body is Env.fresh = ⟨audited events,events⟩ := by
  induction events using List.reverseRecOn with
  | nil => exact ⟨[],rfl⟩
  | append_singleton events e ih =>
    obtain ⟨hearlier, hlast, -⟩ := (Machine.accepts_append events [e] Store.empty).mp h
    obtain ⟨is, hrun⟩ := ih hearlier
    have hsound := reachable_sound (⟨is,hrun⟩ : Reachable Call.body Env.fresh _)
    obtain ⟨env', hc, hemitted⟩ := warranted_commits hsound hlast
    obtain ⟨-, hleads⟩ := commits_audited hc (request_keeps e)
    have hlog := commits_emit hc
    rw [hemitted] at hleads hlog
    refine ⟨is++[⟨fun _ => true,e.request⟩],?_⟩
    rw [run_append, hrun, run, run, settle_of_commits hc, audited, Machine.replay_append]
    obtain ⟨ledger, log⟩ := env'
    cases hleads
    cases hlog
    rfl

/-- A list of events is the log of a run if and only if each event in it is
warranted by those before it. -/
theorem log_iff_warranted (events : List (Event Address)) :
    (∃ is, (run Call.body is Env.fresh).events = events) ↔ audit.Accepts events Store.empty := by
  constructor
  · rintro ⟨is, rfl⟩
    exact (run_audited is).1
  · intro h
    obtain ⟨is, hrun⟩ := accepted_realised events h
    exact ⟨is,by rw [hrun]⟩

/-- The log leaves nothing of the ledger open but which proposals were
withdrawn. Two runs with one log treat alike every later call that does not
decide on a proposal. -/
theorem ledger_from_log (is : List (Signed Address)) :
    (∀ k : DataKey Address,
      (run Call.body is Env.fresh).ledger.get k =
          (audited (run Call.body is Env.fresh).events).get k ∨
        k ∈ pendingKeys ∧ (run Call.body is Env.fresh).ledger.get k = none) ∧
    ∀ js : List (Signed Address),
      (run Call.body js Env.fresh).events = (run Call.body is Env.fresh).events →
      Store.AgreeOff pendingKeys (run Call.body is Env.fresh).ledger
          (run Call.body js Env.fresh).ledger ∧
        ∀ (call : Call Address) (auth : Auth Address), (∀ k ∈ call.reads, k ∉ pendingKeys) →
          (call.body.exec auth (run Call.body is Env.fresh)).1 =
            (call.body.exec auth (run Call.body js Env.fresh)).1 := by
  have hshadow := fun is : List (Signed Address) => (run_audited is).2
  refine ⟨hshadow is,fun js hlog => ?_⟩
  have hagree : Store.AgreeOff pendingKeys (run Call.body is Env.fresh).ledger
      (run Call.body js Env.fresh).ledger := by
    intro k hk
    rw [(hshadow is).get_eq hk, (hshadow js).get_eq hk, hlog]
  refine ⟨hagree,fun call auth hreads => ?_⟩
  exact (exec_alike (Set.Subset.refl _) (hagree.agreeOn hreads) auth).1

end Aegis
