import Aegis.Audit
import Aegis.Capabilities
import Aegis.Snapshots

/-!
# Indexing the log

A client that watches some keys of the ledger needs no more of the log than
the events on them: what is under a key is what these alone make of it. The
descriptor of the deployment and the snapshot of an investor can be kept
until an event of the kinds that may change them.
-/

set_option autoImplicit false

namespace Aegis
open HostKit

variable {Address : Type}

/-! ## The keys an event is about -/

def Event.keys : Event Address → List (DataKey Address)
  | .contractInitialized admin => [.admin,.role admin]
  | .roleAssigned _ target _ | .roleRevoked _ target _ => [.role target]
  | .adminTransferInitiated _ _ => [.adminCandidate]
  | .adminTransferred previousAdmin newAdmin =>
    [.adminCandidate,.admin,.role previousAdmin,.role newAdmin]
  | .adminRenounced previousAdmin _ => [.admin,.role previousAdmin]
  | .contractPaused _ | .contractUnpaused _ => [.paused]
  | .complianceStatusChanged _ user _ _ =>
    [.complianceStatus user,.whitelist user,.complianceApprover user]
  | .assetMinted _ recipient _ _ => [.balance recipient,.totalSupply]
  | .transfer sender recipient _ => [.balance sender,.balance recipient]
  | .assetMetadataUpdated _ _ _ _ => [.assetName,.assetSymbol,.assetMetadataUri]
  | .assetStatusChanged _ _ _ => [.assetStatus]
  | .capProposed kind _ _ _ => [.capCandidate kind]
  | .capAmended kind _ _ _ => [.capCandidate kind,.cap kind]
  | .configProposed _ _ => [.protocolConfigCandidate]
  | .configAmended _ _ => [.protocolConfigCandidate,.protocolConfig]
  | .issuerSeparationPolicyUpdated _ _ _ => [.issuerSeparationPolicy]
  | .userWhitelisted _ _ | .whitelistRevoked _ _ | .yieldDistributed _ _ => []

variable [DecidableEq Address] {env env' : Env Address} {i : Signed Address}
  {l l' : Ledger Address} {k : DataKey Address}

theorem enact_off (e : Event Address) (l : Ledger Address) (hk : k ∉ e.keys) :
    (e.enact l).get k = l.get k := by
  cases e with
  | complianceStatusChanged caller user previousStatus newStatus =>
    apply withStatus_frame caller user newStatus l k
    simpa [Event.keys, statusKeys] using hk
  | _ => simp_all [Event.enact, Event.keys]

/-- What is added to a balance or taken from it is up to that balance alone. -/
theorem get_adjust_congr (a : Address) (g : I128 → I128) (h : l.get k = l'.get k) :
    (l.set (.balance a) (g (getBalanceOf a l))).get k =
      (l'.set (.balance a) (g (getBalanceOf a l'))).get k := by
  by_cases hk : k = .balance a
  · subst hk
    simp [getBalanceOf, h]
  · simpa [hk] using h

/-- What an event leaves under a key depends on what was under it alone. -/
theorem enact_local (e : Event Address) (h : l.get k = l'.get k) :
    (e.enact l).get k = (e.enact l').get k := by
  cases e with
  | userWhitelisted | whitelistRevoked | yieldDistributed => exact h
  | roleAssigned | roleRevoked | adminTransferInitiated | contractPaused | contractUnpaused
  | assetStatusChanged | capProposed | configProposed | issuerSeparationPolicyUpdated =>
    exact Store.get_set_congr _ _ h
  | adminRenounced | capAmended | configAmended =>
    exact Store.get_set_congr _ _ (Store.get_remove_congr _ h)
  | contractInitialized => exact Store.get_set_congr _ _ (Store.get_set_congr _ _ h)
  | adminTransferred =>
    apply Store.get_set_congr
    apply Store.get_set_congr
    exact Store.get_set_congr _ _ (Store.get_remove_congr _ h)
  | assetMetadataUpdated =>
    exact Store.get_set_congr _ _ (Store.get_set_congr _ _ (Store.get_set_congr _ _ h))
  | complianceStatusChanged => exact withStatus_get_congr h
  | assetMinted caller recipient amount totalSupply =>
    exact Store.get_set_congr _ _ (get_adjust_congr recipient (plus · amount) h)
  | transfer sender recipient amount =>
    exact get_adjust_congr recipient (plus · amount) (get_adjust_congr sender (minus · amount) h)

/-- What is under a key after a run is what the events about that key alone
make of it, unless it is a proposal and was withdrawn. -/
theorem ledger_by_topic (is : List (Signed Address)) (env : Env Address) :
    ∃ es, (run Call.body is env).events = env.events++es ∧ ∀ k,
      (run Call.body is env).ledger.get k =
          (audit.replay (es.filter fun e => k ∈ e.keys) env.ledger).get k ∨
        k ∈ pendingKeys ∧ (run Call.body is env).ledger.get k = none := by
  obtain ⟨es, hlog, -, hshadows⟩ := run_shadowed is env
  refine ⟨es,hlog,fun k => ?_⟩
  have htopic : (audit.replay es env.ledger).get k =
      (audit.replay (es.filter fun e => k ∈ e.keys) env.ledger).get k :=
    Machine.replay_filter (f := fun l : Ledger Address => l.get k)
      (fun e _ _ h => enact_local e h) (fun e l hk => enact_off e l (of_decide_eq_false hk)) rfl
  rw [← htopic]
  exact hshadows k

/-! ## What a client may keep -/

/-- The events that may move a runtime switch of the descriptor. -/
def Event.switches : Event Address → Bool
  | .contractInitialized _ | .adminRenounced _ _ | .contractPaused _ | .contractUnpaused _
  | .assetStatusChanged _ _ _ | .capAmended _ _ _ _ | .issuerSeparationPolicyUpdated _ _ _
  | .assetMetadataUpdated _ _ _ _ => true
  | _ => false

/-- The keys whose values the descriptor reads; of the admin key it reads only
whether it is there. -/
def switchKeys : Set (DataKey Address) :=
  {.paused, .assetStatus, .assetName, .assetSymbol, .issuerSeparationPolicy} ∪
    {k | ∃ kind, k = .cap kind}

def snapshotKeys (investor : Address) : Set (DataKey Address) :=
  {.complianceStatus investor, .paused, .assetStatus, .balance investor, .holdingCap}

omit [DecidableEq Address] in
theorem getCapabilities_congr (hadmin : l'.has .admin = l.has .admin)
    (h : ∀ k ∈ switchKeys, l'.get k = l.get k) : getCapabilities l' = getCapabilities l := by
  have hpaused : isPaused l' = isPaused l := by
    rw [isPaused, h .paused (by simp [switchKeys]), isPaused]
  have hasset : getAssetStatus l' = getAssetStatus l := by
    rw [getAssetStatus, h .assetStatus (by simp [switchKeys]), getAssetStatus]
  have hmetadata : isMetadataConfigured l' = isMetadataConfigured l := by
    rw [isMetadataConfigured, h .assetName (by simp [switchKeys]),
      h .assetSymbol (by simp [switchKeys]), isMetadataConfigured]
  have hpolicy : getPolicy l' = getPolicy l := by
    rw [getPolicy, h .issuerSeparationPolicy (by simp [switchKeys]), getPolicy]
  have hcap : ∀ kind, getCap kind l' = getCap kind l := by
    intro kind
    rw [getCap, h (.cap kind) (by simp [switchKeys]), getCap]
  unfold getCapabilities getSupplyCap getHoldingCap
  rw [hadmin, hpaused, hasset, hmetadata, hpolicy, hcap, hcap]

omit [DecidableEq Address] in
theorem getInvestorEligibility_congr {investor : Address}
    (h : ∀ k ∈ snapshotKeys investor, l'.get k = l.get k) :
    getInvestorEligibility investor l' = getInvestorEligibility investor l := by
  have hstatus : getComplianceStatus investor l' = getComplianceStatus investor l := by
    rw [getComplianceStatus, h _ (by simp [snapshotKeys]), getComplianceStatus]
  have hpaused : isPaused l' = isPaused l := by
    rw [isPaused, h _ (by simp [snapshotKeys]), isPaused]
  have hasset : getAssetStatus l' = getAssetStatus l := by
    rw [getAssetStatus, h _ (by simp [snapshotKeys]), getAssetStatus]
  have hbalance : getBalanceOf investor l' = getBalanceOf investor l := by
    rw [getBalanceOf, h _ (by simp [snapshotKeys]), getBalanceOf]
  have hcap : getHoldingCap l' = getHoldingCap l := by
    rw [getHoldingCap, getCap, h _ (by simp [snapshotKeys]), getHoldingCap, getCap]
  unfold getInvestorEligibility
  rw [hstatus, hpaused, hasset, hbalance, hcap]

/-- No other event moves a switch; a handover replaces the admin and leaves the
contract initialized. -/
theorem enact_descriptor {e : Event Address} (hquiet : e.switches = false)
    (h : e.Warranted l) : getCapabilities (e.enact l) = getCapabilities l := by
  apply getCapabilities_congr
  · rw [Store.has, Store.has]
    cases e with
    | adminTransferred previousAdmin newAdmin =>
      have hadmin : l.get .admin = some previousAdmin := h.1.2
      simp [Event.enact, hadmin]
    | contractInitialized | adminRenounced => cases hquiet
    | _ => rw [enact_off _ l (by simp [Event.keys])]
  · intro k hk
    apply enact_off
    intro hkeys
    rcases hk with (rfl | rfl | rfl | rfl | rfl) | ⟨kind, rfl⟩ <;>
      cases e <;> cases hquiet <;> simp [Event.keys] at hkeys

/-- The descriptor stands until an event of the kinds that switch it, and the
snapshot of an investor until an event about what it shows. -/
theorem descriptor_stands (is : List (Signed Address)) (env : Env Address) :
    ∃ es, (run Call.body is env).events = env.events++es ∧
      ((∀ e ∈ es, e.switches = false) →
        getCapabilities (run Call.body is env).ledger = getCapabilities env.ledger) ∧
      ∀ investor, (∀ e ∈ es, ∀ k ∈ e.keys, k ∉ snapshotKeys investor) →
        getInvestorEligibility investor (run Call.body is env).ledger =
          getInvestorEligibility investor env.ledger := by
  obtain ⟨es, hlog, haccepts, hshadows⟩ := run_shadowed is env
  refine ⟨es,hlog,fun hquiet => ?_,fun investor hquiet => ?_⟩
  · have hsame : getCapabilities (run Call.body is env).ledger =
        getCapabilities (audit.replay es env.ledger) := by
      apply getCapabilities_congr
      · rw [Store.has, hshadows.get_eq (by simp [pendingKeys]), Store.has]
      · intro k hk
        apply hshadows.get_eq
        rcases hk with (rfl | rfl | rfl | rfl | rfl) | ⟨kind, rfl⟩ <;> simp [pendingKeys]
    rw [hsame]
    exact haccepts.keeps fun e he l h => enact_descriptor (hquiet e he) h
  · apply getInvestorEligibility_congr
    intro k hk
    have hkept : (audit.replay es env.ledger).get k = env.ledger.get k :=
      haccepts.keeps (f := fun l : Ledger Address => l.get k)
        fun e he l _ => enact_off e l fun hkeys => hquiet e he k hkeys hk
    rw [← hkept]
    apply hshadows.get_eq
    rcases hk with rfl | rfl | rfl | rfl | rfl <;> simp [pendingKeys]

end Aegis
