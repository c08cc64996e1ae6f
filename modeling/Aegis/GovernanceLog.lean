import Aegis.Emission
import Aegis.HostKit.Journal

/-!
# Governance read off the event log

Every write of the admin key, a role, the pause, the asset status, an active
cap, the configuration or the separation policy publishes one event. Whoever
makes the writes the events tell of on an empty ledger has the governance
of the contract, and finds in it what each event says was there before.
-/

set_option autoImplicit false

namespace Aegis
open HostKit

variable {Address : Type}

/-- The keys of governance. Nominations and pending proposals are not among
them: their cancellation publishes nothing. -/
def DataKey.isGovernance : DataKey Address → Bool
  | .admin | .role _ | .paused | .assetStatus => true
  | .cap _ | .protocolConfig | .issuerSeparationPolicy => true
  | _ => false

def governed (l : Ledger Address) : Ledger Address := l.restrict DataKey.isGovernance

/-- What an event says of the ledger before it. -/
def Event.Recalls : Event Address → Ledger Address → Prop
  | .roleRevoked _ target role, l => role = getRole target l
  | .adminTransferred previousAdmin _, l => IsAdmin previousAdmin l
  | .adminRenounced previousAdmin _, l => IsAdmin previousAdmin l
  | .assetStatusChanged _ previousStatus _, l => previousStatus = getAssetStatus l
  | .capAmended kind _ previousCap _, l => previousCap = getCap kind l
  | .issuerSeparationPolicyUpdated _ previousPolicy _, l => previousPolicy = getPolicy l
  | _, _ => True

variable [DecidableEq Address]

/-- The writes an event tells of. -/
def Event.record : Event Address → Ledger Address → Ledger Address
  | .contractInitialized admin, l => (l.set .admin admin).set (.role admin) .admin
  | .roleAssigned _ target role, l => l.set (.role target) role
  | .roleRevoked _ target _, l => l.set (.role target) .none
  | .adminTransferred previousAdmin newAdmin, l =>
    ((l.set .admin newAdmin).set (.role previousAdmin) .none).set (.role newAdmin) .admin
  | .adminRenounced previousAdmin _, l => (l.remove .admin).set (.role previousAdmin) .none
  | .contractPaused _, l => l.set .paused true
  | .contractUnpaused _, l => l.set .paused false
  | .assetStatusChanged _ _ newStatus, l => l.set .assetStatus newStatus
  | .capAmended kind _ _ newCap, l => l.set (.cap kind) newCap
  | .configAmended _ newConfig, l => l.set .protocolConfig newConfig
  | .issuerSeparationPolicyUpdated _ _ newPolicy, l => l.set .issuerSeparationPolicy newPolicy
  | _, l => l

def governance : Machine (Event Address) (Ledger Address) := ⟨Event.Recalls,Event.record⟩

def rebuilt (events : List (Event Address)) : Ledger Address :=
  governance.replay events Store.empty

variable {env env' : Env Address} {i : Signed Address}

/-! ## The contract keeps the log -/

/-- A call that writes no key of governance and publishes nothing about one. -/
theorem governance_unmoved (h : Commits Call.body env i env')
    (hwrites : ∀ k ∈ i.call.writes env.ledger, k.isGovernance = false)
    (hidle : ∀ e ∈ i.call.emitted env.ledger, ∀ l,
      governance.Admissible e l ∧ governance.perform e l = l) :
    governance.Leads (i.call.emitted env.ledger) (governed env.ledger) (governed env'.ledger) := by
  rw [governed, governed, (commits_frame h).restrict hwrites]
  exact Machine.leads_idle fun e he => hidle e he _

theorem leads_capAmended {kind : Cap} (admin : Address) (proposed : I128) (l : Ledger Address) :
    governance.Leads [.capAmended kind admin (getCap kind l) proposed] (governed l)
      (governed ((l.remove (.capCandidate kind)).set (.cap kind) proposed)) := by
  rw [governed, governed, Store.restrict_set _ _ rfl, Store.restrict_remove_of_not _ rfl]
  exact Machine.leads_single (m := governance) rfl

theorem commits_governance (h : Commits Call.body env i env') :
    governance.Leads (i.call.emitted env.ledger) (governed env.ledger)
      (governed env'.ledger) := by
  obtain ⟨auth, c⟩ := i
  cases c with
  | initializeContract admin =>
    obtain ⟨-, -, rfl⟩ := initializeContract_ok.mp h
    rw [governed, governed, Store.restrict_set _ _ rfl, Store.restrict_set _ _ rfl]
    exact Machine.leads_single (m := governance) trivial
  | setRole admin target role =>
    obtain ⟨-, -, rfl⟩ := setRole_ok.mp h
    rw [governed, governed, Store.restrict_set _ _ rfl]
    exact Machine.leads_single (m := governance) trivial
  | removeRole admin target =>
    obtain ⟨-, -, rfl⟩ := removeRole_ok.mp h
    rw [governed, governed, Store.restrict_set _ _ rfl]
    exact Machine.leads_single (m := governance) rfl
  | acceptAdmin candidate =>
    obtain ⟨-, -, -, previous, hadmin, rfl⟩ := acceptAdmin_ok.mp h
    rw [governed, governed, Store.restrict_set _ _ rfl, Store.restrict_set _ _ rfl,
      Store.restrict_set _ _ rfl, Store.restrict_remove_of_not _ rfl, Call.emitted,
      show env.ledger.get .admin = some previous from hadmin]
    exact Machine.leads_single (m := governance) hadmin
  | renounceAdmin admin =>
    obtain ⟨hgoverns, rfl⟩ := renounceAdmin_ok.mp h
    rw [governed, governed, Store.restrict_set _ _ rfl, Store.restrict_remove _ rfl]
    exact Machine.leads_single (m := governance) hgoverns.2.2
  | pause caller =>
    obtain ⟨-, -, -, rfl⟩ := pause_ok.mp h
    rw [governed, governed, Store.restrict_set _ _ rfl]
    exact Machine.leads_single (m := governance) trivial
  | unpause caller =>
    obtain ⟨-, -, -, rfl⟩ := unpause_ok.mp h
    rw [governed, governed, Store.restrict_set _ _ rfl]
    exact Machine.leads_single (m := governance) trivial
  | setAssetStatus admin newStatus =>
    obtain ⟨-, -, -, -, rfl⟩ := setAssetStatus_ok.mp h
    rw [governed, governed, Store.restrict_set _ _ rfl]
    exact Machine.leads_single (m := governance) rfl
  | acceptSupplyCap admin =>
    obtain ⟨-, proposed, hpending, rfl⟩ := acceptCap_ok.mp h
    rw [Call.emitted, hpending]
    exact leads_capAmended admin proposed env.ledger
  | acceptHoldingCap admin =>
    obtain ⟨-, proposed, hpending, rfl⟩ := acceptCap_ok.mp h
    rw [Call.emitted, hpending]
    exact leads_capAmended admin proposed env.ledger
  | acceptConfig admin =>
    obtain ⟨-, pending, hpending, rfl⟩ := acceptConfig_ok.mp h
    rw [governed, governed, Store.restrict_set _ _ rfl, Store.restrict_remove_of_not _ rfl,
      Call.emitted, hpending]
    exact Machine.leads_single (m := governance) trivial
  | setIssuerSeparationPolicy admin policy =>
    obtain ⟨-, rfl⟩ := setIssuerSeparationPolicy_ok.mp h
    rw [governed, governed, Store.restrict_set _ _ rfl]
    exact Machine.leads_single (m := governance) rfl
  | batchSetComplianceStatus caller updates =>
    apply governance_unmoved h
    · rintro k ⟨update, -, rfl | rfl | rfl⟩ <;> rfl
    · intro e he l
      obtain ⟨update, -, rfl⟩ := List.mem_map.mp he
      exact ⟨trivial,rfl⟩
  | whitelistUser admin user =>
    apply governance_unmoved h
    · rintro k (rfl | rfl | rfl) <;> rfl
    · intro e he l
      simp only [Call.emitted, List.mem_append, List.mem_ite_nil_left, List.mem_singleton] at he
      rcases he with ⟨-, rfl⟩ | rfl <;> exact ⟨trivial,rfl⟩
  | revokeWhitelist admin user =>
    apply governance_unmoved h
    · rintro k (rfl | rfl | rfl) <;> rfl
    · intro e he l
      simp only [Call.emitted, List.mem_append, List.mem_ite_nil_right, List.mem_singleton] at he
      rcases he with ⟨-, rfl⟩ | rfl <;> exact ⟨trivial,rfl⟩
  | mintAsset admin recipient amount =>
    apply governance_unmoved h
    · rintro k (rfl | rfl) <;> rfl
    · intro e he l
      obtain ⟨supply, -, rfl⟩ := List.mem_map.mp he
      exact ⟨trivial,rfl⟩
  | cancelSupplyCapProposal | cancelHoldingCapProposal | cancelConfigProposal =>
    apply governance_unmoved h
    · rintro k rfl
      rfl
    · rintro e ⟨⟩
  | _ =>
    apply governance_unmoved h
    · simp [Call.writes, statusKeys, DataKey.isGovernance]
    · intro e he l
      cases List.mem_singleton.mp he
      exact ⟨trivial,rfl⟩

theorem journaled_governance : Machine.Journaled Call.body governance Env.events
    fun env : Env Address => governed env.ledger :=
  fun env i _ h => ⟨i.call.emitted env.ledger,commits_emit h,commits_governance h⟩

theorem governance_from_events (is : List (Signed Address)) :
    (∀ k : DataKey Address, k.isGovernance = true →
      (rebuilt (run Call.body is Env.fresh).events).get k =
        (run Call.body is Env.fresh).ledger.get k) ∧
    ∀ before e after, (run Call.body is Env.fresh).events = before++e::after →
      e.Recalls (rebuilt before) := by
  have hlog : governance.Leads (run Call.body is Env.fresh).events Store.empty
      (governed (run Call.body is Env.fresh).ledger) := by
    apply journaled_governance.run is (s := Env.fresh)
    have hempty : governed (Env.fresh : Env Address).ledger = Store.empty := by
      ext1
      funext k
      exact ite_self none
    rw [hempty]
    exact Machine.leads_nil _
  obtain ⟨haccepts, hrebuilt⟩ := hlog
  refine ⟨fun k hk => ?_,fun before e after hsplit => ?_⟩
  · rw [rebuilt, ← hrebuilt, governed, Store.get_restrict _ hk]
  · rw [hsplit] at haccepts
    exact haccepts.at_entry

end Aegis
