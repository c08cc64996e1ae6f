import Aegis.Emission
import Aegis.HostKit.Journal
import Aegis.StatusWrites

/-!
# Statuses read off the event log

Every change of a status publishes one event with the status before and after
it, whichever call makes the change. The events of one user form a chain
from the initial status to the present one.
-/

set_option autoImplicit false

namespace Aegis
open HostKit

variable {Address : Type}

def statusesOf (l : Ledger Address) : Address → ComplianceStatus :=
  fun user => getComplianceStatus user l

/-- What is said of the statuses before it. -/
def Event.Follows : Event Address → (Address → ComplianceStatus) → Prop
  | .complianceStatusChanged _ user previousStatus newStatus, w =>
    w user = previousStatus ∧ previousStatus ≠ newStatus
  | _, _ => True

/-- The status a user has after a list of changes from a first one. -/
def statusAfter (first : ComplianceStatus)
    (changes : List (ComplianceStatus × ComplianceStatus)) : ComplianceStatus :=
  (changes.getLast?.map Prod.snd).getD first

theorem statusAfter_cons (first previous new : ComplianceStatus)
    (changes : List (ComplianceStatus × ComplianceStatus)) :
    statusAfter first ((previous,new)::changes) = statusAfter new changes := by
  rw [statusAfter, statusAfter, List.getLast?_cons]
  cases changes.getLast? <;> rfl

variable [DecidableEq Address]

def Event.changeOf (user : Address) : Event Address → Option (ComplianceStatus × ComplianceStatus)
  | .complianceStatusChanged _ target previousStatus newStatus =>
    if target = user then some (previousStatus,newStatus) else none
  | _ => none

def changesOf (user : Address) (events : List (Event Address)) :
    List (ComplianceStatus × ComplianceStatus) := events.filterMap (Event.changeOf user)

def registry : Machine (Event Address) (Address → ComplianceStatus) where
  Admissible := Event.Follows
  perform
    | .complianceStatusChanged _ user _ newStatus, w => Function.update w user newStatus
    | _, w => w

/-! ## The chain of one user -/

theorem replay_status (user : Address) (events : List (Event Address))
    (w : Address → ComplianceStatus) :
    registry.replay events w user = statusAfter (w user) (changesOf user events) := by
  induction events generalizing w with
  | nil => rfl
  | cons e events ih =>
    rw [Machine.replay, ih]
    cases e with
    | complianceStatusChanged caller target previousStatus newStatus =>
      by_cases huser : target = user
      · subst huser
        simp [registry, changesOf, Event.changeOf, statusAfter_cons]
      · simp [registry, changesOf, Event.changeOf, huser, Ne.symm huser]
    | _ => rfl

theorem accepted_chain {user : Address} {events : List (Event Address)}
    {w : Address → ComplianceStatus} (h : registry.Accepts events w)
    {before after : List (ComplianceStatus × ComplianceStatus)} {previous new : ComplianceStatus}
    (hsplit : changesOf user events = before++(previous,new)::after) :
    previous = statusAfter (w user) before ∧ previous ≠ new := by
  induction events generalizing w before with
  | nil => simp [changesOf] at hsplit
  | cons e events ih =>
    obtain ⟨hfollows, hrest⟩ := h
    cases e with
    | complianceStatusChanged caller target previousStatus newStatus =>
      obtain ⟨hbefore, hne⟩ := hfollows
      by_cases huser : target = user
      · subst huser
        rw [changesOf, List.filterMap_cons, Event.changeOf, if_pos rfl] at hsplit
        cases before with
        | nil =>
          cases hsplit
          exact ⟨hbefore.symm,hne⟩
        | cons b before =>
          obtain ⟨rfl, hlater⟩ := List.cons.inj hsplit
          rw [statusAfter_cons]
          simpa [registry] using ih hrest hlater
      · have hlater : changesOf user events = before++(previous,new)::after := by
          simpa [changesOf, Event.changeOf, huser] using hsplit
        simpa [registry, Ne.symm huser] using ih hrest hlater
    | _ => exact ih hrest hsplit

/-! ## The contract keeps the log -/

variable {env env' : Env Address} {i : Signed Address} {caller user : Address}
  {previous new status : ComplianceStatus} {l : Ledger Address}

theorem edge_changes (h : transitionIsAllowed previous new = true) : previous ≠ new := by
  rintro rfl
  simp [transitionIsAllowed] at h

theorem leads_withStatus (hedge : transitionIsAllowed (getComplianceStatus user l) status = true) :
    registry.Leads [.complianceStatusChanged caller user (getComplianceStatus user l) status]
      (statusesOf l) (statusesOf (withStatus caller user status l)) := by
  have hwritten : statusesOf (withStatus caller user status l) =
      Function.update (statusesOf l) user status := by
    funext other
    rw [statusesOf, getComplianceStatus_withStatus, Function.update_apply, statusesOf]
  rw [hwritten]
  exact Machine.leads_single (m := registry) ⟨rfl,edge_changes hedge⟩

/-- The statuses a batch reports were captured before any write, and are those
found when each entry is applied. -/
theorem leads_withUpdates {updates : List (ComplianceBatchUpdate Address)}
    (hnodup : (updates.map (·.user)).Nodup)
    (hedges : ∀ update ∈ updates,
      transitionIsAllowed (getComplianceStatus update.user l) update.newStatus = true) :
    registry.Leads (updates.map fun update => .complianceStatusChanged caller update.user
        (getComplianceStatus update.user l) update.newStatus)
      (statusesOf l) (statusesOf (withUpdates caller updates l)) := by
  induction updates generalizing l with
  | nil => exact Machine.leads_nil _
  | cons first rest ih =>
    rw [List.map_cons, List.nodup_cons] at hnodup
    have hcaptured : ∀ update ∈ rest,
        getComplianceStatus update.user (withStatus caller first.user first.newStatus l) =
          getComplianceStatus update.user l := by
      intro update hmem
      rw [getComplianceStatus_withStatus, if_neg]
      intro huser
      exact hnodup.1 (List.mem_map.mpr ⟨update,hmem,huser⟩)
    have hlater := ih (l := withStatus caller first.user first.newStatus l) hnodup.2
      fun update hmem => by
        rw [hcaptured update hmem]
        exact hedges update (List.mem_cons_of_mem _ hmem)
    rw [List.map_congr_left fun update hmem => by rw [hcaptured update hmem]] at hlater
    exact (leads_withStatus (hedges first List.mem_cons_self)).append hlater

omit [DecidableEq Address] in
/-- A published change was asked for by the call, and carries its signer and
the status found. -/
theorem emitted_change {call : Call Address}
    (h : .complianceStatusChanged caller user previous new ∈ call.emitted l) :
    caller = call.signer ∧ previous = getComplianceStatus user l ∧ call.Requests user new := by
  cases call with
  | setComplianceStatus signer target newStatus =>
    cases List.mem_singleton.mp h
    exact ⟨rfl,rfl,rfl,rfl⟩
  | batchSetComplianceStatus signer updates =>
    obtain ⟨update, hmem, hevent⟩ := List.mem_map.mp h
    cases hevent
    exact ⟨rfl,rfl,hmem⟩
  | whitelistUser admin target =>
    have hevent : getComplianceStatus target l ≠ .approved ∧ caller = admin ∧ user = target ∧
        previous = getComplianceStatus target l ∧ new = .approved := by
      simpa [Call.emitted] using h
    obtain ⟨-, rfl, rfl, rfl, rfl⟩ := hevent
    exact ⟨rfl,rfl,rfl,rfl⟩
  | revokeWhitelist admin target =>
    have hevent : transitionIsAllowed (getComplianceStatus target l) .revoked = true ∧
        caller = admin ∧ user = target ∧ previous = getComplianceStatus target l ∧
        new = .revoked := by
      simpa [Call.emitted] using h
    obtain ⟨-, rfl, rfl, rfl, rfl⟩ := hevent
    exact ⟨rfl,rfl,rfl,rfl⟩
  | _ => simp [Call.emitted] at h

omit [DecidableEq Address] in
theorem change_emitted {call : Call Address} (hrequests : call.Requests user new)
    (hedge : transitionIsAllowed (getComplianceStatus user l) new = true) :
    .complianceStatusChanged call.signer user (getComplianceStatus user l) new ∈
      call.emitted l := by
  cases call with
  | setComplianceStatus signer target newStatus =>
    obtain ⟨rfl, rfl⟩ := hrequests
    exact List.mem_singleton_self _
  | batchSetComplianceStatus signer updates => exact List.mem_map.mpr ⟨_,hrequests,rfl⟩
  | whitelistUser admin target =>
    obtain ⟨rfl, rfl⟩ := hrequests
    simp [Call.emitted, Call.signer, edge_changes hedge]
  | revokeWhitelist admin target =>
    obtain ⟨rfl, rfl⟩ := hrequests
    simp [Call.emitted, Call.signer, hedge]
  | _ => cases hrequests

theorem emitted_written (h : Commits Call.body env i env')
    (he : .complianceStatusChanged caller user previous new ∈ i.call.emitted env.ledger) :
    StatusWritten i.call.signer user new env.ledger env'.ledger := by
  obtain ⟨rfl, rfl, hrequests⟩ := emitted_change he
  obtain ⟨auth, c⟩ := i
  cases c with
  | setComplianceStatus caller target newStatus =>
    obtain ⟨rfl, rfl⟩ := hrequests
    obtain ⟨-, hallowed, rfl⟩ := setComplianceStatus_ok.mp h
    obtain ⟨-, hclear, hedge⟩ := evaluateTransition_allowed.mp hallowed
    exact withStatus_written hclear hedge
  | batchSetComplianceStatus caller updates =>
    obtain ⟨-, -, hvalid, rfl⟩ := batch_commits.mp h
    exact withUpdates_written hvalid hrequests
  | whitelistUser admin target =>
    obtain ⟨rfl, rfl⟩ := hrequests
    obtain ⟨-, -, hclear, ⟨happroved, -⟩ | ⟨hedge, rfl⟩⟩ := whitelistUser_ok.mp h
    · simp [Call.emitted, happroved] at he
    · exact withStatus_written hclear hedge
  | revokeWhitelist admin target =>
    obtain ⟨rfl, rfl⟩ := hrequests
    obtain ⟨-, -, hclear, ⟨hedge, -⟩ | ⟨hedge, rfl⟩⟩ := revokeWhitelist_ok.mp h
    · simp [Call.emitted, hedge] at he
    · exact withStatus_written hclear hedge
  | _ => cases hrequests

/-- A committed call publishes a change exactly if it makes it. -/
theorem emitted_change_iff (h : Commits Call.body env i env') :
    .complianceStatusChanged caller user previous new ∈ i.call.emitted env.ledger ↔
      caller = i.call.signer ∧ previous = getComplianceStatus user env.ledger ∧
        new = getComplianceStatus user env'.ledger ∧ previous ≠ new := by
  constructor
  · intro he
    obtain ⟨hsigner, hprevious, -⟩ := emitted_change he
    have hwritten := emitted_written h he
    refine ⟨hsigner,hprevious,hwritten.status_eq.symm,?_⟩
    rw [hprevious]
    exact edge_changes hwritten.edge
  · rintro ⟨rfl, rfl, rfl, hne⟩
    rcases commits_status h user with hkept | ⟨status, hrequests, hwritten⟩
    · exact absurd hkept.status_eq.symm hne
    · rw [hwritten.status_eq]
      exact change_emitted hrequests hwritten.edge

/-- A call that asks for no status publishes no change and makes none. -/
theorem registry_unmoved (h : Commits Call.body env i env')
    (hno : ∀ user status, ¬i.call.Requests user status) :
    registry.Leads (i.call.emitted env.ledger) (statusesOf env.ledger)
      (statusesOf env'.ledger) := by
  have hsame : statusesOf env'.ledger = statusesOf env.ledger := by
    funext user
    rcases commits_status h user with hkept | ⟨status, hrequests, -⟩
    · exact hkept.status_eq
    · exact absurd hrequests (hno user status)
  rw [hsame]
  apply Machine.leads_idle
  intro e he
  cases e with
  | complianceStatusChanged caller user previousStatus newStatus =>
    exact absurd (emitted_change he).2.2 (hno user newStatus)
  | _ => exact ⟨trivial,rfl⟩

theorem commits_registry (h : Commits Call.body env i env') :
    registry.Leads (i.call.emitted env.ledger) (statusesOf env.ledger)
      (statusesOf env'.ledger) := by
  obtain ⟨auth, c⟩ := i
  cases c with
  | setComplianceStatus caller user newStatus =>
    obtain ⟨-, hallowed, rfl⟩ := setComplianceStatus_ok.mp h
    exact leads_withStatus (evaluateTransition_allowed.mp hallowed).2.2
  | batchSetComplianceStatus caller updates =>
    obtain ⟨-, -, hvalid, rfl⟩ := batch_commits.mp h
    apply leads_withUpdates hvalid.1
    intro update hmem
    exact (evaluateTransition_allowed.mp (hvalid.2 update hmem)).2.2
  | whitelistUser admin user =>
    obtain ⟨-, -, -, ⟨happroved, rfl⟩ | ⟨hedge, rfl⟩⟩ := whitelistUser_ok.mp h
    · rw [Call.emitted, if_pos happroved]
      exact Machine.leads_single (m := registry) trivial
    · rw [Call.emitted, if_neg (edge_changes hedge)]
      exact (leads_withStatus hedge).append (Machine.leads_single (m := registry) trivial)
  | revokeWhitelist admin user =>
    obtain ⟨-, -, -, ⟨hedge, rfl⟩ | ⟨hedge, rfl⟩⟩ := revokeWhitelist_ok.mp h
    · rw [Call.emitted, hedge]
      exact Machine.leads_single (m := registry) trivial
    · rw [Call.emitted, if_pos hedge]
      exact (leads_withStatus hedge).append (Machine.leads_single (m := registry) trivial)
  | _ => exact registry_unmoved h fun _ _ => id

theorem journaled_registry : Machine.Journaled Call.body registry Env.events
    fun env : Env Address => statusesOf env.ledger :=
  fun env i _ h => ⟨i.call.emitted env.ledger,commits_emit h,commits_registry h⟩

theorem registry_from_events (is : List (Signed Address)) :
    (∀ user, getComplianceStatus user (run Call.body is Env.fresh).ledger =
      statusAfter .unknown (changesOf user (run Call.body is Env.fresh).events)) ∧
    (∀ user before previous new after,
      changesOf user (run Call.body is Env.fresh).events = before++(previous,new)::after →
      previous = statusAfter .unknown before ∧ previous ≠ new) ∧
    (run Call.body is Env.fresh).events =
      ((trace Call.body is Env.fresh).flatMap fun t => t.via.call.emitted t.pre.ledger) ∧
    ∀ t ∈ trace Call.body is Env.fresh, t.via.context t.via.call.signer = true ∧
      ∀ caller user previous new,
        .complianceStatusChanged caller user previous new ∈ t.via.call.emitted t.pre.ledger ↔
          caller = t.via.call.signer ∧ previous = getComplianceStatus user t.pre.ledger ∧
            new = getComplianceStatus user t.post.ledger ∧ previous ≠ new := by
  have hlog : registry.Leads (run Call.body is Env.fresh).events (fun _ => .unknown)
      (statusesOf (run Call.body is Env.fresh).ledger) :=
    journaled_registry.run is (s := Env.fresh) (Machine.leads_nil (m := registry) _)
  obtain ⟨haccepts, hstatuses⟩ := hlog
  refine ⟨fun user => ?_,fun user before previous new after hsplit => ?_,
    events_of_run is Env.fresh,fun t hmem => ?_⟩
  · exact (congrFun hstatuses user).trans (replay_status user _ _)
  · exact accepted_chain haccepts hsplit
  · have hc := (mem_trace hmem).2
    exact ⟨signer_authorised hc,fun caller user previous new => emitted_change_iff hc⟩

end Aegis
