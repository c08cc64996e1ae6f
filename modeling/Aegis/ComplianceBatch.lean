import Aegis.System

/-!
# The batch as a sequence of single calls

A batch judges every entry on the ledger before any write and applies the
entries afterwards. Entries about different users read and write different
keys, so the batch does what the single calls do in turn, in any order.
-/

set_option autoImplicit false

namespace Aegis
open HostKit

variable {Address : Type}

variable [DecidableEq Address] {env env' : Env Address} {auth : Auth Address}
  {caller user : Address} {l l' : Ledger Address} {updates : List (ComplianceBatchUpdate Address)}

/-! ## Entries do not interfere -/

theorem evaluateTransition_withStatus {writer other : Address} (status newStatus : ComplianceStatus)
    (hne : user ≠ other) :
    evaluateTransition caller user newStatus (withStatus writer other status l) =
      evaluateTransition caller user newStatus l := by
  have hread : Store.AgreeOff (statusKeys other) l (withStatus writer other status l) :=
    withStatus_frame writer other status l
  have hadmin := hread .admin (by simp [statusKeys])
  have hrole := hread (.role caller) (by simp [statusKeys])
  have hpaused : isPaused (withStatus writer other status l) = isPaused l :=
    hread.getD .paused (by simp [statusKeys]) false
  have hcurrent : getComplianceStatus user (withStatus writer other status l) =
      getComplianceStatus user l := by
    rw [getComplianceStatus_withStatus, if_neg hne]
  have hauthority : ∀ current, authorityGuard caller current (withStatus writer other status l) =
      authorityGuard caller current l := by
    intro current
    rw [authorityGuard, authorityGuard, hadmin, getRole, getRole, hrole]
  rw [evaluateTransition, evaluateTransition, evaluateFromStatus, evaluateFromStatus, hcurrent,
    hpaused, hauthority]

theorem withUpdates_perm {permuted : List (ComplianceBatchUpdate Address)}
    (hperm : permuted.Perm updates) (hnodup : (updates.map (·.user)).Nodup) (l : Ledger Address) :
    withUpdates caller permuted l = withUpdates caller updates l := by
  have hnodup' : (permuted.map (·.user)).Nodup := (hperm.map _).nodup_iff.mpr hnodup
  ext1
  funext k
  by_cases hk : ∃ update ∈ updates, k ∈ statusKeys update.user
  · obtain ⟨update, hmem, hkey⟩ := hk
    rw [withUpdates_get_of_mem hnodup hmem hkey,
      withUpdates_get_of_mem hnodup' (hperm.mem_iff.mpr hmem) hkey]
  · have hk' : ¬∃ update ∈ permuted, k ∈ statusKeys update.user := by
      rintro ⟨update, hmem, hkey⟩
      exact hk ⟨update,hperm.mem_iff.mp hmem,hkey⟩
    rw [withUpdates_frame caller updates l k hk, withUpdates_frame caller permuted l k hk']

theorem validUpdates_perm {permuted : List (ComplianceBatchUpdate Address)}
    (hperm : permuted.Perm updates) (h : ValidUpdates caller updates l) :
    ValidUpdates caller permuted l :=
  ⟨(hperm.map _).nodup_iff.mpr h.1,fun update hmem => h.2 update (hperm.mem_iff.mp hmem)⟩

/-! ## The single calls in turn -/

def sequenced (auth : Auth Address) (caller : Address)
    (updates : List (ComplianceBatchUpdate Address)) : List (Signed Address) :=
  updates.map fun update => ⟨auth,.setComplianceStatus caller update.user update.newStatus⟩

/-- Each single call commits exactly if it would have on the first ledger. -/
theorem sequenced_commits (hauth : auth caller = true) (hnodup : (updates.map (·.user)).Nodup) :
    EachStep Call.body (fun s i => ∃ t, Commits Call.body s i t) (sequenced auth caller updates)
        env ↔
      ∀ update ∈ updates,
        evaluateTransition caller update.user update.newStatus env.ledger = .allowed := by
  induction updates generalizing env with
  | nil => simp [sequenced, EachStep]
  | cons first rest ih =>
    rw [List.map_cons, List.nodup_cons] at hnodup
    rw [sequenced, List.map_cons, EachStep, ← sequenced, List.forall_mem_cons]
    have hfirst : (∃ t, Commits Call.body env
        ⟨auth,.setComplianceStatus caller first.user first.newStatus⟩ t) ↔
        evaluateTransition caller first.user first.newStatus env.ledger = .allowed := by
      constructor
      · rintro ⟨t, hc⟩
        exact (setComplianceStatus_ok.mp hc).2.1
      · intro hallowed
        exact ⟨_,setComplianceStatus_ok.mpr ⟨hauth,hallowed,rfl⟩⟩
    rw [hfirst, and_congr_right_iff]
    intro hallowed
    have hc : Commits Call.body env
        ⟨auth,.setComplianceStatus caller first.user first.newStatus⟩ _ :=
      setComplianceStatus_ok.mpr ⟨hauth,hallowed,rfl⟩
    rw [settle_of_commits hc, ih hnodup.2]
    apply forall₂_congr
    intro update hmem
    have hne : update.user ≠ first.user := by
      intro huser
      exact hnodup.1 (List.mem_map.mpr ⟨update,hmem,huser⟩)
    rw [evaluateTransition_withStatus _ _ hne]

theorem run_sequenced (hauth : auth caller = true)
    (hvalid : ValidUpdates caller updates env.ledger) :
    run Call.body (sequenced auth caller updates) env =
      ⟨withUpdates caller updates env.ledger,
        env.events++updates.map fun update => .complianceStatusChanged caller update.user
          (getComplianceStatus update.user env.ledger) update.newStatus⟩ := by
  induction updates generalizing env with
  | nil => simp [sequenced, run, withUpdates]
  | cons first rest ih =>
    obtain ⟨hnodup, hallowed⟩ := hvalid
    rw [List.map_cons, List.nodup_cons] at hnodup
    rw [List.forall_mem_cons] at hallowed
    have hne : ∀ update ∈ rest, update.user ≠ first.user := by
      intro update hmem huser
      exact hnodup.1 (List.mem_map.mpr ⟨update,hmem,huser⟩)
    have hc : Commits Call.body env
        ⟨auth,.setComplianceStatus caller first.user first.newStatus⟩ _ :=
      setComplianceStatus_ok.mpr ⟨hauth,hallowed.1,rfl⟩
    rw [sequenced, List.map_cons, run, ← sequenced, settle_of_commits hc, ih, withUpdates]
    · have hprevious : (rest.map fun update => Event.complianceStatusChanged caller update.user
          (getComplianceStatus update.user
            (withStatus caller first.user first.newStatus env.ledger)) update.newStatus) =
          rest.map fun update => .complianceStatusChanged caller update.user
            (getComplianceStatus update.user env.ledger) update.newStatus := by
        apply List.map_congr_left
        intro update hmem
        rw [getComplianceStatus_withStatus, if_neg (hne update hmem)]
      rw [hprevious, List.append_assoc]
      rfl
    · refine ⟨hnodup.2,fun update hmem => ?_⟩
      rw [evaluateTransition_withStatus _ _ (hne update hmem)]
      exact hallowed.2 update hmem

theorem batch_perm {permuted : List (ComplianceBatchUpdate Address)}
    (hperm : permuted.Perm updates) {final : Ledger Address}
    (h : ∃ n env', (batchSetComplianceStatus caller permuted).exec auth env = (.ok n, env') ∧
      env'.ledger = final) :
    ∃ n env', (batchSetComplianceStatus caller updates).exec auth env = (.ok n, env') ∧
      env'.ledger = final := by
  obtain ⟨n, env', h, hfinal⟩ := h
  obtain ⟨hrun, hauth, hvalid, -, rfl⟩ := batchSetComplianceStatus_ok.mp h
  have hvalid' := validUpdates_perm hperm.symm hvalid
  refine ⟨_,_,batchSetComplianceStatus_ok.mpr ⟨hrun,hauth,hvalid',rfl,rfl⟩,?_⟩
  exact (withUpdates_perm hperm hvalid'.1 env.ledger).symm.trans hfinal

/-! ## Failure -/

/-- Whatever a batch is refused for, it is refused before it writes. -/
theorem batchSetComplianceStatus_pristine {f : Failure}
    (h : (batchSetComplianceStatus caller updates).exec auth env = (.error f, env')) :
    env' = env := by
  rcases Host.bind_error_iff.mp h with hfail | ⟨_, t, hopen, hopened⟩
  · exact (Prod.ext_iff.mp hfail).2.symm
  obtain ⟨-, ht⟩ := check_ok.mp hopen
  subst ht
  rcases Host.bind_error_iff.mp hopened with hfail | ⟨_, t, hsign, hsigned⟩
  · exact (Prod.ext_iff.mp hfail).2.symm
  obtain ⟨-, ht⟩ := requireAuth_ok.mp hsign
  subst ht
  rcases Host.bind_error_iff.mp hsigned with hfail | ⟨previous, t, -, hvalidated⟩
  · exact (Prod.ext_iff.mp hfail).2.symm
  -- once the entries are validated nothing can fail
  rcases Host.bind_error_iff.mp hvalidated with hfail | ⟨_, u, -, hcount⟩
  · rw [(applyUpdates_ok (u := ())).mpr rfl] at hfail
    cases hfail
  · cases hcount

theorem batch_equals_sequence (env : Env Address) (hrun : isPaused env.ledger = false)
    (auth : Auth Address) (caller : Address) (updates : List (ComplianceBatchUpdate Address)) :
    ((updates.map (·.user)).Nodup →
      ((∃ n env', (batchSetComplianceStatus caller updates).exec auth env = (.ok n, env')) ↔
        auth caller = true ∧
          EachStep Call.body (fun s i => ∃ t, Commits Call.body s i t)
            (sequenced auth caller updates) env) ∧
      ∀ n env', (batchSetComplianceStatus caller updates).exec auth env = (.ok n, env') →
        n = updates.length ∧ env' = run Call.body (sequenced auth caller updates) env) ∧
    (∀ permuted, permuted.Perm updates → ∀ final,
      (∃ n env', (batchSetComplianceStatus caller permuted).exec auth env = (.ok n, env') ∧
          env'.ledger = final) ↔
        ∃ n env', (batchSetComplianceStatus caller updates).exec auth env = (.ok n, env') ∧
          env'.ledger = final) ∧
    (¬(updates.map (·.user)).Nodup →
      ∀ n env', (batchSetComplianceStatus caller updates).exec auth env ≠ (.ok n, env')) ∧
    ∀ f env', (batchSetComplianceStatus caller updates).exec auth env = (.error f, env') →
      env' = env := by
  refine ⟨fun hnodup => ⟨⟨?_,?_⟩,fun n env' h => ?_⟩,fun permuted hperm final => ?_,
    fun hdup n env' h => ?_,fun f env' h => batchSetComplianceStatus_pristine h⟩
  · rintro ⟨n, env', h⟩
    obtain ⟨-, hauth, hvalid, -⟩ := batchSetComplianceStatus_ok.mp h
    exact ⟨hauth,(sequenced_commits hauth hnodup).mpr hvalid.2⟩
  · rintro ⟨hauth, hcommits⟩
    have hvalid := (sequenced_commits hauth hnodup).mp hcommits
    exact ⟨_,_,batchSetComplianceStatus_ok.mpr ⟨hrun,hauth,⟨hnodup,hvalid⟩,rfl,rfl⟩⟩
  · obtain ⟨-, hauth, hvalid, hn, henv⟩ := batchSetComplianceStatus_ok.mp h
    exact ⟨hn,henv.trans (run_sequenced hauth hvalid).symm⟩
  · exact ⟨batch_perm hperm,batch_perm hperm.symm⟩
  · exact hdup (batchSetComplianceStatus_ok.mp h).2.2.1.1

theorem batch_equals_sequence_deployed :
    ∃ n env', (batchSetComplianceStatus 0 [⟨1,.blocked⟩,⟨2,.pending⟩]).exec (fun a => a = 0)
      deployed = (.ok n, env') :=
  ((batch_equals_sequence deployed (by decide) (fun a => a = 0) 0 [⟨1,.blocked⟩,⟨2,.pending⟩]).1
    (by decide)).1.mpr ⟨by decide,⟨_,rfl⟩,⟨_,rfl⟩,trivial⟩

end Aegis
