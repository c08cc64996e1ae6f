import Aegis.System

/-!
# What a call does to one user

A committed call either leaves the three keys of a user as they are, or it is
one of the four compliance calls, it was asked for that user, and it writes
there what a single write of the requested status would. What follows for
the status, the approver record and the legacy mirror is read off these two
cases.
-/

set_option autoImplicit false

namespace Aegis
open HostKit

variable {Address : Type}

/-- The call asks for a status of the user. -/
def Call.Requests (user : Address) (status : ComplianceStatus) : Call Address → Prop
  | .setComplianceStatus _ target newStatus => target = user ∧ newStatus = status
  | .batchSetComplianceStatus _ updates => ⟨user,status⟩ ∈ updates
  | .whitelistUser _ target => target = user ∧ status = .approved
  | .revokeWhitelist _ target => target = user ∧ status = .revoked
  | _ => False

def StatusKept (user : Address) (l l' : Ledger Address) : Prop :=
  ∀ k ∈ statusKeys user, l'.get k = l.get k

variable [DecidableEq Address] {env env' : Env Address} {i : Signed Address}
  {signer user target : Address} {status : ComplianceStatus} {l l' : Ledger Address}

/-- An authorised write of a status the matrix allows. -/
structure StatusWritten (signer user : Address) (status : ComplianceStatus)
    (l l' : Ledger Address) : Prop where
  cleared : MayClear signer (getComplianceStatus user l) l
  edge : transitionIsAllowed (getComplianceStatus user l) status = true
  written : ∀ k ∈ statusKeys user, l'.get k = (withStatus signer user status l).get k

/-! ## The two cases -/

theorem withStatus_other (hne : target ≠ user) :
    StatusKept user l (withStatus signer target status l) := by
  intro k hk
  apply withStatus_frame
  intro hother
  exact hne (statusKeys_disjoint hother hk)

theorem withStatus_written (hclear : MayClear signer (getComplianceStatus user l) l)
    (hedge : transitionIsAllowed (getComplianceStatus user l) status = true) :
    StatusWritten signer user status l (withStatus signer user status l) :=
  ⟨hclear,hedge,fun _ _ => rfl⟩

/-- A write to one user, by a call that requests it of that user. -/
theorem withStatus_cases (user : Address) {call : Call Address}
    (hclear : MayClear signer (getComplianceStatus target l) l)
    (hedge : transitionIsAllowed (getComplianceStatus target l) status = true)
    (hrequests : target = user → call.Requests user status) :
    StatusKept user l (withStatus signer target status l) ∨
      ∃ next, call.Requests user next ∧
        StatusWritten signer user next l (withStatus signer target status l) := by
  by_cases huser : target = user
  · have hrequested := hrequests huser
    subst huser
    exact Or.inr ⟨status,hrequested,withStatus_written hclear hedge⟩
  · exact Or.inl (withStatus_other huser)

theorem withUpdates_written {updates : List (ComplianceBatchUpdate Address)}
    (hvalid : ValidUpdates signer updates l) (hmem : ⟨user,status⟩ ∈ updates) :
    StatusWritten signer user status l (withUpdates signer updates l) := by
  obtain ⟨-, hclear, hedge⟩ := evaluateTransition_allowed.mp (hvalid.2 _ hmem)
  exact ⟨hclear,hedge,fun k hk => withUpdates_get_of_mem hvalid.1 hmem hk l⟩

theorem withUpdates_cases {updates : List (ComplianceBatchUpdate Address)}
    (hvalid : ValidUpdates signer updates l) (user : Address) :
    StatusKept user l (withUpdates signer updates l) ∨
      ∃ status, ⟨user,status⟩ ∈ updates ∧
        StatusWritten signer user status l (withUpdates signer updates l) := by
  by_cases hmem : ∃ update ∈ updates, update.user = user
  · obtain ⟨update, hmem, rfl⟩ := hmem
    exact Or.inr ⟨update.newStatus,hmem,withUpdates_written hvalid hmem⟩
  · left
    intro k hk
    apply withUpdates_frame
    rintro ⟨update, hentry, hkey⟩
    exact hmem ⟨update,hentry,statusKeys_disjoint hkey hk⟩

/-- The batch is judged on the statuses before any write, so it too writes
for each user what a single call would. -/
theorem commits_status (h : Commits Call.body env i env') (user : Address) :
    StatusKept user env.ledger env'.ledger ∨
      ∃ status, i.call.Requests user status ∧
        StatusWritten i.call.signer user status env.ledger env'.ledger := by
  obtain ⟨auth, c⟩ := i
  cases c with
  | setComplianceStatus caller target newStatus =>
    obtain ⟨-, hallowed, rfl⟩ := setComplianceStatus_ok.mp h
    obtain ⟨-, hclear, hedge⟩ := evaluateTransition_allowed.mp hallowed
    exact withStatus_cases user hclear hedge fun huser => ⟨huser,rfl⟩
  | batchSetComplianceStatus caller updates =>
    obtain ⟨-, -, hvalid, rfl⟩ := batch_commits.mp h
    exact withUpdates_cases hvalid user
  | whitelistUser admin target =>
    obtain ⟨-, -, hclear, ⟨-, rfl⟩ | ⟨hedge, rfl⟩⟩ := whitelistUser_ok.mp h
    · exact Or.inl fun k _ => rfl
    · exact withStatus_cases user hclear hedge fun huser => ⟨huser,rfl⟩
  | revokeWhitelist admin target =>
    obtain ⟨-, -, hclear, ⟨-, rfl⟩ | ⟨hedge, rfl⟩⟩ := revokeWhitelist_ok.mp h
    · exact Or.inl fun k _ => rfl
    · exact withStatus_cases user hclear hedge fun huser => ⟨huser,rfl⟩
  | _ =>
    left
    intro k hk
    apply commits_unchanged h
    rcases hk with rfl | rfl | rfl <;> simp [Call.writes]

/-! ## Status and approver record -/

omit [DecidableEq Address] in
theorem StatusKept.status_eq (h : StatusKept user l l') :
    getComplianceStatus user l' = getComplianceStatus user l := by
  rw [getComplianceStatus, h _ (by simp [statusKeys]), getComplianceStatus]

omit [DecidableEq Address] in
theorem StatusKept.approver_eq (h : StatusKept user l l') :
    getComplianceApprover user l' = getComplianceApprover user l := by
  rw [getComplianceApprover, h _ (by simp [statusKeys]), getComplianceApprover]

theorem StatusWritten.status_eq (h : StatusWritten signer user status l l') :
    getComplianceStatus user l' = status := by
  rw [getComplianceStatus, h.written _ (by simp [statusKeys]), ← getComplianceStatus,
    getComplianceStatus_withStatus, if_pos rfl]

theorem StatusWritten.approver_eq (h : StatusWritten signer user status l l') :
    getComplianceApprover user l' =
      if status = .approved then some signer else getComplianceApprover user l := by
  rw [getComplianceApprover, h.written _ (by simp [statusKeys]), withStatus]
  by_cases happroved : status = .approved
  · simp [happroved, ComplianceStatus.isApproved]
  · simp [happroved, ComplianceStatus.isApproved, getComplianceApprover]

/-! ## The legacy mirror -/

theorem StatusWritten.mirror_eq (h : StatusWritten signer user status l l') :
    l'.get (.complianceStatus user) = some status ∧
      l'.get (.whitelist user) = if status = .approved then some true else none := by
  rw [h.written _ (by simp [statusKeys]), h.written _ (by simp [statusKeys]), withStatus]
  by_cases happroved : status = .approved
  · simp [happroved, ComplianceStatus.isApproved]
  · simp [happroved, ComplianceStatus.isApproved]

/-- The legacy key holds what older readers take for the verdict. -/
def Mirrored (user : Address) (l : Ledger Address) : Prop :=
  l.get (.whitelist user) =
    if l.get (.complianceStatus user) = some .approved then some true else none

theorem commits_mirrored (hs : Mirrored user env.ledger) (h : Commits Call.body env i env') :
    Mirrored user env'.ledger := by
  rcases commits_status h user with hkept | ⟨status, -, hwritten⟩
  · rw [Mirrored, hkept _ (by simp [statusKeys]), hkept _ (by simp [statusKeys])]
    exact hs
  · obtain ⟨hstatus, hmirror⟩ := hwritten.mirror_eq
    simp only [Mirrored, hstatus, hmirror, Option.some.injEq]

theorem reachable_mirrored (h : Reachable Call.body Env.fresh env) (user : Address) :
    Mirrored user env.ledger := by
  refine h.induct (P := fun s : Env Address => Mirrored user s.ledger) ?_ ?_
  · simp [Mirrored, Env.fresh]
  · intro s i t _ hs hc
    exact commits_mirrored hs hc

theorem mirror_in_step (h : Reachable Call.body Env.fresh env) (user : Address) :
    (env.ledger.get (.whitelist user) = some true ↔
      env.ledger.get (.complianceStatus user) = some .approved) ∧
    (env.ledger.get (.complianceStatus user) ≠ some .approved →
      env.ledger.get (.whitelist user) = none) ∧
    (isWhitelisted user env.ledger = true ↔ env.ledger.get (.whitelist user) = some true) := by
  have hmirror := reachable_mirrored h user
  rw [Mirrored] at hmirror
  have hread : isWhitelisted user env.ledger = true ↔
      env.ledger.get (.complianceStatus user) = some .approved := by
    rw [isWhitelisted_iff, getComplianceStatus]
    cases env.ledger.get (.complianceStatus user) <;> simp
  rw [hread, hmirror]
  by_cases happroved : env.ledger.get (.complianceStatus user) = some .approved
  · simp [happroved]
  · simp [happroved]

theorem mirror_in_step_deployed : deployed.ledger.get (.whitelist 1) = some true :=
  (mirror_in_step ⟨deployment,rfl⟩ 1).1.mpr rfl

end Aegis
