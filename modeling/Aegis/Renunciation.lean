import Aegis.Duties
import Aegis.Initialization
import Aegis.PauseFreeze

/-!
# Without an admin

Before initialisation and after renunciation no admin key is stored. Every
check of authority looks that key up, so a role survives its admin in the
table alone. Two calls end before the lookup: an acceptance by anybody but
the stored candidate, and a batch without entries, which commits.
-/

set_option autoImplicit false

namespace Aegis
open HostKit

variable {Address : Type}

/-- The calls that ask for a role, or for the authority to change a status. -/
def Call.RoleGated : Call Address → Prop
  | .mintAsset _ _ _ | .distributeYield _ _ | .updateAssetMetadata _ _ _ _ | .pause _
  | .setComplianceStatus _ _ _ | .batchSetComplianceStatus _ _ | .whitelistUser _ _
  | .revokeWhitelist _ _ => True
  | _ => False

/-- The calls that are not open to everybody. -/
def Call.Privileged : Call Address → Prop
  | .initializeContract _ | .transfer _ _ _ => False
  | _ => True

/-- The call does not end before it looks up the admin key. -/
def Call.LooksUpAdmin (l : Ledger Address) : Call Address → Prop
  | .acceptAdmin candidate => l.get .adminCandidate = some candidate
  | .batchSetComplianceStatus _ updates => updates ≠ []
  | _ => True

variable [DecidableEq Address] {env env' : Env Address} {i : Signed Address}

/-! ## Roles after renunciation -/

theorem renounced_without_admin {auth : Auth Address} {admin : Address}
    (h : Commits Call.body env ⟨auth,.renounceAdmin admin⟩ env') :
    env'.ledger.get .admin = none ∧ isPaused env'.ledger = false := by
  obtain ⟨⟨hrun, -, -⟩, rfl⟩ := renounceAdmin_ok.mp h
  rw [isPaused] at hrun
  simp [isPaused, hrun]

theorem empty_batch_commits (hrun : isPaused env.ledger = false) {auth : Auth Address}
    {caller : Address} (hauth : auth caller = true) :
    Commits Call.body env ⟨auth,.batchSetComplianceStatus caller []⟩ env := by
  apply batch_commits.mpr
  refine ⟨hrun,hauth,⟨List.nodup_nil,by simp⟩,?_⟩
  simp [withUpdates]

/-- Of the calls that ask for a role only the empty batch outlives the admin. -/
theorem role_gated_without_admin (hnone : env.ledger.get .admin = none)
    (hgated : i.call.RoleGated) (h : Commits Call.body env i env') :
    ∃ caller, i.call = .batchSetComplianceStatus caller [] := by
  rcases commits_without_admin hnone h with hinit | ⟨sender, recipient, amount, hcall⟩ | ⟨hempty, -⟩
  · obtain ⟨auth, c⟩ := i
    cases c with
    | initializeContract admin => cases hgated
    | _ => cases hinit
  · rw [hcall] at hgated
    cases hgated
  · exact hempty

theorem renunciation_keeps_iff {auth : Auth Address} {admin : Address}
    (hrenounce : Commits Call.body env ⟨auth,.renounceAdmin admin⟩ env')
    (hgated : i.call.RoleGated) (hcommits : ∃ t, Commits Call.body env i t) :
    (∃ t, Commits Call.body env' i t) ↔ ∃ caller, i.call = .batchSetComplianceStatus caller [] := by
  obtain ⟨hnone, hrun⟩ := renounced_without_admin hrenounce
  constructor
  · rintro ⟨t, h⟩
    exact role_gated_without_admin hnone hgated h
  · rintro ⟨caller, hcall⟩
    obtain ⟨s, hs⟩ := hcommits
    have hauth := signer_authorised hs
    obtain ⟨context, c⟩ := i
    cases hcall
    exact ⟨env',empty_batch_commits hrun hauth⟩

/-- The deployment with an asset manager beside its admin. -/
def managed : Env ℕ := run Call.body [⟨fun a => a = 0,.setRole 0 3 .assetManager⟩] deployed

/-- The same once its admin has renounced. -/
def orphaned : Env ℕ := run Call.body [⟨fun a => a = 0,.renounceAdmin 0⟩] managed

theorem renunciation_keeps_orphaned :
    (∃ t, Commits Call.body orphaned ⟨fun a => a = 3,.batchSetComplianceStatus 3 []⟩ t) ↔
      ∃ caller : ℕ, Call.batchSetComplianceStatus 3 [] = .batchSetComplianceStatus caller [] := by
  have hrenounce : Commits Call.body managed ⟨fun a => a = 0,.renounceAdmin 0⟩ orphaned := rfl
  exact renunciation_keeps_iff hrenounce trivial ⟨managed,empty_batch_commits rfl rfl⟩

/-- Nobody but the admin loses a call by the renunciation. -/
def KeepsDelegates (admin : Address) (env env' : Env Address) : Prop :=
  ∀ i, i.call.RoleGated → i.call.signer ≠ admin → (∃ t, Commits Call.body env i t) →
    ∃ t, Commits Call.body env' i t

/-- The manager mints until the admin renounces, and never again. -/
theorem manager_stranded :
    Reachable Call.body Env.fresh managed ∧
      Commits Call.body managed ⟨fun a => a = 0,.renounceAdmin 0⟩ orphaned ∧
      getRole 3 orphaned.ledger = .assetManager ∧ ¬KeepsDelegates 0 managed orphaned := by
  refine ⟨⟨deployment++[⟨fun a => a = 0,.setRole 0 3 .assetManager⟩],rfl⟩,rfl,rfl,fun h => ?_⟩
  have hmint : ∃ t, Commits Call.body managed
      ⟨fun a => a = 3,.mintAsset 3 1 ⟨2,by decide,by decide⟩⟩ t := ⟨_,rfl⟩
  obtain ⟨t, ht⟩ := h ⟨fun a => a = 3,.mintAsset 3 1 ⟨2,by decide,by decide⟩⟩ trivial (by decide)
    hmint
  cases ht

/-! ## Refusals without an admin -/

section
variable {auth : Auth Address} {α : Type} {f : Failure}

omit [DecidableEq Address]

/-- What refuses past the running check and the authentication refuses. -/
theorem opened_refuses {caller : Address} {rest : Unit → Contract Address α}
    (hrun : isPaused env.ledger = false) (hauth : auth caller = true)
    (h : (rest ()).exec auth env = (.error f, env)) :
    (check requireNotPaused >>= fun _ => requireAuth caller >>= rest).exec auth env =
      (.error f, env) := by
  rw [exec_opened hrun hauth]
  exact h

variable [DecidableEq Address]

theorem governing_refuses (hrun : isPaused env.ledger = false) {admin : Address}
    (hauth : auth admin = true) (hnone : getAdmin env.ledger = .error f) :
    (requireGoverning admin).exec auth env = (.error f, env) :=
  opened_refuses hrun hauth (guard_refuses hnone)

theorem asserting_refuses (hrun : isPaused env.ledger = false) {admin : Address}
    (hauth : auth admin = true) (hnone : getAdmin env.ledger = .error f) (message : String) :
    (assertGoverning admin message).exec auth env = (.error f, env) :=
  opened_refuses hrun hauth (guard_refuses hnone)

theorem role_refuses (hnone : env.ledger.get .admin = none) (caller : Address) (required : Role) :
    requireRole caller required env.ledger = .error (.panic .notInitialized) :=
  (no_admin_no_duty hnone caller).2.2.1 required

theorem transition_refuses (hrun : isPaused env.ledger = false)
    (hnone : env.ledger.get .admin = none) (caller user : Address) (newStatus : ComplianceStatus) :
    validateTransition caller user newStatus env.ledger = .error (.panic .notInitialized) := by
  have hguard := (no_admin_no_duty hnone caller).2.1 (getComplianceStatus user env.ledger)
  have hverdict : evaluateFromStatus caller (getComplianceStatus user env.ledger) newStatus
      env.ledger = .notInitialized := by
    rw [evaluateFromStatus, hrun, hguard]
    rfl
  apply guard_bind_of_error
  rw [requireTransition, hverdict]
  rfl

theorem authority_refuses (hnone : env.ledger.get .admin = none) (caller : Address)
    (current : ComplianceStatus) :
    requireTransitionAuthority caller current env.ledger = .error (.panic .notInitialized) := by
  rw [requireTransitionAuthority, (no_admin_no_duty hnone caller).2.1 current]
  rfl

theorem updates_refuse (hrun : isPaused env.ledger = false)
    (hnone : env.ledger.get .admin = none) (caller : Address)
    {updates : List (ComplianceBatchUpdate Address)} (hne : updates ≠ []) :
    validateUpdates caller [] updates env.ledger = .error (.panic .notInitialized) :=
  validateUpdates_refused hne (transition_refuses hrun hnone caller)

end

/-! ## Every privileged call -/

theorem refuses_without_admin (hrun : isPaused env.ledger = false)
    (hnone : env.ledger.get .admin = none) {auth : Auth Address} {call : Call Address}
    (hprivileged : call.Privileged) (hauth : auth call.signer = true)
    (hlooks : call.LooksUpAdmin env.ledger) :
    call.body.exec auth env = (.error (.panic .notInitialized), env) := by
  have hadmin : getAdmin env.ledger = .error (.panic .notInitialized) := by rw [getAdmin, hnone]
  cases call with
  | initializeContract _ | transfer _ _ _ => cases hprivileged
  | setRole | removeRole | transferAdmin | renounceAdmin | proposeConfig | acceptConfig
  | cancelConfigProposal | setIssuerSeparationPolicy =>
    exact Host.exec_bind_of_error (governing_refuses hrun hauth hadmin)
  | proposeSupplyCap | acceptSupplyCap | cancelSupplyCapProposal | proposeHoldingCap
  | acceptHoldingCap | cancelHoldingCapProposal =>
    exact Host.exec_bind_of_error (asserting_refuses hrun hauth hadmin _)
  | mintAsset | distributeYield | updateAssetMetadata =>
    exact opened_refuses hrun hauth (guard_refuses (role_refuses hnone _ _))
  | pause caller =>
    exact (exec_signed hauth).trans (guard_refuses (role_refuses hnone _ _))
  | unpause caller => exact (exec_signed hauth).trans (guard_refuses hadmin)
  | setComplianceStatus caller user newStatus =>
    exact opened_refuses hrun hauth (guard_refuses (transition_refuses hrun hnone _ _ _))
  | batchSetComplianceStatus caller updates =>
    exact Host.exec_bind_of_error
      (opened_refuses hrun hauth (guard_refuses (updates_refuse hrun hnone _ hlooks)))
  | whitelistUser admin user =>
    exact opened_refuses hrun hauth ((Host.exec_bind_of_ok (exec_load _)).trans
      (guard_refuses (authority_refuses hnone _ _)))
  | revokeWhitelist admin user =>
    exact opened_refuses hrun hauth ((Host.exec_bind_of_ok (exec_load _)).trans
      (guard_refuses (authority_refuses hnone _ _)))
  | setAssetStatus admin newStatus =>
    have hopen : (check fun l : Ledger Address =>
        if newStatus = .active then requireNotPaused l else .ok ()).exec auth env =
          (.ok (), env) := by
      by_cases hactive : newStatus = .active <;> simp [hactive, hrun]
    exact (Host.exec_bind_of_ok hopen).trans
      ((exec_signed hauth).trans (guard_refuses hadmin))
  | acceptAdmin candidate =>
    have hstored : (getOr (·.get .adminCandidate) (.err .noPendingAdminTransfer)).exec auth env =
        (.ok candidate, env) := getOr_ok.mpr ⟨hlooks,rfl⟩
    have hself : (errWhen (candidate ≠ candidate) .notPendingCandidate).exec auth env =
        (.ok (), env) := by simp
    exact opened_refuses hrun hauth ((Host.exec_bind_of_ok hstored).trans
      ((Host.exec_bind_of_ok hself).trans (guard_refuses hadmin)))

/-- Anybody but the stored candidate is refused before the admin is looked up. -/
theorem acceptance_refuses (hrun : isPaused env.ledger = false) {auth : Auth Address}
    {candidate : Address} (hauth : auth candidate = true)
    (hother : env.ledger.get .adminCandidate ≠ some candidate) :
    ∃ e, (acceptAdmin candidate).exec auth env = (.error (.err e), env) ∧ e ≠ .notInitialized := by
  cases hstored : env.ledger.get .adminCandidate with
  | none =>
    refine ⟨.noPendingAdminTransfer,opened_refuses hrun hauth ?_,by decide⟩
    apply guard_refuses
    simp only [hstored]
  | some stored =>
    have hread : (getOr (·.get .adminCandidate) (.err .noPendingAdminTransfer)).exec auth env =
        (.ok stored, env) := getOr_ok.mpr ⟨hstored,rfl⟩
    have hne : candidate ≠ stored := by
      rintro rfl
      exact hother hstored
    refine ⟨.notPendingCandidate,opened_refuses hrun hauth ?_,by decide⟩
    apply (Host.exec_bind_of_ok hread).trans
    apply Host.exec_bind_of_error
    rw [exec_errWhen, if_pos hne]

theorem uninitialized_refuses_iff (h : Reachable Call.body Env.fresh env)
    (hnone : env.ledger.get .admin = none) (hprivileged : i.call.Privileged)
    (hauth : i.context i.call.signer = true) :
    (∃ f, i.call.body.exec i.context env = (.error f, env) ∧ f.error = some .notInitialized) ↔
      i.call.LooksUpAdmin env.ledger := by
  have hrun : isPaused env.ledger = false := by
    by_contra hpaused
    exact paused_has_admin h (Bool.not_eq_false _ ▸ hpaused) hnone
  constructor
  · rintro ⟨f, hexec, hf⟩
    obtain ⟨auth, c⟩ := i
    cases c with
    | acceptAdmin candidate =>
      by_contra hother
      obtain ⟨e, hrefused, he⟩ := acceptance_refuses hrun hauth hother
      cases hexec.symm.trans hrefused
      exact he (Option.some.inj hf)
    | batchSetComplianceStatus caller updates =>
      rintro rfl
      have hcommits : Commits Call.body env ⟨auth,.batchSetComplianceStatus caller []⟩ env :=
        empty_batch_commits hrun hauth
      cases hexec.symm.trans hcommits
    | _ => trivial
  · intro hlooks
    exact ⟨_,refuses_without_admin hrun hnone hprivileged hauth hlooks,rfl⟩

theorem uninitialized_refuses_fresh :
    ∃ f, (pause 0).exec (fun a => a = 0) (Env.fresh : Env ℕ) = (.error f, Env.fresh) ∧
      f.error = some .notInitialized := by
  have hnone : (Env.fresh : Env ℕ).ledger.get .admin = none := rfl
  exact (uninitialized_refuses_iff (i := ⟨fun a => a = 0,.pause 0⟩) (Reachable.refl _) hnone
    trivial rfl).mpr trivial

/-- Without an admin every privileged call fails as on an uninitialised contract. -/
def RefusesUniformly (env : Env Address) : Prop :=
  ∀ i : Signed Address, i.call.Privileged → i.context i.call.signer = true →
    ∃ f, i.call.body.exec i.context env = (.error f, env) ∧ f.error = some .notInitialized

/-- On the empty ledger a batch without entries commits, and an acceptance
fails for want of a nomination. -/
theorem fresh_not_uniform :
    Commits Call.body (Env.fresh : Env ℕ) ⟨fun a => a = 0,.batchSetComplianceStatus 0 []⟩
        Env.fresh ∧
      ¬RefusesUniformly (Env.fresh : Env ℕ) := by
  refine ⟨rfl,fun h => ?_⟩
  obtain ⟨f, hexec, hf⟩ := h ⟨fun a => a = 0,.acceptAdmin 0⟩ trivial rfl
  cases hexec
  cases hf

end Aegis
