import Aegis.System

/-!
# The pause

All calls but four open with the running check. While the contract is
paused an admin is stored, and only that admin gets anything through: a
change of the asset status other than activation, and the call that lifts
the pause.
-/

set_option autoImplicit false

namespace Aegis
open HostKit

variable {Address : Type}

/-- The calls that open with the running check for all arguments. -/
def Call.RequiresRunning : Call Address → Prop
  | .initializeContract _ | .pause _ | .unpause _ | .setAssetStatus _ _ => False
  | _ => True

/-! ## Refusals -/

section
variable [DecidableEq Address] {env : Env Address} {auth : Auth Address}

theorem paused_governing (hp : isPaused env.ledger = true) (admin : Address) :
    (requireGoverning admin).exec auth env = (.error (.panic .contractPaused), env) :=
  paused_first hp

theorem paused_asserting (hp : isPaused env.ledger = true) (admin : Address) (message : String) :
    (assertGoverning admin message).exec auth env = (.error (.panic .contractPaused), env) :=
  paused_first hp

theorem paused_refuses (hp : isPaused env.ledger = true) {call : Call Address}
    (hcall : call.RequiresRunning) :
    call.body.exec auth env = (.error (.panic .contractPaused), env) := by
  cases call with
  | initializeContract _ | pause _ | unpause _ | setAssetStatus _ _ => cases hcall
  | setRole | removeRole | transferAdmin | renounceAdmin | proposeConfig | acceptConfig
  | cancelConfigProposal | setIssuerSeparationPolicy =>
    exact Host.exec_bind_of_error (paused_governing hp _)
  | proposeSupplyCap | acceptSupplyCap | cancelSupplyCapProposal | proposeHoldingCap
  | acceptHoldingCap | cancelHoldingCapProposal =>
    exact Host.exec_bind_of_error (paused_asserting hp _ _)
  | batchSetComplianceStatus => exact Host.exec_bind_of_error (paused_first hp)
  | _ => exact paused_first hp

end

variable [DecidableEq Address] {env env' : Env Address} {i : Signed Address}

/-! ## What commits while paused -/

/-- One of the two calls an admin has while the contract is paused. -/
def Call.BypassesPause (call : Call Address) : Prop :=
  call = .unpause call.signer ∨
    ∃ newStatus, newStatus ≠ .active ∧ call = .setAssetStatus call.signer newStatus

theorem commits_while_paused (hp : isPaused env.ledger = true)
    (hadmin : env.ledger.get .admin ≠ none) (h : Commits Call.body env i env') :
    IsAdmin i.call.signer env.ledger ∧ i.call.BypassesPause := by
  by_cases hrunning : i.call.RequiresRunning
  · have hrefused : i.call.body.exec i.context env = _ := paused_refuses hp hrunning
    rw [show i.call.body.exec i.context env = _ from h] at hrefused
    cases hrefused
  · obtain ⟨auth, c⟩ := i
    cases c with
    | initializeContract admin => exact absurd (initializeContract_ok.mp h).1 hadmin
    | pause caller =>
      rw [(pause_ok.mp h).2.2.1] at hp
      cases hp
    | unpause caller => exact ⟨(unpause_ok.mp h).2.1,Or.inl rfl⟩
    | setAssetStatus admin newStatus =>
      obtain ⟨hopen, -, hgoverns, -⟩ := setAssetStatus_ok.mp h
      refine ⟨hgoverns,Or.inr ⟨newStatus,fun hactive => ?_,rfl⟩⟩
      rw [hopen hactive] at hp
      cases hp
    | _ => exact absurd trivial hrunning

theorem paused_by_pause (hrun : isPaused env.ledger = false) (hp : isPaused env'.ledger = true)
    (h : Commits Call.body env i env') :
    env.ledger.get .admin ≠ none ∧ env'.ledger.get .admin = env.ledger.get .admin := by
  obtain ⟨auth, c⟩ := i
  cases c with
  | pause caller =>
    obtain ⟨-, ⟨admin, hadmin, -⟩, -, rfl⟩ := pause_ok.mp h
    rw [IsAdmin] at hadmin
    simp [hadmin]
  | unpause caller =>
    rw [(unpause_ok.mp h).2.2.1] at hrun
    cases hrun
  | _ =>
    rw [isPaused, commits_unchanged h (by simp [Call.writes, statusKeys]), ← isPaused, hrun] at hp
    cases hp

/-- Pausing takes an admin, and no admin leaves while paused. -/
theorem paused_has_admin (h : Reachable Call.body Env.fresh env) (hp : isPaused env.ledger = true) :
    env.ledger.get .admin ≠ none := by
  revert hp
  refine h.induct (P := fun s : Env Address => isPaused s.ledger = true →
    s.ledger.get .admin ≠ none) ?_ ?_
  · intro hp
    cases hp
  · intro s i t _ hs hc ht
    cases hp : isPaused s.ledger with
    | false =>
      obtain ⟨hadmin, hsame⟩ := paused_by_pause hp ht hc
      rwa [hsame]
    | true =>
      obtain ⟨-, hunpause | ⟨newStatus, -, hcall⟩⟩ := commits_while_paused hp (hs hp) hc
      · obtain ⟨auth, c⟩ := i
        rw [show c = _ from hunpause] at hc
        obtain ⟨-, -, -, rfl⟩ := unpause_ok.mp hc
        simp [isPaused] at ht
      · rw [commits_unchanged hc (by rw [hcall]; simp [Call.writes])]
        exact hs hp

/-! ## Between a pause and the next unpause -/

/-- Without a committed unpause the run stays paused, and all it can write is
the asset status. -/
theorem frozen_until_unpaused (is : List (Signed Address))
    (h : Reachable Call.body Env.fresh env) (hp : isPaused env.ledger = true)
    (hno : ∀ t ∈ trace Call.body is env, ∀ caller, t.via.call ≠ .unpause caller) :
    Store.AgreeOff {.assetStatus} env.ledger (run Call.body is env).ledger := by
  induction is generalizing env with
  | nil => exact Store.AgreeOff.refl _ _
  | cons i is ih =>
    rcases settle_cases Call.body env i with ⟨hc, htrace⟩ | ⟨hstay, htrace⟩
    · rw [htrace, List.forall_mem_cons] at hno
      obtain ⟨-, hunpause | ⟨newStatus, -, hcall⟩⟩ :=
        commits_while_paused hp (paused_has_admin h hp) hc
      · exact absurd hunpause (hno.1 _)
      · have hframe := commits_frame hc
        rw [hcall] at hframe
        have hsame : isPaused (settle Call.body env i).ledger = isPaused env.ledger :=
          hframe.getD .paused (by simp [Call.writes]) false
        exact hframe.trans (ih (h.commits hc) (hsame.trans hp) hno.2)
    · rw [htrace] at hno
      rw [run, hstay]
      exact ih h hp hno

theorem pause_freezes (h : Reachable Call.body Env.fresh env) (hp : isPaused env.ledger = true) :
    (∃ admin, IsAdmin admin env.ledger ∧ ∀ auth : Auth Address, auth admin = true →
      ∃ env', Commits Call.body env ⟨auth,.unpause admin⟩ env' ∧
        isPaused env'.ledger = false) ∧
    (∀ i env', Commits Call.body env i env' →
      IsAdmin i.call.signer env.ledger ∧ i.context i.call.signer = true ∧
        (i.call = .unpause i.call.signer ∨
          ∃ newStatus, newStatus ≠ .active ∧ i.call = .setAssetStatus i.call.signer newStatus)) ∧
    (∀ (auth : Auth Address) (call : Call Address), call.RequiresRunning →
      call.body.exec auth env = (.error (.panic .contractPaused), env)) ∧
    ∀ is, (∀ t ∈ trace Call.body is env, ∀ caller, t.via.call ≠ .unpause caller) →
      Store.AgreeOff {.assetStatus} env.ledger (run Call.body is env).ledger := by
  have hpresent := paused_has_admin h hp
  refine ⟨?_,fun i env' hc => ?_,fun auth call hcall => paused_refuses hp hcall,
    fun is hno => frozen_until_unpaused is h hp hno⟩
  · obtain ⟨admin, hadmin⟩ := Option.ne_none_iff_exists'.mp hpresent
    refine ⟨admin,hadmin,fun auth hauth => ?_⟩
    exact ⟨_,unpause_ok.mpr ⟨hauth,hadmin,hp,rfl⟩,by simp [isPaused]⟩
  · obtain ⟨hadmin, hbypass⟩ := commits_while_paused hp hpresent hc
    exact ⟨hadmin,signer_authorised hc,hbypass⟩

/-- The deployment, paused by its admin. -/
def suspended : Env ℕ := run Call.body [⟨fun a => a = 0,.pause 0⟩] deployed

theorem pause_freezes_suspended :
    (Call.mintAsset 0 1 ⟨5,by decide,by decide⟩).body.exec (fun a => a = 0) suspended =
      (.error (.panic .contractPaused), suspended) :=
  (pause_freezes ⟨deployment++[⟨fun a => a = 0,.pause 0⟩],rfl⟩ rfl).2.2.1 _
    (.mintAsset 0 1 _) trivial

end Aegis
