import Aegis.Recovery

/-!
# The life of an asset

Which statuses the asset can come to, in any number of calls and while the
contract stays paused. All paths lead through activation, so a blocked asset
is not retired without it, and a paused contract keeps the admin from
retiring a blocked asset or a draft.
-/

set_option autoImplicit false

namespace Aegis
open HostKit

variable {Address : Type}

variable [DecidableEq Address] {env env' : Env Address} {i : Signed Address}
  {admin : Address} {target : AssetStatus}

/-! ## One call -/

/-- The one way to another status: the admin takes an edge, and to activate
the contract must run. -/
structure StatusMoved (i : Signed Address) (env env' : Env Address) : Prop where
  signed : IsAdmin i.call.signer env.ledger
  requested : i.call = .setAssetStatus i.call.signer (getAssetStatus env'.ledger)
  edge : isValidTransition (getAssetStatus env.ledger) (getAssetStatus env'.ledger) = true
  running : getAssetStatus env'.ledger = .active → isPaused env.ledger = false

theorem commits_assetStatus (h : Commits Call.body env i env') :
    getAssetStatus env'.ledger = getAssetStatus env.ledger ∨ StatusMoved i env env' := by
  obtain ⟨auth, c⟩ := i
  cases c with
  | setAssetStatus admin newStatus =>
    obtain ⟨hrun, -, hadmin, hedge, rfl⟩ := setAssetStatus_ok.mp h
    have hnew : getAssetStatus (env.ledger.set .assetStatus newStatus) = newStatus := by
      simp [getAssetStatus]
    refine Or.inr ⟨hadmin,?_,?_,?_⟩
    · exact congrArg (Call.setAssetStatus admin) hnew.symm
    · exact hnew.symm ▸ hedge
    · exact fun hactive => hrun (hnew.symm.trans hactive)
  | _ =>
    left
    rw [getAssetStatus, commits_unchanged h (by simp [Call.writes, statusKeys]), getAssetStatus]

/-! ## Any number of calls -/

theorem path_through_activation {current : AssetStatus} (hret : current ≠ .retired)
    (htarget : target ≠ .draft) :
    Relation.ReflTransGen (fun s s' => isValidTransition s s' = true) current target := by
  have hin : Relation.ReflTransGen (fun s s' => isValidTransition s s' = true) current .active := by
    cases current with
    | active => exact .refl
    | retired => exact absurd rfl hret
    | _ => exact .single rfl
  cases target with
  | draft => exact absurd rfl htarget
  | active => exact hin
  | _ => exact hin.tail rfl

/-- Nothing leads back to a draft or out of retirement. -/
theorem path_confined {current : AssetStatus}
    (h : Relation.ReflTransGen (fun s s' => isValidTransition s s' = true) current target) :
    target = current ∨ current ≠ .retired ∧ target ≠ .draft := by
  induction h with
  | refl => exact Or.inl rfl
  | @tail mid last _ hedge ih =>
    have hdraft : last ≠ .draft := by
      rintro rfl
      cases mid <;> cases hedge
    have hmid : mid ≠ .retired := by
      rintro rfl
      rw [no_way_out] at hedge
      cases hedge
    right
    rcases ih with rfl | ⟨hret, -⟩
    · exact ⟨hmid,hdraft⟩
    · exact ⟨hret,hdraft⟩

theorem recovers_status (hgoverns : Governs (sole admin) admin env.ledger)
    (hedge : isValidTransition (getAssetStatus env.ledger) target = true) :
    ∃ env', Recovers admin {.assetStatus} env env' ∧ getAssetStatus env'.ledger = target := by
  obtain ⟨hrun, hauth, hadmin⟩ := hgoverns
  have hc : Commits Call.body env ⟨sole admin,.setAssetStatus admin target⟩ _ :=
    setAssetStatus_ok.mpr ⟨fun _ => hrun,hauth,hadmin,hedge,rfl⟩
  exact ⟨_,Recovers.of_commits hc rfl (Set.Subset.refl _),by simp [getAssetStatus]⟩

/-- The statuses the admin can bring the asset to are those anybody's calls
ever can, and of these all but the draft, unless the asset is retired. -/
theorem asset_statuses_iff (hadmin : IsAdmin admin env.ledger) (target : AssetStatus) :
    (AdminReaches admin env (fun env' => getAssetStatus env'.ledger = target) ↔
      target = getAssetStatus env.ledger ∨
        getAssetStatus env.ledger ≠ .retired ∧ target ≠ .draft) ∧
    ((∃ is, getAssetStatus (run Call.body is env).ledger = target) ↔
      target = getAssetStatus env.ledger ∨
        getAssetStatus env.ledger ≠ .retired ∧ target ≠ .draft) := by
  have hconfined : (∃ is, getAssetStatus (run Call.body is env).ledger = target) →
      target = getAssetStatus env.ledger ∨
        getAssetStatus env.ledger ≠ .retired ∧ target ≠ .draft := by
    rintro ⟨is, rfl⟩
    apply path_confined
    apply Steers.confined (K := fun _ : Signed Address => True) (P := fun _ => True)
      (f := fun s : Env Address => getAssetStatus s.ledger) _ trivial
      (steers_run (fun _ _ => trivial) env)
    intro s i t _ _ hc
    exact ⟨trivial,(commits_assetStatus hc).imp_right StatusMoved.edge⟩
  have hattained : target = getAssetStatus env.ledger ∨
      getAssetStatus env.ledger ≠ .retired ∧ target ≠ .draft →
      AdminReaches admin env fun env' => getAssetStatus env'.ledger = target := by
    rintro (rfl | ⟨hret, htarget⟩)
    · exact AdminReaches.of_steers (Steers.refl env) rfl
    obtain ⟨env₁, hrunning, hgoverns⟩ := recovers_running hadmin
    have hret₁ : getAssetStatus env₁.ledger ≠ .retired := by
      rwa [getAssetStatus, hrunning.frame _ (by simp)]
    obtain ⟨env₂, hsteers, -, hreached⟩ := Steers.along (K := SignedBy admin)
      (P := fun s : Env Address => Governs (sole admin) admin s.ledger)
      (f := fun s => getAssetStatus s.ledger) (by
        intro s w hs hedge
        obtain ⟨t, ht, hstatus⟩ := recovers_status hs hedge
        exact ⟨t,ht.steers,ht.governs (by simp) (by simp) hs,hstatus⟩)
      hgoverns (path_through_activation hret₁ htarget)
    exact AdminReaches.of_steers (hrunning.steers.trans hsteers) hreached
  refine ⟨⟨fun h => ?_,hattained⟩,hconfined,fun h => ?_⟩
  · obtain ⟨is, -, -, hreached⟩ := h
    exact hconfined ⟨is,hreached⟩
  · obtain ⟨is, -, -, hreached⟩ := hattained h
    exact ⟨is,hreached⟩

theorem asset_statuses_suspended :
    AdminReaches 0 suspended fun env' => getAssetStatus env'.ledger = .blocked :=
  (asset_statuses_iff (show IsAdmin 0 suspended.ledger from rfl) .blocked).1.mpr
    (Or.inr (by decide))

theorem unblocked_activates (is : List (Signed Address)) {env : Env Address}
    (hblocked : getAssetStatus env.ledger = .blocked)
    (hleft : getAssetStatus (run Call.body is env).ledger ≠ .blocked) :
    ∃ t ∈ trace Call.body is env, getAssetStatus t.pre.ledger = .blocked ∧
      getAssetStatus t.post.ledger = .active ∧ isPaused t.pre.ledger = false ∧
      IsAdmin t.via.call.signer t.pre.ledger := by
  obtain ⟨t, hmem, hpre, hpost⟩ := exists_leaving
    (P := fun s : Env Address => getAssetStatus s.ledger = .blocked) is hblocked hleft
  have hmoved := (commits_assetStatus (mem_trace hmem).2).resolve_left fun hsame =>
    hpost (hsame.trans hpre)
  have hactive : getAssetStatus t.post.ledger = .active := by
    have hedge := hmoved.edge
    rw [hpre] at hedge
    cases hstatus : getAssetStatus t.post.ledger <;> rw [hstatus] at hedge <;> cases hedge
  exact ⟨t,hmem,hpre,hactive,hmoved.running hactive,hmoved.signed⟩

/-! ## While the contract stays paused -/

/-- The edges that do not activate. -/
def PausedEdge (current next : AssetStatus) : Prop :=
  isValidTransition current next = true ∧ next ≠ .active

/-- What an incident leaves within reach: lockdown and retirement of an asset
that was active or paused, and nothing for a blocked one or a draft. -/
def PausedReach : AssetStatus → AssetStatus → Prop
  | .active, next => next ≠ .draft
  | .paused, next => next = .paused ∨ next = .retired ∨ next = .blocked
  | current, next => next = current

theorem pausedReach_iff {current : AssetStatus} :
    Relation.ReflTransGen PausedEdge current target ↔ PausedReach current target := by
  constructor
  · intro h
    induction h with
    | refl => cases current <;> simp [PausedReach]
    | @tail mid last _ hedge ih =>
      obtain ⟨hedge, hne⟩ := hedge
      cases current <;> cases mid <;> cases last <;> simp_all [PausedReach, isValidTransition]
  · intro h
    by_cases hsame : target = current
    · exact hsame ▸ .refl
    · apply Relation.ReflTransGen.single
      cases current <;> cases target <;> simp_all [PausedReach, PausedEdge, isValidTransition]

/-- No unpause is among the calls. -/
def KeepsPause (i : Signed Address) : Prop := ∀ caller, i.call ≠ .unpause caller

theorem paused_edge (hp : isPaused env.ledger = true) (hadmin : IsAdmin admin env.ledger)
    (hi : KeepsPause i) (hc : Commits Call.body env i env') :
    (isPaused env'.ledger = true ∧ IsAdmin admin env'.ledger) ∧
      (getAssetStatus env'.ledger = getAssetStatus env.ledger ∨
        PausedEdge (getAssetStatus env.ledger) (getAssetStatus env'.ledger)) := by
  have hseat : env.ledger.get .admin ≠ none := Option.ne_none_iff_exists'.mpr ⟨admin,hadmin⟩
  obtain ⟨-, hunpause | ⟨newStatus, -, hcall⟩⟩ := commits_while_paused hp hseat hc
  · exact absurd hunpause (hi _)
  · have hframe := commits_frame hc
    rw [hcall] at hframe
    refine ⟨⟨?_,?_⟩,(commits_assetStatus hc).imp_right fun hmoved => ⟨hmoved.edge,?_⟩⟩
    · exact (hframe.getD .paused (by simp [Call.writes]) false).trans hp
    · exact (hframe .admin (by simp [Call.writes])).trans hadmin
    · intro hactive
      have hrun := hmoved.running hactive
      rw [hp] at hrun
      cases hrun

theorem pausedReach_commits (hadmin : IsAdmin admin env.ledger)
    (hreach : PausedReach (getAssetStatus env.ledger) target)
    (hne : target ≠ getAssetStatus env.ledger) :
    ∃ env', Commits Call.body env ⟨sole admin,.setAssetStatus admin target⟩ env' ∧
      getAssetStatus env'.ledger = target := by
  have hedge : PausedEdge (getAssetStatus env.ledger) target := by
    cases hcurrent : getAssetStatus env.ledger <;> cases target <;>
      simp_all [PausedReach, PausedEdge, isValidTransition]
  have hc : Commits Call.body env ⟨sole admin,.setAssetStatus admin target⟩ _ :=
    setAssetStatus_ok.mpr
      ⟨fun hactive => absurd hactive hedge.2,sole_self admin,hadmin,hedge.1,rfl⟩
  exact ⟨_,hc,by simp [getAssetStatus]⟩

/-- What the asset of a paused contract with an admin can come to while the pause
lasts; and in any run from any state a blocked asset leaves that status by an
activation of the admin, made while the contract runs. -/
theorem paused_statuses_iff (env : Env Address) :
    (isPaused env.ledger = true → ∀ admin, IsAdmin admin env.ledger → ∀ target,
      ((∃ is, (∀ i ∈ is, KeepsPause i) ∧
          getAssetStatus (run Call.body is env).ledger = target) ↔
        PausedReach (getAssetStatus env.ledger) target)) ∧
    ∀ is, getAssetStatus env.ledger = .blocked →
      getAssetStatus (run Call.body is env).ledger ≠ .blocked →
      ∃ t ∈ trace Call.body is env, getAssetStatus t.pre.ledger = .blocked ∧
        getAssetStatus t.post.ledger = .active ∧ isPaused t.pre.ledger = false ∧
        IsAdmin t.via.call.signer t.pre.ledger := by
  refine ⟨fun hp admin hadmin target => ⟨?_,fun hreach => ?_⟩,fun is hblocked hleft => ?_⟩
  · rintro ⟨is, his, rfl⟩
    apply pausedReach_iff.mp
    apply Steers.confined (f := fun s : Env Address => getAssetStatus s.ledger)
      (P := fun s => isPaused s.ledger = true ∧ IsAdmin admin s.ledger) _ ⟨hp,hadmin⟩
      (steers_run his env)
    intro s i t hs hi hc
    exact paused_edge hs.1 hs.2 hi hc
  · by_cases hsame : target = getAssetStatus env.ledger
    · exact ⟨[],by simp,hsame.symm⟩
    · obtain ⟨env', hc, hreached⟩ := pausedReach_commits hadmin hreach hsame
      refine ⟨[⟨sole admin,.setAssetStatus admin target⟩],by simp [KeepsPause],?_⟩
      rw [run, run, settle_of_commits hc]
      exact hreached
  · exact unblocked_activates is hblocked hleft

def locked : Env ℕ := run Call.body [⟨fun a => a = 0,.setAssetStatus 0 .blocked⟩] deployed

/-- The suspended deployment can still be retired; the blocked one is activated. -/
theorem paused_statuses_suspended :
    (∃ is, (∀ i ∈ is, KeepsPause i) ∧
      getAssetStatus (run Call.body is suspended).ledger = .retired) ∧
    ∃ t ∈ trace Call.body [⟨fun a => a = 0,.setAssetStatus 0 .active⟩] locked,
      getAssetStatus t.pre.ledger = .blocked ∧ getAssetStatus t.post.ledger = .active ∧
        isPaused t.pre.ledger = false ∧ IsAdmin t.via.call.signer t.pre.ledger := by
  have hp : isPaused suspended.ledger = true := rfl
  constructor
  · exact ((paused_statuses_iff suspended).1 hp 0 rfl .retired).mpr
      (by simp [show getAssetStatus suspended.ledger = .active from rfl, PausedReach])
  · exact (paused_statuses_iff locked).2 _ rfl (by decide)

end Aegis
