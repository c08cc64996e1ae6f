import Aegis.Coalition
import Aegis.ComplianceLifecycle
import Aegis.PauseFreeze
import Aegis.Recovery

/-!
# Transitions of an investor

The read that lists the next statuses of an investor is exact, and so is
what anybody can bring an investor to in many steps: the admin to every
status but the initial one, and an excluded group to the same unless the
investor is blocked, the contract is paused, or no member has a compliance
role.
-/

set_option autoImplicit false

namespace Aegis
open HostKit

variable {Address : Type}

/-! ## The listed transitions -/

theorem mem_allowedTransitions {current next : ComplianceStatus} :
    next ∈ allowedTransitions current ↔ transitionIsAllowed current next = true := by
  cases next <;> simp [allowedTransitions]

theorem allowedTransitions_nodup (current : ComplianceStatus) :
    (allowedTransitions current).Nodup :=
  List.Nodup.filter _ (by decide)

variable [DecidableEq Address] {env env' : Env Address} {S : Set Address} {c user : Address}
  {next target : ComplianceStatus}

/-- Whoever may clear a user commits any edge out of the user's status. -/
theorem edge_commits (hrun : isPaused env.ledger = false)
    (hclear : MayClear c (getComplianceStatus user env.ledger) env.ledger)
    (hedge : transitionIsAllowed (getComplianceStatus user env.ledger) next = true) :
    ∃ env', Commits Call.body env ⟨sole c,.setComplianceStatus c user next⟩ env' ∧
      getComplianceStatus user env'.ledger = next ∧
      Store.AgreeOff (statusKeys user) env.ledger env'.ledger := by
  have hc : Commits Call.body env ⟨sole c,.setComplianceStatus c user next⟩ _ :=
    setComplianceStatus_ok.mpr
      ⟨sole_self c,evaluateTransition_allowed.mpr ⟨hrun,hclear,hedge⟩,rfl⟩
  refine ⟨_,hc,?_,commits_frame hc⟩
  rw [getComplianceStatus_withStatus, if_pos rfl]

/-- The listed statuses of a user are the ones a call can move the user to, and
whoever has the authority can commit each of them. -/
theorem allowed_transitions_exact (env : Env Address) (user : Address) :
    (getAllowedTransitionsFor user env.ledger).Nodup ∧
    (∀ i env', Commits Call.body env i env' →
      getComplianceStatus user env'.ledger ≠ getComplianceStatus user env.ledger →
      getComplianceStatus user env'.ledger ∈ getAllowedTransitionsFor user env.ledger) ∧
    (isPaused env.ledger = false → ∀ caller,
      MayClear caller (getComplianceStatus user env.ledger) env.ledger → ∀ next,
        (next ∈ getAllowedTransitionsFor user env.ledger ↔ ∃ env',
          Commits Call.body env ⟨sole caller,.setComplianceStatus caller user next⟩ env')) := by
  refine ⟨allowedTransitions_nodup _,fun i env' hc hne => ?_,fun hrun caller hclear next => ?_⟩
  · obtain ⟨-, hedge⟩ := (commits_moves hc user).resolve_left hne
    exact mem_allowedTransitions.mpr ((transitionIsAllowed_iff _ _).mpr hedge)
  · rw [getAllowedTransitionsFor, mem_allowedTransitions]
    constructor
    · intro hedge
      obtain ⟨env', hc, -⟩ := edge_commits hrun hclear hedge
      exact ⟨env',hc⟩
    · rintro ⟨env', hc⟩
      exact (evaluateTransition_allowed.mp (setComplianceStatus_ok.mp hc).2.1).2.2

/-! ## Paths through the matrix -/

/-- The edges that do not lift a block. -/
def FreeEdge (current next : ComplianceStatus) : Prop :=
  current ≠ .blocked ∧ transitionIsAllowed current next = true

/-- Review is one edge away from everywhere, and from review everything but
the initial status. -/
theorem path_through_review {current : ComplianceStatus} (hcurrent : current ≠ .blocked)
    (htarget : target ≠ .unknown) : Relation.ReflTransGen FreeEdge current target := by
  have hin : Relation.ReflTransGen FreeEdge current .pending := by
    cases current with
    | pending => exact .refl
    | _ => exact .single ⟨hcurrent,rfl⟩
  have hreview : ComplianceStatus.pending ≠ .blocked := by decide
  cases target with
  | unknown => exact absurd rfl htarget
  | pending => exact hin
  | _ => exact hin.tail ⟨hreview,rfl⟩

/-! ## By an excluded group -/

/-- A member that can clear every user who is not blocked, while the contract
runs. -/
structure Clearing (c : Address) (l : Ledger Address) : Prop where
  running : isPaused l = false
  entitled : ∀ status, status ≠ .blocked → MayClear c status l

omit [DecidableEq Address] in
theorem Clearing.of_frame {l l' : Ledger Address} (h : Clearing c l)
    (hframe : Store.AgreeOff (statusKeys user) l l') : Clearing c l' := by
  have hadmin : l'.get .admin = l.get .admin := hframe _ (by simp [statusKeys])
  have hrole : getRole c l' = getRole c l := hframe.getD (.role c) (by simp [statusKeys]) .none
  constructor
  · exact (hframe.getD .paused (by simp [statusKeys]) false).trans h.running
  · intro status hfree
    obtain ⟨admin, hseated, hwho⟩ := h.entitled status hfree
    exact ⟨admin,hadmin.trans hseated,hrole ▸ hwho⟩

/-- While the contract is paused an excluded group commits nothing. -/
theorem excluded_paused (h : Excluded S env.ledger) (hp : isPaused env.ledger = true)
    {i : Signed Address} (hi : Within S i) : ¬Commits Call.body env i env' := by
  intro hc
  have hseat : env.ledger.get .admin ≠ none := by
    obtain ⟨admin, hadmin, -⟩ := h.seated
    exact Option.ne_none_iff_exists'.mpr ⟨admin,hadmin⟩
  exact h.not_admin (signer_within hi hc) (commits_while_paused hp hseat hc).1

theorem excluded_idle (h : Excluded S env.ledger) (hp : isPaused env.ledger = true)
    {is : List (Signed Address)} (his : ∀ i ∈ is, Within S i) : run Call.body is env = env := by
  apply EachStep.preserves (C := fun _ i => Within S i) (P := fun s : Env Address => s = env)
    _ is (eachStep_of_mem his env) rfl
  rintro s i t hi rfl hc
  exact absurd hc (excluded_paused h hp hi)

theorem excluded_changes (h : Excluded S env.ledger) {is : List (Signed Address)}
    (his : ∀ i ∈ is, Within S i)
    (hne : getComplianceStatus user (run Call.body is env).ledger ≠
      getComplianceStatus user env.ledger) :
    getComplianceStatus user env.ledger ≠ .blocked ∧
      getComplianceStatus user (run Call.body is env).ledger ≠ .unknown ∧
      isPaused env.ledger = false ∧ Staffed S isComplianceRole env.ledger := by
  have hcleared := (run_contained h his).clearance user (.complianceStatus user) (Or.inl rfl)
  obtain ⟨hfree, hstaffed⟩ := hcleared.resolve_left fun hsame =>
    hne (by rw [getComplianceStatus, hsame, getComplianceStatus])
  refine ⟨hfree,fun hunknown => ?_,?_,hstaffed⟩
  · apply never_unknown_again is _ hunknown
    exact fun hstart => hne (hunknown.trans hstart.symm)
  · by_contra hp
    have hpaused : isPaused env.ledger = true := by simpa using hp
    exact hne (by rw [excluded_idle h hpaused his])

/-- The statuses an excluded group can bring a user to, in any number of calls. -/
theorem excluded_statuses_iff (h : Excluded S env.ledger) (user : Address)
    (target : ComplianceStatus) :
    (∃ is, (∀ i ∈ is, Within S i) ∧
      getComplianceStatus user (run Call.body is env).ledger = target) ↔
    target = getComplianceStatus user env.ledger ∨
      (getComplianceStatus user env.ledger ≠ .blocked ∧ target ≠ .unknown ∧
        isPaused env.ledger = false ∧ Staffed S isComplianceRole env.ledger) := by
  constructor
  · rintro ⟨is, his, rfl⟩
    by_cases hsame : getComplianceStatus user (run Call.body is env).ledger =
        getComplianceStatus user env.ledger
    · exact Or.inl hsame
    · exact Or.inr (excluded_changes h his hsame)
  · rintro (rfl | ⟨hfree, htarget, hrun, c, hc, hrole⟩)
    · exact ⟨[],by simp,rfl⟩
    obtain ⟨admin, hadmin, -⟩ := h.seated
    have hclearing : Clearing c env.ledger :=
      ⟨hrun,fun status hstatus => ⟨admin,hadmin,Or.inr ⟨hrole,hstatus⟩⟩⟩
    have hpath := path_through_review hfree htarget
    obtain ⟨env', hsteers, -, hreached⟩ := Steers.along (K := Within S)
      (P := fun s : Env Address => Clearing c s.ledger)
      (f := fun s => getComplianceStatus user s.ledger) (by
        rintro s w hs ⟨hblocked, hedge⟩
        obtain ⟨t, ht, hstatus, hframe⟩ := edge_commits hs.running (hs.entitled _ hblocked) hedge
        refine ⟨t,Steers.single ?_ ht,hs.of_frame hframe,hstatus⟩
        intro a ha
        rwa [show a = c from of_decide_eq_true ha]) hclearing hpath
    obtain ⟨is, his, -, hrun⟩ := hsteers.exists_run
    exact ⟨is,his,by rw [hrun, hreached]⟩

/-- The deployment with an emergency officer. -/
def staffed : Env ℕ :=
  run Call.body [⟨fun a => a = 0,.setRole 0 3 .emergencyOfficer⟩] deployed

/-- An emergency officer alone can revoke an investor it first has to review. -/
theorem excluded_statuses_deployed :
    ∃ is, (∀ i ∈ is, Within {3} i) ∧
      getComplianceStatus 7 (run Call.body is staffed).ledger = .revoked := by
  have h : Excluded {3} staffed.ledger :=
    ⟨⟨0,rfl,by simp⟩,Or.inr fun c hc => nomatch hc⟩
  apply (excluded_statuses_iff h 7 .revoked).mpr
  exact Or.inr ⟨by decide,by decide,by decide,3,rfl,Or.inr rfl⟩

/-! ## By the admin -/

theorem recovers_review {admin : Address}
    (hgoverns : Governs (sole admin) admin env.ledger) (user : Address) :
    ∃ env', Recovers admin (statusKeys user) env env' ∧
      getComplianceStatus user env'.ledger = .pending := by
  cases hstatus : getComplianceStatus user env.ledger with
  | pending => exact ⟨env,Recovers.refl admin _ env,hstatus⟩
  | _ => exact recovers_edge hgoverns user .pending (by rw [hstatus]; rfl)

theorem recovers_user {admin : Address}
    (hgoverns : Governs (sole admin) admin env.ledger) (user : Address)
    {target : ComplianceStatus} (htarget : target ≠ .unknown) :
    ∃ env', Recovers admin (statusKeys user) env env' ∧
      getComplianceStatus user env'.ledger = target := by
  obtain ⟨env₁, hreview, hpending⟩ := recovers_review hgoverns user
  have hstill := hreview.governs (by simp [statusKeys]) (by simp [statusKeys]) hgoverns
  by_cases hsame : target = .pending
  · exact ⟨env₁,hreview,hpending.trans hsame.symm⟩
  · have hedge : transitionIsAllowed .pending target = true := by
      cases target with
      | unknown => exact absurd rfl htarget
      | pending => exact absurd rfl hsame
      | _ => rfl
    rw [← hpending] at hedge
    obtain ⟨env₂, hmoved, hdone⟩ := recovers_edge hstill user target hedge
    exact ⟨env₂,hreview.trans hmoved,hdone⟩

/-- The statuses the admin alone can bring a user to. -/
theorem admin_statuses_iff {admin : Address} (hadmin : IsAdmin admin env.ledger) (user : Address)
    (target : ComplianceStatus) :
    AdminReaches admin env (fun env' => getComplianceStatus user env'.ledger = target) ↔
      target = getComplianceStatus user env.ledger ∨ target ≠ .unknown := by
  constructor
  · rintro ⟨is, -, -, rfl⟩
    by_cases hstart : getComplianceStatus user env.ledger = .unknown
    · by_cases hend : getComplianceStatus user (run Call.body is env).ledger = .unknown
      · exact Or.inl (hend.trans hstart.symm)
      · exact Or.inr hend
    · exact Or.inr (never_unknown_again is hstart)
  · rintro (rfl | htarget)
    · exact AdminReaches.of_steers (Steers.refl env) rfl
    obtain ⟨env₁, hrunning, hgoverns⟩ := recovers_running hadmin
    obtain ⟨env₂, hmoved, hreached⟩ := recovers_user hgoverns user htarget
    exact AdminReaches.of_steers (hrunning.steers.trans hmoved.steers) hreached

theorem admin_statuses_suspended :
    AdminReaches 0 suspended fun env' => getComplianceStatus 1 env'.ledger = .blocked :=
  (admin_statuses_iff (show IsAdmin 0 suspended.ledger from rfl) 1 .blocked).mpr
    (Or.inr (by decide))

/-! ## Whose authority is missing -/

section
variable {admin caller : Address} {current : ComplianceStatus} {l : Ledger Address}

/-- The check by role is the guard's, but for blocked users. -/
theorem requireAnyRole_eq (hfree : current ≠ .blocked) :
    requireAnyRole caller [.complianceOfficer,.emergencyOfficer] l =
      requireTransitionAuthority caller current l := by
  have hnot : current.isBlocked = false := by simpa [ComplianceStatus.isBlocked] using hfree
  rw [requireAnyRole, requireTransitionAuthority, authorityGuard, getAdmin]
  cases hadmin : l.get .admin with
  | none => rfl
  | some admin =>
    by_cases hself : caller = admin
    · simp [hself, bind, Except.bind, TransitionGuard.isAllowed]
    · cases getRole caller l <;>
        simp [hself, hnot, bind, Except.bind, TransitionGuard.isAllowed,
          TransitionGuard.errorForGuard]

theorem authorityGuard_admin (hadmin : IsAdmin admin l) :
    authorityGuard admin current l = .allowed :=
  authorityGuard_allowed.mpr ⟨admin,hadmin,Or.inl rfl⟩

theorem authorityGuard_failure (hadmin : IsAdmin admin l)
    (hrefused : authorityGuard caller current l ≠ .allowed) :
    (authorityGuard caller current l).isAuthorizationFailure = true := by
  rw [IsAdmin] at hadmin
  revert hrefused
  fun_cases authorityGuard <;> simp_all [TransitionGuard.isAuthorizationFailure]

/-- A verdict is an authorisation failure exactly if the admin would get a
different one, and off blocked users the check by role refuses the same
callers with the same error. -/
theorem authority_exact (hadmin : IsAdmin admin l) (caller user : Address) :
    (∀ next, (evaluateTransition caller user next l).isAuthorizationFailure = true ↔
      evaluateTransition caller user next l ≠ evaluateTransition admin user next l) ∧
    (getComplianceStatus user l ≠ .blocked →
      requireAnyRole caller [.complianceOfficer,.emergencyOfficer] l =
        requireTransitionAuthority caller (getComplianceStatus user l) l) := by
  refine ⟨fun next => ?_,requireAnyRole_eq⟩
  have hfull : authorityGuard admin (getComplianceStatus user l) l = .allowed :=
    authorityGuard_admin hadmin
  by_cases hallowed : authorityGuard caller (getComplianceStatus user l) l = .allowed
  · -- what follows the authority does not look at the caller
    have hsame : evaluateTransition caller user next l = evaluateTransition admin user next l := by
      rw [evaluateTransition, evaluateTransition, evaluateFromStatus, evaluateFromStatus, hallowed,
        hfull]
    simp only [hsame, ne_eq, not_true_eq_false, iff_false, Bool.not_eq_true]
    rw [evaluateTransition, evaluateFromStatus, hfull]
    split_ifs <;> rfl
  · have hfailure := authorityGuard_failure hadmin hallowed
    have hrefused : (authorityGuard caller (getComplianceStatus user l) l).isAllowed = false := by
      simpa [TransitionGuard.isAllowed] using hallowed
    rw [evaluateTransition, evaluateTransition, evaluateFromStatus, evaluateFromStatus, hrefused,
      hfull]
    cases isPaused l with
    | true => simp [TransitionGuard.isAuthorizationFailure]
    | false =>
      simp only [Bool.false_eq_true, if_false, Bool.not_false, if_true, hfailure, true_iff]
      intro hsame
      rw [hsame] at hfailure
      revert hfailure
      simp only [TransitionGuard.isAllowed, decide_true, Bool.not_true, Bool.false_eq_true,
        if_false]
      split_ifs <;> decide

end

theorem authority_exact_staffed :
    (evaluateTransition 1 7 .approved staffed.ledger).isAuthorizationFailure = true :=
  ((authority_exact (show IsAdmin 0 staffed.ledger from rfl) 1 7).1 .approved).mpr (by decide)

end Aegis
