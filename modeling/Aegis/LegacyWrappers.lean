import Aegis.System

/-!
# The legacy wrappers

Whitelisting and its revocation assemble the checks of a status change anew
and are lenient where the shared guard is not: approving an approved user,
or revoking where no edge leads to the revoked status, commits and writes
nothing. Otherwise a wrapper is the lifecycle call with one more event.
-/

set_option autoImplicit false

namespace Aegis
open HostKit

variable {Address : Type} [DecidableEq Address] {auth : Auth Address} {env env' : Env Address}
  {caller user : Address} {current next : ComplianceStatus} {l : Ledger Address}

/-! ## The guards of authority -/

/-- The evaluation and the wrappers refuse for the same want of authority. -/
theorem authority_refused (hrun : isPaused l = false) (h : ¬MayClear caller current l)
    (next : ComplianceStatus) :
    ∃ e, requireTransitionAuthority caller current l = .error (.panic e) ∧
      (evaluateFromStatus caller current next l).errorForGuard = some e ∧
      (evaluateFromStatus caller current next l).guardPanics = true := by
  rw [evaluateFromStatus, requireTransitionAuthority]
  rw [← authorityGuard_allowed] at h
  simp only [hrun]
  cases hguard : authorityGuard caller current l with
  | allowed => exact absurd hguard h
  | notInitialized => exact ⟨.notInitialized,rfl,rfl,rfl⟩
  | contractPaused => exact ⟨.contractPaused,rfl,rfl,rfl⟩
  | callerUnauthorized => exact ⟨.unauthorized,rfl,rfl,rfl⟩
  | blockedRequiresAdmin => exact ⟨.unauthorized,rfl,rfl,rfl⟩
  | _ => revert hguard; fun_cases authorityGuard <;> simp

/-- With authority only the requested edge is left to refuse. -/
theorem evaluateFromStatus_of_mayClear (hrun : isPaused l = false)
    (h : MayClear caller current l) (hnext : next ≠ .unknown) :
    evaluateFromStatus caller current next l =
      if current = next then .statusUnchanged
      else if transitionIsAllowed current next then .allowed else .transitionForbidden := by
  rw [evaluateFromStatus, authorityGuard_allowed.mpr h, hrun]
  cases transitionIsAllowed current next <;> simp [TransitionGuard.isAllowed, hnext]

/-- The shared guard panics exactly where availability or authority is wanting. -/
theorem guardPanics_iff (hnext : next ≠ .unknown) :
    (evaluateFromStatus caller current next l).guardPanics = true ↔
      ¬(isPaused l = false ∧ MayClear caller current l) := by
  cases hpaused : isPaused l with
  | true => simp [evaluateFromStatus, hpaused, TransitionGuard.guardPanics]
  | false =>
    by_cases hclear : MayClear caller current l
    · rw [evaluateFromStatus_of_mayClear hpaused hclear hnext]
      split_ifs <;> simp [TransitionGuard.guardPanics, hclear]
    · obtain ⟨e, -, -, hpanics⟩ := authority_refused hpaused hclear next
      simp [hpanics, hclear]

/-- A verdict that is no panic is one on the requested edge. -/
theorem edge_of_guard {g : TransitionGuard} (h : evaluateTransition caller user next l = g)
    (hnext : next ≠ .unknown) (hg : g.guardPanics = false) :
    (isPaused l = false ∧ MayClear caller (getComplianceStatus user l) l) ∧
      (if getComplianceStatus user l = next then .statusUnchanged
        else if transitionIsAllowed (getComplianceStatus user l) next then .allowed
        else .transitionForbidden) = g := by
  have hopen : isPaused l = false ∧ MayClear caller (getComplianceStatus user l) l := by
    by_contra hshut
    have hpanics := (guardPanics_iff hnext).mpr hshut
    rw [evaluateTransition] at h
    rw [h, hg] at hpanics
    cases hpanics
  refine ⟨hopen,?_⟩
  rw [← h, evaluateTransition, evaluateFromStatus_of_mayClear hopen.1 hopen.2 hnext]

/-! ## Refusals -/

/-- The opening both wrappers share fails with the error of the shared guard
wherever that guard panics. -/
theorem wrapper_refused (hauth : auth caller = true) {k : ComplianceStatus → Contract Address Unit}
    (hnext : next ≠ .unknown)
    (h : (evaluateTransition caller user next env.ledger).guardPanics = true) :
    ∃ f e, (do
        check requireNotPaused
        requireAuth caller
        let current ← load (getComplianceStatus user)
        check (requireTransitionAuthority caller current)
        k current : Contract Address Unit).exec auth env = (.error f, env) ∧
      f.error = some e ∧
      (evaluateTransition caller user next env.ledger).errorForGuard = some e := by
  cases hpaused : isPaused env.ledger with
  | true =>
    refine ⟨.panic .contractPaused,.contractPaused,paused_first hpaused,rfl,?_⟩
    simp [evaluateTransition, evaluateFromStatus, hpaused, TransitionGuard.errorForGuard]
  | false =>
    have hclear : ¬MayClear caller (getComplianceStatus user env.ledger) env.ledger :=
      fun hclear => (guardPanics_iff hnext).mp h ⟨hpaused,hclear⟩
    obtain ⟨e, hrefused, herror, -⟩ := authority_refused hpaused hclear next
    refine ⟨.panic e,e,?_,rfl,herror⟩
    rw [exec_opened hpaused hauth, Host.exec_bind_of_ok (exec_load (getComplianceStatus user))]
    exact guard_refuses hrefused

/-- Past its opening the whitelisting refuses one edge only, the one out of
quarantine. -/
theorem whitelist_edge_refused (hauth : auth caller = true)
    (h : evaluateTransition caller user .approved env.ledger = .transitionForbidden) :
    (whitelistUser caller user).exec auth env =
      (.error (.err .invalidComplianceTransition), env) := by
  obtain ⟨⟨hrun, hclear⟩, hverdict⟩ := edge_of_guard h (by decide) rfl
  split_ifs at hverdict with hsame hedge
  rw [whitelistUser, exec_opened hrun hauth,
    Host.exec_bind_of_ok (exec_load (getComplianceStatus user)),
    guard_passes (requireTransitionAuthority_ok (u := ()).mpr hclear), if_pos hsame]
  apply Host.exec_bind_of_error
  rw [exec_errWhen, if_pos (by simpa using hedge)]

/-! ## The wrappers refine the lifecycle call -/

/-- The effect of the lifecycle call, followed by the event of the wrapper. -/
def WrapsUpdate (auth : Auth Address) (caller user : Address) (status : ComplianceStatus)
    (legacy : Event Address) (env env' : Env Address) : Prop :=
  ∃ updated, Commits Call.body env ⟨auth,.setComplianceStatus caller user status⟩ updated ∧
    updated.events = env.events++[.complianceStatusChanged caller user
      (getComplianceStatus user env.ledger) status] ∧
    env' = ⟨updated.ledger,updated.events++[legacy]⟩

theorem wrapsUpdate_of_allowed (hauth : auth caller = true) {status : ComplianceStatus}
    (h : evaluateTransition caller user status env.ledger = .allowed) (legacy : Event Address) :
    WrapsUpdate auth caller user status legacy env ⟨withStatus caller user status env.ledger,
      env.events++[.complianceStatusChanged caller user (getComplianceStatus user env.ledger)
        status,legacy]⟩ :=
  ⟨_,setComplianceStatus_ok.mpr ⟨hauth,h,rfl⟩,rfl,by simp⟩

theorem whitelist_allowed (hauth : auth caller = true)
    (h : evaluateTransition caller user .approved env.ledger = .allowed) :
    ∃ env', Commits Call.body env ⟨auth,.whitelistUser caller user⟩ env' ∧
      WrapsUpdate auth caller user .approved (.userWhitelisted caller user) env env' := by
  obtain ⟨hrun, hclear, hedge⟩ := evaluateTransition_allowed.mp h
  exact ⟨_,whitelistUser_ok.mpr ⟨hrun,hauth,hclear,Or.inr ⟨hedge,rfl⟩⟩,
    wrapsUpdate_of_allowed hauth h _⟩

theorem whitelist_unchanged (hauth : auth caller = true)
    (h : evaluateTransition caller user .approved env.ledger = .statusUnchanged) :
    Commits Call.body env ⟨auth,.whitelistUser caller user⟩
      ⟨env.ledger,env.events++[.userWhitelisted caller user]⟩ := by
  obtain ⟨⟨hrun, hclear⟩, hverdict⟩ := edge_of_guard h (by decide) rfl
  split_ifs at hverdict with hsame
  exact whitelistUser_ok.mpr ⟨hrun,hauth,hclear,Or.inl ⟨hsame,rfl⟩⟩

theorem whitelist_refused (hauth : auth caller = true) {g : TransitionGuard}
    (hg : evaluateTransition caller user .approved env.ledger = g) (hallowed : g ≠ .allowed)
    (hunchanged : g ≠ .statusUnchanged) :
    ∃ f e, (whitelistUser caller user).exec auth env = (.error f, env) ∧ f.error = some e ∧
      g.errorForGuard = some e := by
  cases hpanics : g.guardPanics with
  | true =>
    rw [← hg] at hpanics ⊢
    exact wrapper_refused hauth (by decide) hpanics
  | false =>
    have hforbidden : g = .transitionForbidden := by
      obtain ⟨-, hverdict⟩ := edge_of_guard hg (by decide) hpanics
      split_ifs at hverdict
      · exact absurd hverdict.symm hunchanged
      · exact absurd hverdict.symm hallowed
      · exact hverdict.symm
    subst hforbidden
    exact ⟨.err .invalidComplianceTransition,.invalidComplianceTransition,
      whitelist_edge_refused hauth hg,rfl,rfl⟩

theorem revoke_allowed (hauth : auth caller = true)
    (h : evaluateTransition caller user .revoked env.ledger = .allowed) :
    ∃ env', Commits Call.body env ⟨auth,.revokeWhitelist caller user⟩ env' ∧
      WrapsUpdate auth caller user .revoked (.whitelistRevoked caller user) env env' := by
  obtain ⟨hrun, hclear, hedge⟩ := evaluateTransition_allowed.mp h
  exact ⟨_,revokeWhitelist_ok.mpr ⟨hrun,hauth,hclear,Or.inr ⟨hedge,rfl⟩⟩,
    wrapsUpdate_of_allowed hauth h _⟩

/-- Where no edge leads to the revoked status the revocation is only recorded. -/
theorem revoke_tolerated (hauth : auth caller = true) {g : TransitionGuard}
    (hg : evaluateTransition caller user .revoked env.ledger = g) (hpanics : g.guardPanics = false)
    (hallowed : g ≠ .allowed) :
    Commits Call.body env ⟨auth,.revokeWhitelist caller user⟩
      ⟨env.ledger,env.events++[.whitelistRevoked caller user]⟩ := by
  obtain ⟨⟨hrun, hclear⟩, -⟩ := edge_of_guard hg (by decide) hpanics
  have hedge : transitionIsAllowed (getComplianceStatus user env.ledger) .revoked = false := by
    by_contra hedge
    apply hallowed
    rw [← hg]
    exact evaluateTransition_allowed.mpr ⟨hrun,hclear,Bool.not_eq_false _ ▸ hedge⟩
  exact revokeWhitelist_ok.mpr ⟨hrun,hauth,hclear,Or.inl ⟨hedge,rfl⟩⟩

/-- An edge of the matrix leaves the status, so the written ledger is another. -/
theorem WrapsUpdate.ledger_ne {status : ComplianceStatus} {legacy : Event Address}
    (h : WrapsUpdate auth caller user status legacy env env') : env'.ledger ≠ env.ledger := by
  obtain ⟨updated, hupdate, -, rfl⟩ := h
  obtain ⟨-, hallowed, rfl⟩ := setComplianceStatus_ok.mp hupdate
  obtain ⟨-, -, hedge⟩ := evaluateTransition_allowed.mp hallowed
  intro hsame
  have hstatus : getComplianceStatus user (withStatus caller user status env.ledger) = status := by
    rw [getComplianceStatus_withStatus, if_pos rfl]
  rw [show withStatus caller user status env.ledger = env.ledger from hsame] at hstatus
  rw [hstatus] at hedge
  revert hedge
  simp [transitionIsAllowed]

/-- The event of the wrapper is the last one published, and published once. -/
def EmitsLast (legacy : Event Address) (env env' : Env Address) : Prop :=
  ∃ emitted, env'.events = env.events++emitted++[legacy] ∧ legacy ∉ emitted

omit [DecidableEq Address] in
theorem emitsLast_alone (legacy : Event Address) (l : Ledger Address) :
    EmitsLast legacy env ⟨l,env.events++[legacy]⟩ := ⟨[],by simp,by simp⟩

theorem WrapsUpdate.emitsLast {status : ComplianceStatus} {legacy : Event Address}
    (h : WrapsUpdate auth caller user status legacy env env')
    (hlegacy : ∀ previous, legacy ≠ .complianceStatusChanged caller user previous status) :
    EmitsLast legacy env env' := by
  obtain ⟨updated, -, hevents, rfl⟩ := h
  exact ⟨[_],by rw [← hevents],by simpa using hlegacy _⟩

/-- The refusals of availability and of authority, by name. -/
theorem guardPanics_cases {g : TransitionGuard} : g.guardPanics = true ↔
    g = .contractPaused ∨ g = .notInitialized ∨ g = .callerUnauthorized ∨
      g = .blockedRequiresAdmin := by
  cases g <;> simp [TransitionGuard.guardPanics]

/-- What the verdict on an approval says of the whitelisting. -/
def WhitelistRefines (auth : Auth Address) (env : Env Address) (caller user : Address)
    (g : TransitionGuard) : Prop :=
  ((∃ env', Commits Call.body env ⟨auth,.whitelistUser caller user⟩ env') ↔
      g = .allowed ∨ g = .statusUnchanged) ∧
    (¬(g = .allowed ∨ g = .statusUnchanged) →
      ∃ f e, (whitelistUser caller user).exec auth env = (.error f, env) ∧
        f.error = some e ∧ g.errorForGuard = some e) ∧
    ∀ env', Commits Call.body env ⟨auth,.whitelistUser caller user⟩ env' →
      EmitsLast (.userWhitelisted caller user) env env' ∧
      (g = .allowed →
        WrapsUpdate auth caller user .approved (.userWhitelisted caller user) env env') ∧
      (g = .statusUnchanged → env' = ⟨env.ledger,env.events++[.userWhitelisted caller user]⟩)

/-- What the verdict on a revocation says of the revoking wrapper. -/
def RevocationRefines (auth : Auth Address) (env : Env Address) (caller user : Address)
    (h : TransitionGuard) : Prop :=
  ((∃ env', Commits Call.body env ⟨auth,.revokeWhitelist caller user⟩ env') ↔
      ¬(h = .contractPaused ∨ h = .notInitialized ∨ h = .callerUnauthorized ∨
        h = .blockedRequiresAdmin)) ∧
    (h = .contractPaused ∨ h = .notInitialized ∨ h = .callerUnauthorized ∨
        h = .blockedRequiresAdmin →
      ∃ f e, (revokeWhitelist caller user).exec auth env = (.error f, env) ∧
        f.error = some e ∧ h.errorForGuard = some e) ∧
    ∀ env', Commits Call.body env ⟨auth,.revokeWhitelist caller user⟩ env' →
      EmitsLast (.whitelistRevoked caller user) env env' ∧
      (env'.ledger ≠ env.ledger ↔ h = .allowed) ∧
      (h = .allowed →
        WrapsUpdate auth caller user .revoked (.whitelistRevoked caller user) env env') ∧
      (h ≠ .allowed → env' = ⟨env.ledger,env.events++[.whitelistRevoked caller user]⟩)

theorem whitelist_refines (hauth : auth caller = true) {g : TransitionGuard}
    (hg : evaluateTransition caller user .approved env.ledger = g) :
    WhitelistRefines auth env caller user g := by
  by_cases hallowed : g = .allowed
  · subst hallowed
    obtain ⟨updated, hupdated, hwraps⟩ := whitelist_allowed hauth hg
    refine ⟨iff_of_true ⟨updated,hupdated⟩ (Or.inl rfl),fun hnot => absurd (Or.inl rfl) hnot,?_⟩
    intro env' hc
    rw [hc.unique hupdated]
    exact ⟨hwraps.emitsLast (fun _ => nofun),fun _ => hwraps,nofun⟩
  by_cases hunchanged : g = .statusUnchanged
  · subst hunchanged
    have hkept := whitelist_unchanged hauth hg
    refine ⟨iff_of_true ⟨_,hkept⟩ (Or.inr rfl),fun hnot => absurd (Or.inr rfl) hnot,?_⟩
    intro env' hc
    rw [hc.unique hkept]
    exact ⟨emitsLast_alone _ _,nofun,fun _ => rfl⟩
  · have hnot : ¬(g = .allowed ∨ g = .statusUnchanged) := by tauto
    obtain ⟨f, e, hfail, hf, he⟩ := whitelist_refused hauth hg hallowed hunchanged
    refine ⟨iff_of_false ?_ hnot,fun _ => ⟨f,e,hfail,hf,he⟩,fun env' hc => ?_⟩
    · rintro ⟨env', hc⟩
      exact not_commits hfail hc
    · exact absurd hc (not_commits hfail)

theorem revocation_refines (hauth : auth caller = true) {h : TransitionGuard}
    (hh : evaluateTransition caller user .revoked env.ledger = h) :
    RevocationRefines auth env caller user h := by
  rw [RevocationRefines, ← guardPanics_cases]
  cases hpanics : h.guardPanics with
  | true =>
    rw [← hh] at hpanics
    obtain ⟨f, e, hfail, hf, he⟩ := wrapper_refused hauth (by decide) hpanics
    rw [hh] at he
    refine ⟨iff_of_false ?_ (by simp),fun _ => ⟨f,e,hfail,hf,he⟩,fun env' hc => ?_⟩
    · rintro ⟨env', hc⟩
      exact not_commits hfail hc
    · exact absurd hc (not_commits hfail)
  | false =>
    by_cases hallowed : h = .allowed
    · subst hallowed
      obtain ⟨updated, hupdated, hwraps⟩ := revoke_allowed hauth hh
      refine ⟨iff_of_true ⟨updated,hupdated⟩ (by simp),nofun,fun env' hc => ?_⟩
      rw [hc.unique hupdated]
      exact ⟨hwraps.emitsLast (fun _ => nofun),iff_of_true hwraps.ledger_ne rfl,fun _ => hwraps,
        fun hne => absurd rfl hne⟩
    · have hkept := revoke_tolerated hauth hh hpanics hallowed
      refine ⟨iff_of_true ⟨_,hkept⟩ (by simp),nofun,fun env' hc => ?_⟩
      rw [hc.unique hkept]
      exact ⟨emitsLast_alone _ _,iff_of_false (fun hne => hne rfl) hallowed,
        fun h => absurd h hallowed,fun _ => rfl⟩

theorem legacy_wrappers_refine (hauth : auth caller = true) {g h : TransitionGuard}
    (hg : evaluateTransition caller user .approved env.ledger = g)
    (hh : evaluateTransition caller user .revoked env.ledger = h) :
    WhitelistRefines auth env caller user g ∧ RevocationRefines auth env caller user h :=
  ⟨whitelist_refines hauth hg,revocation_refines hauth hh⟩

/-- The deployed holder is approved already, and its approval can be revoked. -/
theorem legacy_wrappers_deployed :
    WhitelistRefines (fun a => a = 0) deployed 0 1 .statusUnchanged ∧
      RevocationRefines (fun a => a = 0) deployed 0 1 .allowed :=
  legacy_wrappers_refine (by decide) (by decide) (by decide)

end Aegis
