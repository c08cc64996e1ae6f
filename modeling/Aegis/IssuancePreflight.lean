import Aegis.Duties
import Aegis.MintPreflight

/-!
# The pre-flight read of issuance authority

Both issuances ask for the role of an asset manager and then pass the
separation guard, which asks for the issuance duty. On a reachable ledger the
same callers have the role and the duty, so the report names the error with
which either issuance is refused for want of authority.
-/

set_option autoImplicit false

namespace Aegis
open HostKit

variable {Address : Type} [DecidableEq Address] {caller : Address} {recipient : Option Address}
  {l : Ledger Address}

/-- The two checks of authority, in the order of every issuance. -/
def issuanceGuards (caller : Address) (recipient : Option Address) (l : Ledger Address) :
    Except Failure Unit := do
  requireRole caller .assetManager l
  requireIssuanceAuthority caller recipient l

/-- The codes an issuance is refused with for want of authority. -/
def authorityCodes : List UInt32 := [2000,3000,3007,3008,3009]

def BeyondAuthority (f : Failure) : Prop := ∀ e, f.error = some e → e.code ∉ authorityCodes

/-! ## The role and the duty -/

theorem issuance_duty_iff_canMint (hsole : SoleAdmin l) :
    roleHasDuty (effectiveRole caller l) .issuance = true ↔ canMint caller l = true := by
  rw [canMint_iff, ← issuance_duty hsole, getDutiesOf, mem_dutiesOfRole]

/-- Who may not mint is refused by both checks with one error. -/
theorem evaluateIssuance_of_not_canMint (hsole : SoleAdmin l) (hno : canMint caller l = false) :
    evaluateIssuance caller recipient l =
      if l.has .admin then .missingIssuanceDuty else .notInitialized := by
  have hduty : roleHasDuty (effectiveRole caller l) .issuance = false := by
    rw [← Bool.not_eq_true, issuance_duty_iff_canMint hsole, hno]
    decide
  unfold evaluateIssuance
  rw [hduty]
  cases l.has .admin <;> rfl

theorem canMint_of_allowed (hsole : SoleAdmin l)
    (h : evaluateIssuance caller recipient l = .allowed) : canMint caller l = true := by
  by_contra hno
  rw [evaluateIssuance_of_not_canMint hsole (Bool.not_eq_true _ ▸ hno)] at h
  split_ifs at h

theorem issuance_refused (hsole : SoleAdmin l)
    (h : evaluateIssuance caller recipient l ≠ .allowed) :
    ∃ e, (evaluateIssuance caller recipient l).errorForGuard = some e ∧
      issuanceGuards caller recipient l = .error (.panic e) := by
  cases hcan : canMint caller l with
  | true =>
    obtain ⟨e, he⟩ : ∃ e, (evaluateIssuance caller recipient l).errorForGuard = some e := by
      cases hguard : evaluateIssuance caller recipient l with
      | allowed => exact absurd hguard h
      | _ => exact ⟨_,rfl⟩
    refine ⟨e,he,?_⟩
    rw [issuanceGuards, guard_bind_of_ok (requireRole_ok (u := ()).mpr (canMint_iff.mp hcan))]
    exact requireIssuanceAuthority_refuses he
  | false =>
    rw [evaluateIssuance_of_not_canMint hsole hcan, issuanceGuards]
    refine ⟨_,?_,guard_bind_of_error (role_refused hcan)⟩
    cases l.has .admin <;> rfl

/-! ## Issuances refused for want of authority -/

section
variable {auth : Auth Address} {env : Env Address} {f : Failure} {amount : I128}

theorem mint_refused_authority (hauth : auth caller = true) (hrun : isPaused env.ledger = false)
    {recipient : Address} (h : issuanceGuards caller (some recipient) env.ledger = .error f) :
    (mintAsset caller recipient amount).exec auth env = (.error f, env) := by
  apply mint_refused hauth
  rw [mintGuards, guard_bind_of_ok (requireNotPaused_ok (u := ()).mpr hrun)]
  exact guard_chain_error h

/-- The guards of a distribution in order, its authentication aside. -/
def yieldGuards (caller : Address) (amount : I128) (l : Ledger Address) : Except Failure Unit := do
  requireNotPaused l
  requireRole caller .assetManager l
  requireIssuanceAuthority caller none l
  requirePositive amount

theorem yield_refused (hauth : auth caller = true)
    (h : yieldGuards caller amount env.ledger = .error f) :
    (distributeYield caller amount).exec auth env = (.error f, env) := by
  apply check_refuses h
  intro _ h
  rw [exec_signed hauth]
  apply check_refuses h
  intro _ h
  apply check_refuses h
  intro _ h
  apply Host.exec_bind_of_error
  rw [exec_errWhen]
  exact Prod.ext h rfl

theorem yield_refused_authority (hauth : auth caller = true) (hrun : isPaused env.ledger = false)
    (h : issuanceGuards caller none env.ledger = .error f) :
    (distributeYield caller amount).exec auth env = (.error f, env) := by
  apply yield_refused hauth
  rw [yieldGuards, guard_bind_of_ok (requireNotPaused_ok (u := ()).mpr hrun)]
  exact guard_chain_error h

end

/-! ## The errors of a mint whose authority is cleared -/

omit [DecidableEq Address] in
theorem requireAssetMovable_fails {l : Ledger Address} {f : Failure}
    (h : requireAssetMovable l = .error f) : BeyondAuthority f := by
  rw [requireAssetMovable] at h
  cases hstatus : getAssetStatus l <;> rw [hstatus] at h <;> cases h <;>
    simp [BeyondAuthority, authorityCodes, Failure.error, Error.code]

omit [DecidableEq Address] in
theorem requireCanReceive_fails {user : Address} {l : Ledger Address} {f : Failure}
    (h : requireCanReceive user l = .error f) : BeyondAuthority f := by
  rw [requireCanReceive, requireApproved] at h
  cases hstatus : getComplianceStatus user l <;> rw [hstatus] at h <;> cases h <;>
    simp [BeyondAuthority, authorityCodes, Failure.error, Error.code]

theorem add_fails {a b : I128} {f : Failure} (h : add a b = .error f) : BeyondAuthority f := by
  rw [add] at h
  cases hsum : a.checkedAdd b <;> rw [hsum] at h <;> cases h
  intro e he
  cases he

theorem enforceCap_fails {cap current incoming : I128} {e : Error} {f : Failure}
    (hcap : e.code ∉ authorityCodes) (h : enforceCap cap current incoming e = .error f) :
    BeyondAuthority f := by
  rw [enforceCap] at h
  split_ifs at h with hoff
  cases hsum : add current incoming with
  | error g =>
    rw [guard_bind_of_error hsum] at h
    cases h
    exact add_fails hsum
  | ok sum =>
    rw [guard_bind_of_ok hsum] at h
    split_ifs at h
    cases h
    intro e' he'
    cases he'
    exact hcap

theorem mint_beyond_authority {auth : Auth Address} {env env' : Env Address} {f : Failure}
    {recipient : Address} {amount : I128} (hauth : auth caller = true)
    (hrun : isPaused env.ledger = false) (hcan : canMint caller env.ledger = true)
    (hallowed : evaluateIssuance caller (some recipient) env.ledger = .allowed)
    (h : (mintAsset caller recipient amount).exec auth env = (.error f, env')) :
    BeyondAuthority f := by
  rw [mintAsset, exec_opened hrun hauth,
    guard_passes (requireRole_ok (u := ()).mpr (canMint_iff.mp hcan)),
    guard_passes (requireIssuanceAuthority_ok (u := ()).mpr hallowed)] at h
  -- what is left of the mint never speaks of authority
  refine (?_ : Host.FailsOnly BeyondAuthority _) _ _ _ _ h
  refine Host.FailsOnly.bind (Host.failsOnly_failWhen _ ?_) fun _ => ?_
  · simp [BeyondAuthority, authorityCodes, Failure.error, Error.code]
  refine Host.FailsOnly.bind (Host.failsOnly_check fun _ _ => requireAssetMovable_fails)
    fun _ => ?_
  refine Host.FailsOnly.bind (Host.failsOnly_check fun _ _ => requireCanReceive_fails)
    fun _ => ?_
  refine Host.FailsOnly.bind (Host.failsOnly_check fun _ _ => enforceCap_fails (by decide))
    fun _ => ?_
  refine Host.FailsOnly.bind (Host.failsOnly_check fun _ _ => enforceCap_fails (by decide))
    fun _ => ?_
  refine Host.FailsOnly.bind (Host.failsOnly_check fun _ _ => add_fails) fun _ => ?_
  refine Host.FailsOnly.bind (Host.failsOnly_modify _) fun _ => ?_
  refine Host.FailsOnly.bind (Host.failsOnly_check fun _ _ => add_fails) fun _ => ?_
  refine Host.FailsOnly.bind (Host.failsOnly_modify _) fun _ => ?_
  exact Host.failsOnly_modify _

/-! ## Distributions -/

section
variable {auth : Auth Address} {env : Env Address} {amount : I128}

theorem yield_commits_iff (hsole : SoleAdmin env.ledger) (hrun : isPaused env.ledger = false)
    (hauth : auth caller = true) :
    (∃ env', Commits Call.body env ⟨auth,.distributeYield caller amount⟩ env') ↔
      evaluateIssuance caller none env.ledger = .allowed ∧ 0 < amount.val := by
  constructor
  · rintro ⟨env', hc⟩
    obtain ⟨-, -, -, hallowed, hpos, -⟩ := distributeYield_ok.mp hc
    exact ⟨hallowed,hpos⟩
  · rintro ⟨hallowed, hpos⟩
    have hacts := canMint_iff.mp (canMint_of_allowed hsole hallowed)
    exact ⟨_,distributeYield_ok.mpr ⟨hrun,hauth,hacts,hallowed,hpos,rfl⟩⟩

theorem yield_refused_exactly (hsole : SoleAdmin env.ledger) (hrun : isPaused env.ledger = false)
    (hauth : auth caller = true)
    (hno : ¬(evaluateIssuance caller none env.ledger = .allowed ∧ 0 < amount.val)) :
    ∃ f, (distributeYield caller amount).exec auth env = (.error f, env) ∧
      f.error =
        some ((evaluateIssuance caller none env.ledger).errorForGuard.getD .invalidAmount) := by
  by_cases hguard : evaluateIssuance caller none env.ledger = .allowed
  · have hnonpos : amount.val ≤ 0 := not_lt.mp fun hpos => hno ⟨hguard,hpos⟩
    have hacts := canMint_iff.mp (canMint_of_allowed hsole hguard)
    refine ⟨.err .invalidAmount,yield_refused hauth ?_,by rw [hguard]; rfl⟩
    rw [yieldGuards, guard_bind_of_ok (requireNotPaused_ok (u := ()).mpr hrun),
      guard_bind_of_ok (requireRole_ok (u := ()).mpr hacts),
      guard_bind_of_ok (requireIssuanceAuthority_ok (u := ()).mpr hguard), requirePositive,
      if_pos hnonpos]
  · obtain ⟨e, he, hguards⟩ := issuance_refused hsole hguard
    exact ⟨.panic e,yield_refused_authority hauth hrun hguards,by rw [he]; rfl⟩

end

/-! ## The report and the outcome -/

theorem issuance_preflight_exact {env : Env Address} (h : Reachable Call.body Env.fresh env)
    (hrun : isPaused env.ledger = false) {auth : Auth Address} {caller : Address}
    (hauth : auth caller = true) (recipient : Address) :
    ((checkIssuanceAuthority caller recipient env.ledger).allowed = false → ∀ amount,
      ∃ f e, (mintAsset caller recipient amount).exec auth env = (.error f, env) ∧
        f.error = some e ∧
        (checkIssuanceAuthority caller recipient env.ledger).errorCode = some e.code) ∧
    ((checkIssuanceAuthority caller recipient env.ledger).allowed = true →
      ∀ amount f env', (mintAsset caller recipient amount).exec auth env = (.error f, env') →
        ∀ e, f.error = some e → e.code ∉ authorityCodes) ∧
    ∀ amount,
      ((∃ env', Commits Call.body env ⟨auth,.distributeYield caller amount⟩ env') ↔
        evaluateIssuance caller none env.ledger = .allowed ∧ 0 < amount.val) ∧
      (¬(evaluateIssuance caller none env.ledger = .allowed ∧ 0 < amount.val) →
        ∃ f, (distributeYield caller amount).exec auth env = (.error f, env) ∧ f.error =
          some ((evaluateIssuance caller none env.ledger).errorForGuard.getD .invalidAmount)) := by
  have hsole := reachable_soleAdmin h
  refine ⟨fun hrefused amount => ?_,fun hallowed amount f env' hfail => ?_,fun amount =>
    ⟨yield_commits_iff hsole hrun hauth,yield_refused_exactly hsole hrun hauth⟩⟩
  · have hguard : evaluateIssuance caller (some recipient) env.ledger ≠ .allowed := by
      simpa [checkIssuanceAuthority, checkIssuance, IssuanceGuard.isAllowed] using hrefused
    obtain ⟨e, he, hguards⟩ := issuance_refused hsole hguard
    refine ⟨.panic e,e,mint_refused_authority hauth hrun hguards,rfl,?_⟩
    rw [checkIssuanceAuthority, checkIssuance, he]
    rfl
  · have hguard : evaluateIssuance caller (some recipient) env.ledger = .allowed := by
      simpa [checkIssuanceAuthority, checkIssuance, IssuanceGuard.isAllowed] using hallowed
    exact mint_beyond_authority hauth hrun (canMint_of_allowed hsole hguard) hguard hfail

theorem issuance_preflight_deployed :
    ∃ f e, (mintAsset 7 1 ⟨5,by decide,by decide⟩).exec (fun a => a = 7) deployed =
        (.error f, deployed) ∧ f.error = some e ∧
      (checkIssuanceAuthority 7 1 deployed.ledger).errorCode = some e.code :=
  (issuance_preflight_exact ⟨deployment,rfl⟩ rfl (by decide) 1).1 (by decide) _

end Aegis
