import Aegis.Conservation
import Aegis.Preflight

/-!
# The pre-flight read of mints

The evaluator of mints mirrors the role check, the movement checks and the
caps. It knows nothing of the separation policy, of a missing admin, of held
recipients, or of the two sums a mint forms, so its verdict is exact only
under a condition on the ledger and the arguments.
-/

set_option autoImplicit false

namespace Aegis
open HostKit

variable {Address : Type} [DecidableEq Address] {caller recipient : Address} {amount : I128}
  {l : Ledger Address}

theorem evaluateMint_none : evaluateMint caller recipient amount l = .ok .none ↔
    isPaused l = false ∧ canMint caller l = true ∧ 0 < amount.val ∧ getAssetStatus l = .active ∧
      getComplianceStatus recipient l = .approved ∧
      WithinCap (getSupplyCap l) (getTotalSupply l) amount ∧
      WithinCap (getHoldingCap l) (getBalanceOf recipient l) amount := by
  rw [evaluateMint, stage_none nofun, stage_none nofun, stage_none nofun]
  by_cases hpos : 0 < amount.val
  · rw [stage_none asset_blocked_ne_none, stage_none nofun,
      capStage_none (r := .supplyCapExceeded) nofun hpos,
      capStage_none (r := .holdingCapExceeded) nofun hpos]
    simp [hpos, assetStatusReason_isBlocked, isWhitelisted_iff]
  · apply iff_of_false
    · intro h
      exact hpos (not_le.mp h.2.2.1)
    · intro h
      exact hpos h.2.2.1

theorem mintable_iff_verdicts : Mintable caller recipient amount l ↔
    evaluateMint caller recipient amount l = .ok .none ∧
      evaluateIssuance caller (some recipient) l = .allowed := by
  rw [evaluateMint_none, mintable_iff, canMint_iff]
  tauto

/-! ## The exact success condition -/

theorem mint_sums (hsound : (bookOf l).Sound) (hpos : 0 < amount.val)
    (hfits : (getTotalSupply l).val+amount.val ≤ 2^127-1) (recipient : Address) :
    ∃ balance supply : I128, (getBalanceOf recipient l).val+amount.val = balance.val ∧
      (getTotalSupply l).val+amount.val = supply.val := by
  have hheld : (getBalanceOf recipient l).val ≤ (getTotalSupply l).val :=
    hsound.holding_le_total recipient
  have hlow := (getBalanceOf recipient l).lo_le
  obtain ⟨balance, hbalance⟩ : ∃ c : I128, c.val = (getBalanceOf recipient l).val+amount.val :=
    CheckedInt.exists_val (by omega) (by omega)
  obtain ⟨supply, hsupply⟩ : ∃ c : I128, c.val = (getTotalSupply l).val+amount.val :=
    CheckedInt.exists_val (by omega) (by omega)
  exact ⟨balance,supply,hbalance.symm,hsupply.symm⟩

theorem mint_commits_iff {auth : Auth Address} {env : Env Address}
    (hsound : (bookOf env.ledger).Sound) (hauth : auth caller = true) :
    (∃ env', Commits Call.body env ⟨auth,.mintAsset caller recipient amount⟩ env') ↔
      Mintable caller recipient amount env.ledger ∧
        (getTotalSupply env.ledger).val+amount.val ≤ 2^127-1 := by
  constructor
  · rintro ⟨env', h⟩
    obtain ⟨-, hmintable, balance, supply, -, hsupply, -⟩ := mintAsset_ok.mp h
    exact ⟨hmintable,hsupply.trans_le supply.le_hi⟩
  · rintro ⟨hmintable, hfits⟩
    obtain ⟨balance, supply, hbalance, hsupply⟩ :=
      mint_sums hsound hmintable.positive hfits recipient
    exact ⟨_,mintAsset_ok.mpr ⟨hauth,hmintable,balance,supply,hbalance,hsupply,rfl⟩⟩

theorem mint_effect {auth : Auth Address} {env env' : Env Address}
    (h : Commits Call.body env ⟨auth,.mintAsset caller recipient amount⟩ env') :
    (getBalanceOf recipient env'.ledger).val = (getBalanceOf recipient env.ledger).val+amount.val ∧
      (getTotalSupply env'.ledger).val = (getTotalSupply env.ledger).val+amount.val ∧
      ∀ k, k ≠ .balance recipient → k ≠ .totalSupply →
        env'.ledger.get k = env.ledger.get k := by
  have hadvance := (commits_book h).2
  refine ⟨?_,congrArg Book.total hadvance,fun k hbalance hsupply => ?_⟩
  · exact (congrFun (congrArg Book.holding hadvance) recipient).trans (Book.adjust_self _ _ _)
  · apply commits_unchanged h
    simp [Call.writes, hbalance, hsupply]

theorem mint_success_exact {env : Env Address} (h : Reachable Call.body Env.fresh env)
    {auth : Auth Address} {caller : Address} (hauth : auth caller = true) (recipient : Address)
    (amount : I128) :
    ((∃ env', Commits Call.body env ⟨auth,.mintAsset caller recipient amount⟩ env') ↔
      evaluateMint caller recipient amount env.ledger = .ok .none ∧
        evaluateIssuance caller (some recipient) env.ledger = .allowed ∧
        (getTotalSupply env.ledger).val+amount.val ≤ 2^127-1) ∧
    (∀ env', Commits Call.body env ⟨auth,.mintAsset caller recipient amount⟩ env' →
      (getBalanceOf recipient env'.ledger).val =
          (getBalanceOf recipient env.ledger).val+amount.val ∧
        (getTotalSupply env'.ledger).val = (getTotalSupply env.ledger).val+amount.val ∧
        ∀ k, k ≠ .balance recipient → k ≠ .totalSupply →
          env'.ledger.get k = env.ledger.get k) ∧
    (2^127-1 < (getBalanceOf recipient env.ledger).val+amount.val →
      2^127-1 < (getTotalSupply env.ledger).val+amount.val) := by
  have hsound := reachable_sound h
  refine ⟨?_,fun env' => mint_effect,?_⟩
  · rw [mint_commits_iff hsound hauth, mintable_iff_verdicts, and_assoc]
  · have hheld : (getBalanceOf recipient env.ledger).val ≤ (getTotalSupply env.ledger).val :=
      hsound.holding_le_total recipient
    omega

theorem mint_success_deployed :
    ∃ env', Commits Call.body deployed
      ⟨fun a => a = 0,.mintAsset 0 1 ⟨3,by decide,by decide⟩⟩ env' :=
  (mint_success_exact ⟨deployment,rfl⟩ (by decide) 1 ⟨3,by decide,by decide⟩).1.mpr (by decide)

/-- Account 1 holds the whole supply. Every check of a further mint to it passes,
and the addition that traps, before anything is written, is the one to its
balance. -/
theorem balance_addition_overflows :
    (mintAsset 0 1 ⟨2^127-1,by decide,by decide⟩).exec (fun a => a = 0) deployed =
        (.error .overflow, deployed) ∧
      ¬∀ env : Env ℕ, Reachable Call.body Env.fresh env → ∀ caller recipient amount,
        evaluateMint caller recipient amount env.ledger = .ok .none →
        evaluateIssuance caller (some recipient) env.ledger = .allowed →
        ∃ balance, add (getBalanceOf recipient env.ledger) amount = .ok balance := by
  refine ⟨rfl,fun h => ?_⟩
  obtain ⟨balance, hadd⟩ :=
    h deployed ⟨deployment,rfl⟩ 0 1 ⟨2^127-1,by decide,by decide⟩ (by decide) (by decide)
  cases hadd

/-! ## The reason and the error -/

/-- The guards of a mint in order, its authentication aside. -/
def mintGuards (caller recipient : Address) (amount : I128) (l : Ledger Address) :
    Except Failure Unit := do
  requireNotPaused l
  requireRole caller .assetManager l
  requireIssuanceAuthority caller (some recipient) l
  requirePositive amount
  requireAssetMovable l
  requireCanReceive recipient l
  enforceSupplyCap amount l
  enforceHoldingCap recipient amount l

theorem mint_refused {auth : Auth Address} {env : Env Address} {f : Failure}
    (hauth : auth caller = true)
    (h : mintGuards caller recipient amount env.ledger = .error f) :
    (mintAsset caller recipient amount).exec auth env = (.error f, env) := by
  apply check_refuses h
  intro _ h
  rw [exec_signed hauth]
  apply check_refuses h
  intro _ h
  apply check_refuses h
  intro _ h
  apply errWhen_refuses h
  intro _ h
  apply check_refuses h
  intro _ h
  apply check_refuses h
  intro _ h
  apply check_refuses h
  intro _ h
  apply Host.exec_bind_of_error
  rw [exec_check, h]

/-- Whoever may mint acts for an initialised contract and holds the issuance
duty, so the first two issuance controls pass. -/
theorem issuance_of_canMint (recipient : Address) (h : canMint caller l = true) :
    evaluateIssuance caller (some recipient) l ≠ .notInitialized ∧
      evaluateIssuance caller (some recipient) l ≠ .missingIssuanceDuty := by
  obtain ⟨admin, hadmin, hwho⟩ := canMint_iff.mp h
  rw [IsAdmin] at hadmin
  have hhas : l.has .admin = true := by rw [Store.has, hadmin]; rfl
  have hduty : roleHasDuty (effectiveRole caller l) .issuance = true := by
    simp only [effectiveRole, hadmin]
    split_ifs with hself
    · rfl
    · rw [hwho.resolve_left (Ne.symm hself)]
      rfl
  simp only [evaluateIssuance, hhas, hduty, Bool.not_true, Bool.false_eq_true, if_false]
  cases getComplianceApprover recipient l <;> dsimp only <;> split_ifs <;> decide

/-- The separation policy refuses with errors no restriction reason has. -/
theorem separation_refused (hmint : canMint caller l = true)
    (hseparated : evaluateIssuance caller (some recipient) l ≠ .allowed) :
    ∃ e, requireIssuanceAuthority caller (some recipient) l = .error (.panic e) ∧
      ∀ reason, getRestrictionCode reason ≠ e.code := by
  obtain ⟨hinit, hduty⟩ := issuance_of_canMint recipient hmint
  rw [requireIssuanceAuthority]
  cases hguard : evaluateIssuance caller (some recipient) l with
  | allowed => exact absurd hguard hseparated
  | notInitialized => exact absurd hguard hinit
  | missingIssuanceDuty => exact absurd hguard hduty
  | dualDutyConflict =>
    refine ⟨.issuanceDutyConflict,rfl,fun reason => ?_⟩
    cases reason <;> decide
  | selfIssuanceForbidden =>
    refine ⟨.selfIssuanceForbidden,rfl,fun reason => ?_⟩
    cases reason <;> decide
  | approverConflict =>
    refine ⟨.issuanceApproverConflict,rfl,fun reason => ?_⟩
    cases reason <;> decide

/-- Without the right to mint the role check refuses, with the error of an
uninitialised contract if there is no admin. -/
theorem role_refused (hno : canMint caller l = false) :
    requireRole caller .assetManager l =
      .error (.panic (if l.has .admin then .unauthorized else .notInitialized)) := by
  rw [canMint] at hno
  rw [requireRole, getAdmin, Store.has]
  cases hadmin : l.get .admin with
  | none => rfl
  | some admin =>
    simp only [hadmin, decide_eq_false_iff_not, not_or] at hno
    simp [bind, Except.bind, hno]

/-- The evaluator's own sums with the caps leave the range of the amounts. -/
def CapSumTraps (recipient : Address) (amount : I128) (l : Ledger Address) : Prop :=
  0 < (getSupplyCap l).val ∧ 2^127-1 < (getTotalSupply l).val+amount.val ∨
    WithinCap (getSupplyCap l) (getTotalSupply l) amount ∧
      0 < (getHoldingCap l).val ∧ 2^127-1 < (getBalanceOf recipient l).val+amount.val

theorem evaluateMint_traps (hrun : isPaused l = false) (hmint : canMint caller l = true) :
    (∃ f, evaluateMint caller recipient amount l = .error f) ↔
      0 < amount.val ∧ getAssetStatus l = .active ∧
        getComplianceStatus recipient l = .approved ∧ CapSumTraps recipient amount l := by
  rw [evaluateMint, stage_traps, stage_traps, stage_traps]
  by_cases hpos : 0 < amount.val
  · rw [stage_traps, stage_traps, capStage_traps hpos, capStage_traps hpos]
    simp [hrun, hmint, hpos, assetStatusReason_isBlocked, isWhitelisted_iff, CapSumTraps]
  · apply iff_of_false
    · intro h
      exact hpos (not_le.mp h.2.2.1)
    · intro h
      exact hpos h.1

theorem mint_agrees
    (hadmin : isPaused l = false → canMint caller l = false → l.has .admin = true)
    (hallowed : isPaused l = false → canMint caller l = true →
      evaluateIssuance caller (some recipient) l = .allowed)
    (hheld : isPaused l = false → canMint caller l = true → 0 < amount.val →
      getAssetStatus l = .active → ¬Held (getComplianceStatus recipient l)) :
    Agrees (evaluateMint caller recipient amount l) (mintGuards caller recipient amount l) := by
  rw [evaluateMint, mintGuards]
  apply agrees_paused
  intro hrun
  apply Agrees.stage
  · intro hno
    have hcannot : canMint caller l = false := by simpa using hno
    refine ⟨.panic .unauthorized,?_,mirrors_of_error rfl rfl⟩
    rw [role_refused hcannot, if_pos (hadmin hrun hcannot)]
  · intro hyes
    have hcan : canMint caller l = true := by simpa using hyes
    refine ⟨requireRole_ok.mpr (canMint_iff.mp hcan),?_⟩
    rw [guard_bind_of_ok (requireIssuanceAuthority_ok (u := ()).mpr (hallowed hrun hcan))]
    apply agrees_amount
    intro hpos
    apply agrees_movable
    intro hactive
    apply agrees_cleared rfl (hheld hrun hcan hpos hactive)
    intro _
    apply Agrees.capStage rfl
    rw [← bind_pure_unit (x := enforceHoldingCap recipient amount l)]
    exact Agrees.capStage rfl agrees_none

/-! The three ways in which the guards belie the verdict. -/

theorem uninitialized_disagrees (hrun : isPaused l = false) (hno : canMint caller l = false)
    (hadmin : ¬l.has .admin = true) :
    ∃ reason f, evaluateMint caller recipient amount l = .ok reason ∧
      mintGuards caller recipient amount l = .error f ∧ ¬CodeMatches reason f := by
  refine ⟨.unauthorizedOperation,.panic .notInitialized,?_,?_,?_⟩
  · simp [evaluateMint, hrun, hno]
  · rw [mintGuards, guard_bind_of_ok (requireNotPaused_ok (u := ()).mpr hrun)]
    apply guard_bind_of_error
    rw [role_refused hno, if_neg hadmin]
  · rintro ⟨e, he, hcode⟩
    cases he
    exact absurd hcode (by decide)

theorem separation_disagrees (hrun : isPaused l = false) (hcan : canMint caller l = true)
    (hseparated : evaluateIssuance caller (some recipient) l ≠ .allowed)
    {reason : RestrictionReason} (hreason : evaluateMint caller recipient amount l = .ok reason) :
    ∃ reason f, evaluateMint caller recipient amount l = .ok reason ∧
      mintGuards caller recipient amount l = .error f ∧ ¬CodeMatches reason f := by
  obtain ⟨e, hguard, hunknown⟩ := separation_refused hcan hseparated
  refine ⟨reason,.panic e,hreason,?_,?_⟩
  · rw [mintGuards, guard_bind_of_ok (requireNotPaused_ok (u := ()).mpr hrun),
      guard_bind_of_ok (requireRole_ok (u := ()).mpr (canMint_iff.mp hcan))]
    exact guard_bind_of_error hguard
  · rintro ⟨e', he, hcode⟩
    cases he
    exact hunknown reason hcode

theorem held_disagrees (hrun : isPaused l = false) (hcan : canMint caller l = true)
    (hallowed : evaluateIssuance caller (some recipient) l = .allowed) (hpos : 0 < amount.val)
    (hactive : getAssetStatus l = .active) (hheld : Held (getComplianceStatus recipient l)) :
    ∃ reason f, evaluateMint caller recipient amount l = .ok reason ∧
      mintGuards caller recipient amount l = .error f ∧ ¬CodeMatches reason f := by
  have hopen : (assetStatusReason (getAssetStatus l)).isBlocked = false :=
    assetStatusReason_isBlocked.mpr hactive
  obtain ⟨hout, e, he, hguard⟩ :=
    held_refused .receiverBlocked .receiverCompliancePending .receiverNotWhitelisted hheld
  refine ⟨.recipientNotCompliant,.err e,?_,?_,?_⟩
  · simp [evaluateMint, hrun, hcan, hpos, hopen, hout]
  · rw [mintGuards, guard_bind_of_ok (requireNotPaused_ok (u := ()).mpr hrun),
      guard_bind_of_ok (requireRole_ok (u := ()).mpr (canMint_iff.mp hcan)),
      guard_bind_of_ok (requireIssuanceAuthority_ok (u := ()).mpr hallowed),
      guard_bind_of_ok (requirePositive_ok (u := ()).mpr hpos),
      guard_bind_of_ok (requireAssetMovable_ok (u := ()).mpr hactive)]
    exact guard_bind_of_error hguard
  · rintro ⟨e', he', hcode⟩
    cases he'
    rcases he with rfl | rfl <;> exact absurd hcode (by decide)

/-- The pre-flight verdict on a mint foretells its outcome: no reason, and it
commits; a reason, and it fails with the code of that reason. -/
def MintMirrored (auth : Auth Address) (env : Env Address) (caller recipient : Address)
    (amount : I128) : Prop :=
  ∀ reason, checkMintRestriction caller recipient amount env.ledger = .ok reason →
    (reason = .none →
      ∃ env', (mintAsset caller recipient amount).exec auth env = (.ok (), env')) ∧
    (reason.isBlocked = true →
      ∃ f env', (mintAsset caller recipient amount).exec auth env = (.error f, env') ∧
        CodeMatches reason f)

/-- What the evaluator sees of a mint whose authority is beyond doubt. -/
def Foreseen (recipient : Address) (amount : I128) (l : Ledger Address) : Prop :=
  amount.val ≤ 0 ∨ getAssetStatus l ≠ .active ∨
    getComplianceStatus recipient l = .unknown ∨ getComplianceStatus recipient l = .revoked ∨
    getComplianceStatus recipient l = .approved ∧
      (¬WithinCap (getSupplyCap l) (getTotalSupply l) amount ∨
        ¬WithinCap (getHoldingCap l) (getBalanceOf recipient l) amount ∨
        (getTotalSupply l).val+amount.val ≤ 2^127-1)

def MintForeseen (caller recipient : Address) (amount : I128) (l : Ledger Address) : Prop :=
  isPaused l = true ∨
    canMint caller l = false ∧ l.has .admin = true ∨
    canMint caller l = true ∧
      (0 < amount.val ∧ getAssetStatus l = .active ∧
          getComplianceStatus recipient l = .approved ∧ CapSumTraps recipient amount l ∨
        evaluateIssuance caller (some recipient) l = .allowed ∧ Foreseen recipient amount l)

section
variable {auth : Auth Address} {env : Env Address}

theorem mirrored_of_agrees (hsound : (bookOf env.ledger).Sound) (hauth : auth caller = true)
    (hagrees : Agrees (evaluateMint caller recipient amount env.ledger)
      (mintGuards caller recipient amount env.ledger))
    (hnone : evaluateMint caller recipient amount env.ledger = .ok .none →
      evaluateIssuance caller (some recipient) env.ledger = .allowed ∧
        (getTotalSupply env.ledger).val+amount.val ≤ 2^127-1) :
    MintMirrored auth env caller recipient amount := by
  intro reason hreason
  constructor
  · rintro rfl
    obtain ⟨hallowed, hfits⟩ := hnone hreason
    exact (mint_commits_iff hsound hauth).mpr ⟨mintable_iff_verdicts.mpr ⟨hreason,hallowed⟩,hfits⟩
  · intro hblocked
    obtain ⟨f, hguards, hmirrors⟩ := hagrees reason hreason hblocked
    exact ⟨f,env,mint_refused hauth hguards,hmirrors.codeMatches⟩

theorem not_mirrored (hauth : auth caller = true)
    (hdisagree : ∃ reason f, evaluateMint caller recipient amount env.ledger = .ok reason ∧
      mintGuards caller recipient amount env.ledger = .error f ∧ ¬CodeMatches reason f) :
    ¬MintMirrored auth env caller recipient amount := by
  obtain ⟨reason, f, hreason, hguards, hcode⟩ := hdisagree
  intro h
  obtain ⟨hnone, hblocked⟩ := h reason hreason
  rw [mint_refused hauth hguards] at hnone hblocked
  by_cases hr : reason = .none
  · obtain ⟨env', hexec⟩ := hnone hr
    cases hexec
  · obtain ⟨f', env', hexec, hmatches⟩ := hblocked (by simpa [RestrictionReason.isBlocked] using hr)
    cases hexec
    exact hcode hmatches

theorem foreseen_mirrored (hsound : (bookOf env.ledger).Sound) (hauth : auth caller = true)
    (h : MintForeseen caller recipient amount env.ledger) :
    MintMirrored auth env caller recipient amount := by
  by_cases hpaused : isPaused env.ledger = true
  · have hstop : ¬isPaused env.ledger = false := by simp [hpaused]
    apply mirrored_of_agrees hsound hauth
    · exact mint_agrees (fun hrun => absurd hrun hstop) (fun hrun => absurd hrun hstop)
        fun hrun => absurd hrun hstop
    · intro hnone
      exact absurd (evaluateMint_none.mp hnone).1 hstop
  have hrun : isPaused env.ledger = false := Bool.not_eq_true _ ▸ hpaused
  rcases h with hstop | ⟨hno, hadmin⟩ | ⟨hcan, htraps | ⟨hallowed, hforeseen⟩⟩
  · exact absurd hstop hpaused
  · have hcannot : ¬canMint caller env.ledger = true := by simp [hno]
    apply mirrored_of_agrees hsound hauth
    · exact mint_agrees (fun _ _ => hadmin) (fun _ hcan => absurd hcan hcannot)
        fun _ hcan => absurd hcan hcannot
    · intro hnone
      exact absurd (evaluateMint_none.mp hnone).2.1 hcannot
  · intro reason hreason
    obtain ⟨f, hf⟩ := (evaluateMint_traps hrun hcan).mpr htraps
    rw [checkMintRestriction, hf] at hreason
    cases hreason
  · have hcannot : ¬canMint caller env.ledger = false := by simp [hcan]
    apply mirrored_of_agrees hsound hauth
    · apply mint_agrees (fun _ hno => absurd hno hcannot) fun _ _ => hallowed
      intro _ _ hpos hactive
      rcases hforeseen with hle | hinactive | h | h | ⟨h, -⟩
      · exact absurd hpos (not_lt.mpr hle)
      · exact absurd hactive hinactive
      · simp [Held, h]
      · simp [Held, h]
      · simp [Held, h]
    · intro hnone
      obtain ⟨-, -, hpos, hactive, hcleared, hsupply, hholding⟩ := evaluateMint_none.mp hnone
      refine ⟨hallowed,?_⟩
      rcases hforeseen with hle | hinactive | h | h | ⟨-, h | h | hfits⟩
      · exact absurd hpos (not_lt.mpr hle)
      · exact absurd hactive hinactive
      · exact absurd (h.symm.trans hcleared) (by decide)
      · exact absurd (h.symm.trans hcleared) (by decide)
      · exact absurd hsupply h
      · exact absurd hholding h
      · exact hfits

/-- With its authority settled a mirrored mint is one the evaluator foresaw. -/
theorem foreseen_of_mirrored (hauth : auth caller = true) (hrun : isPaused env.ledger = false)
    (hcan : canMint caller env.ledger = true)
    (hallowed : evaluateIssuance caller (some recipient) env.ledger = .allowed)
    (h : MintMirrored auth env caller recipient amount) :
    Foreseen recipient amount env.ledger := by
  by_cases hpos : 0 < amount.val
  swap
  · exact Or.inl (not_lt.mp hpos)
  by_cases hactive : getAssetStatus env.ledger = .active
  swap
  · exact Or.inr (Or.inl hactive)
  refine Or.inr (Or.inr ?_)
  have hheld : ¬Held (getComplianceStatus recipient env.ledger) := by
    intro hheld
    exact not_mirrored hauth (held_disagrees hrun hcan hallowed hpos hactive hheld) h
  cases hstatus : getComplianceStatus recipient env.ledger with
  | unknown => exact Or.inl rfl
  | revoked => exact Or.inr (Or.inl rfl)
  | pending => exact absurd (Or.inl hstatus) hheld
  | blocked => exact absurd (Or.inr hstatus) hheld
  | approved =>
    refine Or.inr (Or.inr ⟨rfl,?_⟩)
    by_cases hsupply : WithinCap (getSupplyCap env.ledger) (getTotalSupply env.ledger) amount
    swap
    · exact Or.inl hsupply
    by_cases hholding :
        WithinCap (getHoldingCap env.ledger) (getBalanceOf recipient env.ledger) amount
    swap
    · exact Or.inr (Or.inl hholding)
    have hnone := evaluateMint_none.mpr ⟨hrun,hcan,hpos,hactive,hstatus,hsupply,hholding⟩
    obtain ⟨env', hexec⟩ := (h .none hnone).1 rfl
    obtain ⟨-, -, balance, supply, -, hfits, -⟩ := mintAsset_ok.mp hexec
    exact Or.inr (Or.inr (hfits.trans_le supply.le_hi))

theorem mirrored_foreseen (hauth : auth caller = true)
    (h : MintMirrored auth env caller recipient amount) :
    MintForeseen caller recipient amount env.ledger := by
  by_cases hpaused : isPaused env.ledger = true
  · exact Or.inl hpaused
  have hrun : isPaused env.ledger = false := Bool.not_eq_true _ ▸ hpaused
  refine Or.inr ?_
  cases hcan : canMint caller env.ledger with
  | false =>
    refine Or.inl ⟨rfl,?_⟩
    by_contra hadmin
    exact not_mirrored hauth (uninitialized_disagrees hrun hcan hadmin) h
  | true =>
    refine Or.inr ⟨rfl,?_⟩
    by_cases hallowed : evaluateIssuance caller (some recipient) env.ledger = .allowed
    · exact Or.inr ⟨hallowed,foreseen_of_mirrored hauth hrun hcan hallowed h⟩
    · left
      rw [← evaluateMint_traps hrun hcan]
      cases hverdict : evaluateMint caller recipient amount env.ledger with
      | error f => exact ⟨f,rfl⟩
      | ok reason =>
        have hdisagree := separation_disagrees hrun hcan hallowed hverdict
        exact absurd h (not_mirrored hauth hdisagree)

end

theorem mint_preflight_iff {env : Env Address} (h : Reachable Call.body Env.fresh env)
    {auth : Auth Address} {caller : Address} (hauth : auth caller = true) (recipient : Address)
    (amount : I128) :
    MintMirrored auth env caller recipient amount ↔
      MintForeseen caller recipient amount env.ledger :=
  ⟨mirrored_foreseen hauth,foreseen_mirrored (reachable_sound h) hauth⟩

theorem mint_preflight_deployed :
    MintMirrored (fun a => a = 0) deployed 0 1 ⟨3,by decide,by decide⟩ := by
  apply (mint_preflight_iff ⟨deployment,rfl⟩ (by decide) 1 _).mpr
  refine Or.inr (Or.inr ⟨by decide,Or.inr ⟨by decide,?_⟩⟩)
  refine Or.inr (Or.inr (Or.inr (Or.inr ⟨by decide,?_⟩)))
  exact Or.inr (Or.inr (by decide))

/-- A contract whose policy forbids the admin to issue to itself. -/
def separation : List (Signed ℕ) :=
  [⟨fun a => a = 0,.initializeContract 0⟩,
    ⟨fun a => a = 0,.setIssuerSeparationPolicy 0 ⟨true,true,false,false⟩⟩,
    ⟨fun a => a = 0,.setAssetStatus 0 .active⟩,
    ⟨fun a => a = 0,.setComplianceStatus 0 0 .approved⟩]

theorem separation_not_foreseen :
    Reachable Call.body Env.fresh (run Call.body separation Env.fresh) ∧
      ¬MintMirrored (fun a => a = 0) (run Call.body separation Env.fresh) 0 0
        ⟨5,by decide,by decide⟩ := by
  refine ⟨⟨separation,rfl⟩,fun h => ?_⟩
  obtain ⟨env', hexec⟩ := (h .none (by decide)).1 rfl
  cases hexec

end Aegis
