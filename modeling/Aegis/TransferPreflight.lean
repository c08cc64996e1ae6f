import Aegis.Conservation
import Aegis.Preflight

/-!
# The pre-flight read of transfers

Whether a transfer commits is read exactly. Why it fails is not: the
evaluator knows only whether a party is cleared, while enforcement has an
error of its own for a pending and for a blocked party.
-/

set_option autoImplicit false

namespace Aegis
open HostKit

variable {Address : Type} {sender recipient : Address} {amount : I128} {l : Ledger Address}

theorem evaluateTransfer_none : evaluateTransfer sender recipient amount l = .ok .none ↔
    Transferable sender recipient amount l := by
  rw [evaluateTransfer, stage_none nofun, stage_none nofun]
  by_cases hpos : 0 < amount.val
  · rw [stage_none asset_blocked_ne_none, stage_none nofun, stage_none nofun,
      capStage_none (r := .holdingCapExceeded) nofun hpos, stage_none nofun]
    simp [transferable_iff, hpos, assetStatusReason_isBlocked, isWhitelisted_iff]
  · apply iff_of_false
    · intro h
      exact hpos (not_le.mp h.2.1)
    · intro h
      exact hpos h.positive

variable [DecidableEq Address]

/-! ## Exactness of the verdict -/

/-- A sound book leaves a covered transfer no room to overflow, whether or not
its parties differ. -/
theorem transfer_sums (recipient : Address) (hsound : (bookOf l).Sound) (hpos : 0 < amount.val)
    (hcover : amount.val ≤ (getBalanceOf sender l).val) :
    ∃ debited credited : I128, (getBalanceOf sender l).val-amount.val = debited.val ∧
      (getBalanceOf recipient (l.set (.balance sender) debited)).val+amount.val =
        credited.val := by
  have hlow := (getBalanceOf recipient l).lo_le
  have hhigh := (getBalanceOf sender l).le_hi
  obtain ⟨debited, hdebit⟩ : ∃ c : I128, c.val = (getBalanceOf sender l).val-amount.val :=
    CheckedInt.exists_val (by omega) (by omega)
  refine ⟨debited,?_⟩
  have hread : getBalanceOf recipient (l.set (.balance sender) debited) =
      if recipient = sender then debited else getBalanceOf recipient l := by
    rw [getBalanceOf, get_set_balance]
    split_ifs <;> rfl
  rw [hread]
  by_cases hself : recipient = sender
  · exact ⟨getBalanceOf sender l,hdebit.symm,by rw [if_pos hself]; omega⟩
  · have hpair : (getBalanceOf recipient l).val+(getBalanceOf sender l).val ≤
        (getTotalSupply l).val := hsound.pair_le_total hself
    have htop := (getTotalSupply l).le_hi
    obtain ⟨credited, hcredit⟩ : ∃ c : I128, c.val = (getBalanceOf recipient l).val+amount.val :=
      CheckedInt.exists_val (by omega) (by omega)
    exact ⟨credited,hdebit.symm,by rw [if_neg hself, hcredit]⟩

theorem transfer_commits_iff {auth : Auth Address} {env : Env Address}
    (hsound : (bookOf env.ledger).Sound) (hauth : auth sender = true) :
    (∃ env', Commits Call.body env ⟨auth,.transfer sender recipient amount⟩ env') ↔
      Transferable sender recipient amount env.ledger := by
  constructor
  · rintro ⟨env', h⟩
    exact (transfer_ok.mp h).2.1
  · intro hmovable
    obtain ⟨debited, credited, hdebit, hcredit⟩ :=
      transfer_sums recipient hsound hmovable.positive hmovable.covered
    exact ⟨_,transfer_ok.mpr ⟨hauth,hmovable,debited,credited,hdebit,hcredit,rfl⟩⟩

theorem transfer_preflight_exact {env : Env Address} (h : Reachable Call.body Env.fresh env)
    {auth : Auth Address} {sender : Address} (hauth : auth sender = true) (recipient : Address)
    (amount : I128) :
    (checkTransferRestriction sender recipient amount env.ledger = .ok .none ↔
      ∃ env', Commits Call.body env ⟨auth,.transfer sender recipient amount⟩ env') ∧
    (checkTransferEligibility sender recipient amount env.ledger = .ok true ↔
      ∃ env', Commits Call.body env ⟨auth,.transfer sender recipient amount⟩ env') ∧
    (checkTransferRestriction sender recipient amount env.ledger = .ok .none →
      ∃ debited credited, sub (getBalanceOf sender env.ledger) amount = .ok debited ∧
        add (getBalanceOf recipient (env.ledger.set (.balance sender) debited)) amount =
          .ok credited) := by
  have hsound := reachable_sound h
  rw [checkTransferRestriction, checkTransferEligibility_eq_true, evaluateTransfer_none,
    transfer_commits_iff hsound hauth]
  refine ⟨Iff.rfl,Iff.rfl,fun hmovable => ?_⟩
  obtain ⟨debited, credited, hdebit, hcredit⟩ :=
    transfer_sums recipient hsound hmovable.positive hmovable.covered
  exact ⟨debited,credited,sub_ok.mpr hdebit,add_ok.mpr hcredit⟩

theorem transfer_preflight_deployed :
    ∃ env', Commits Call.body deployed
      ⟨fun a => a = 1,.transfer 1 1 ⟨3,by decide,by decide⟩⟩ env' :=
  (transfer_preflight_exact ⟨deployment,rfl⟩ (by decide) 1 ⟨3,by decide,by decide⟩).1.mp (by decide)

/-! ## The reason and the error -/

def requireCovered (sender : Address) (amount : I128) (l : Ledger Address) : Except Failure Unit :=
  if (getBalanceOf sender l).val < amount.val then .error (.err .insufficientBalance) else .ok ()

/-- The guards of a transfer in order, its authentication aside. -/
def transferGuards (sender recipient : Address) (amount : I128) (l : Ledger Address) :
    Except Failure Unit := do
  requireNotPaused l
  requirePositive amount
  requireAssetMovable l
  requireCanSend sender l
  requireCanReceive recipient l
  enforceHoldingCap recipient amount l
  requireCovered sender amount l

theorem transfer_refused {auth : Auth Address} {env : Env Address} {f : Failure}
    (hauth : auth sender = true)
    (h : transferGuards sender recipient amount env.ledger = .error f) :
    (transfer sender recipient amount).exec auth env = (.error f, env) := by
  apply check_refuses h
  intro _ h
  rw [exec_signed hauth]
  apply errWhen_refuses h
  intro _ h
  apply check_refuses h
  intro _ h
  apply check_refuses h
  intro _ h
  apply check_refuses h
  intro _ h
  apply check_refuses h
  intro _ h
  rw [Host.exec_bind_of_ok (exec_load (getBalanceOf sender))]
  apply Host.exec_bind_of_error
  rw [exec_errWhen]
  exact Prod.ext h rfl

/-- The transfer reaches its compliance checks and stops there at a party that
is pending or blocked. -/
def Masked (sender recipient : Address) (amount : I128) (l : Ledger Address) : Prop :=
  isPaused l = false ∧ 0 < amount.val ∧ getAssetStatus l = .active ∧
    (Held (getComplianceStatus sender l) ∨
      getComplianceStatus sender l = .approved ∧ Held (getComplianceStatus recipient l))

omit [DecidableEq Address] in
theorem transfer_agrees (hclear : ¬Masked sender recipient amount l) :
    Agrees (evaluateTransfer sender recipient amount l)
      (transferGuards sender recipient amount l) := by
  rw [evaluateTransfer, transferGuards]
  apply agrees_paused
  intro hrun
  apply agrees_amount
  intro hpos
  apply agrees_movable
  intro hactive
  apply agrees_cleared rfl fun hheld => hclear ⟨hrun,hpos,hactive,Or.inl hheld⟩
  intro hsender
  apply agrees_cleared rfl fun hheld => hclear ⟨hrun,hpos,hactive,Or.inr ⟨hsender,hheld⟩⟩
  intro _
  apply Agrees.capStage rfl
  exact agrees_last rfl

omit [DecidableEq Address] in
theorem masked_disagrees (h : Masked sender recipient amount l) :
    ∃ reason f, evaluateTransfer sender recipient amount l = .ok reason ∧
      reason.isBlocked = true ∧ transferGuards sender recipient amount l = .error f ∧
      ¬Mirrors reason f := by
  obtain ⟨hrun, hpos, hactive, hparty⟩ := h
  have hopen : (assetStatusReason (getAssetStatus l)).isBlocked = false :=
    assetStatusReason_isBlocked.mpr hactive
  rw [transferGuards, guard_bind_of_ok (requireNotPaused_ok (u := ()).mpr hrun),
    guard_bind_of_ok (requirePositive_ok (u := ()).mpr hpos),
    guard_bind_of_ok (requireAssetMovable_ok (u := ()).mpr hactive)]
  rcases hparty with hsender | ⟨hsender, hrecipient⟩
  · obtain ⟨hout, e, he, hguard⟩ :=
      held_refused .senderBlocked .senderCompliancePending .senderNotWhitelisted hsender
    refine ⟨.senderNotCompliant,.err e,?_,rfl,guard_bind_of_error hguard,?_⟩
    · simp [evaluateTransfer, hrun, hpos, hopen, hout]
    · rcases he with rfl | rfl <;> exact not_mirrors rfl
  · obtain ⟨hout, e, he, hguard⟩ :=
      held_refused .receiverBlocked .receiverCompliancePending .receiverNotWhitelisted hrecipient
    have hin := isWhitelisted_iff.mpr hsender
    rw [guard_bind_of_ok (requireCanSend_ok (u := ()).mpr hsender)]
    refine ⟨.recipientNotCompliant,.err e,?_,rfl,guard_bind_of_error hguard,?_⟩
    · simp [evaluateTransfer, hrun, hpos, hopen, hin, hout]
    · rcases he with rfl | rfl <;> exact not_mirrors rfl

/-- The pre-flight reason of a transfer is the one its failure reports. -/
def TransferMirrored (auth : Auth Address) (env : Env Address) (sender recipient : Address)
    (amount : I128) : Prop :=
  ∀ reason, checkTransferRestriction sender recipient amount env.ledger = .ok reason →
    reason.isBlocked = true →
    ∃ f env', (transfer sender recipient amount).exec auth env = (.error f, env') ∧
      Mirrors reason f

theorem transfer_reason_iff {auth : Auth Address} {sender : Address} (hauth : auth sender = true)
    (env : Env Address) (recipient : Address) (amount : I128) :
    TransferMirrored auth env sender recipient amount ↔
      ¬Masked sender recipient amount env.ledger := by
  constructor
  · intro hmirrored hmasked
    obtain ⟨reason, f, hreason, hblocked, hguards, hnot⟩ := masked_disagrees hmasked
    obtain ⟨f', env', hexec, hmirrors⟩ := hmirrored reason hreason hblocked
    rw [transfer_refused hauth hguards] at hexec
    cases hexec
    exact hnot hmirrors
  · intro hclear reason hreason hblocked
    obtain ⟨f, hguards, hmirrors⟩ := transfer_agrees hclear reason hreason hblocked
    exact ⟨f,env,transfer_refused hauth hguards,hmirrors⟩

theorem transfer_reason_deployed :
    TransferMirrored (fun a => a = 1) deployed 1 2 ⟨3,by decide,by decide⟩ :=
  (transfer_reason_iff (by decide) deployed 2 _).mpr (by
    rintro ⟨-, -, -, (h | h) | ⟨-, h | h⟩⟩
    all_goals exact absurd h (by decide))

/-- The deployment with its holder frozen. -/
def frozen : Env ℕ :=
  run Call.body [⟨fun a => a = 0,.setComplianceStatus 0 1 .blocked⟩] deployed

theorem frozen_reason_differs : Reachable Call.body Env.fresh frozen ∧
    ¬TransferMirrored (fun a => a = 1) frozen 1 1 ⟨3,by decide,by decide⟩ := by
  refine ⟨⟨deployment++[⟨fun a => a = 0,.setComplianceStatus 0 1 .blocked⟩],rfl⟩,fun h => ?_⟩
  obtain ⟨f, env', hexec, e, he, hcode, -⟩ := h .senderNotCompliant rfl rfl
  cases hexec
  cases he
  exact absurd hcode (by decide)

end Aegis
