import Aegis.MintPreflight
import Aegis.Snapshots

/-!
# Where the pre-flight reads trap

The evaluators form their sums with a positive cap by checked addition, on
an amount the caller chooses, so a read can abort instead of naming a
reason. The snapshot of an investor subtracts a reachable balance from a cap
and cannot.
-/

set_option autoImplicit false

namespace Aegis
open HostKit

variable {Address : Type} {caller sender recipient : Address} {amount : I128} {l : Ledger Address}

theorem returns_iff {α : Type} {x : Except Failure α} :
    (∃ a, x = .ok a) ↔ ¬∃ f, x = .error f := by
  cases x <;> simp

/-- The checks of a transfer before its cap. -/
@[mk_iff]
structure TransferOpens (sender recipient : Address) (amount : I128) (l : Ledger Address) :
    Prop where
  running : isPaused l = false
  positive : 0 < amount.val
  active : getAssetStatus l = .active
  senderCleared : getComplianceStatus sender l = .approved
  recipientCleared : getComplianceStatus recipient l = .approved

/-- The read of a transfer gets as far as its sum with a positive holding cap,
and the sum leaves the range of the amounts. -/
@[mk_iff]
structure TransferSumTraps (sender recipient : Address) (amount : I128) (l : Ledger Address) :
    Prop extends TransferOpens sender recipient amount l where
  capped : 0 < (getHoldingCap l).val
  oversized : 2^127-1 < (getBalanceOf recipient l).val+amount.val

theorem evaluateTransfer_traps : (∃ f, evaluateTransfer sender recipient amount l = .error f) ↔
    TransferSumTraps sender recipient amount l := by
  rw [evaluateTransfer, stage_traps, stage_traps]
  by_cases hpos : 0 < amount.val
  · rw [stage_traps, stage_traps, stage_traps, capStage_traps hpos, stage_traps]
    simp [transferSumTraps_iff, transferOpens_iff, hpos, assetStatusReason_isBlocked,
      isWhitelisted_iff, and_assoc]
  · apply iff_of_false
    · intro h
      exact hpos (not_le.mp h.2.1)
    · intro h
      exact hpos h.positive

theorem checkTransferEligibility_traps :
    (∃ f, checkTransferEligibility sender recipient amount l = .error f) ↔
      TransferSumTraps sender recipient amount l := by
  rw [← evaluateTransfer_traps, checkTransferEligibility]
  cases evaluateTransfer sender recipient amount l <;> simp [bind, Except.bind]

variable [DecidableEq Address]

/-- The read of a mint gets as far as a sum with a positive cap, and that sum
leaves the range of the amounts. -/
@[mk_iff]
structure MintSumTraps (caller recipient : Address) (amount : I128) (l : Ledger Address) :
    Prop where
  running : isPaused l = false
  manages : canMint caller l = true
  positive : 0 < amount.val
  active : getAssetStatus l = .active
  cleared : getComplianceStatus recipient l = .approved
  oversized : CapSumTraps recipient amount l

theorem checkMintRestriction_traps :
    (∃ f, checkMintRestriction caller recipient amount l = .error f) ↔
      MintSumTraps caller recipient amount l := by
  rw [checkMintRestriction, mintSumTraps_iff]
  cases hpaused : isPaused l with
  | true => simp [evaluateMint, hpaused]
  | false =>
    cases hcan : canMint caller l with
    | true => simp [evaluateMint_traps hpaused hcan]
    | false => simp [evaluateMint, hpaused, hcan]

/-! ## The four reads together -/

/-- Every pre-flight read about the amount returns a value. -/
def ReadsReturn (caller sender recipient : Address) (amount : I128) (l : Ledger Address) : Prop :=
  (∃ r, checkTransferRestriction sender recipient amount l = .ok r) ∧
    (∃ r, checkMintRestriction caller recipient amount l = .ok r) ∧
    (∃ b, checkTransferEligibility sender recipient amount l = .ok b) ∧
    ∀ investor, ∃ s, getInvestorEligibility investor l = .ok s

theorem reads_return_iff {env : Env Address} (h : Reachable Call.body Env.fresh env)
    (caller sender recipient : Address) (amount : I128) :
    ReadsReturn caller sender recipient amount env.ledger ↔
      ¬TransferSumTraps sender recipient amount env.ledger ∧
        ¬MintSumTraps caller recipient amount env.ledger := by
  have hsnapshots : ∀ investor, ∃ s, getInvestorEligibility investor env.ledger = .ok s := by
    intro investor
    obtain ⟨s, hs, -⟩ := getInvestorEligibility_ok ((reachable_sound h).nonneg investor)
    exact ⟨s,hs⟩
  rw [ReadsReturn, checkTransferRestriction, returns_iff, returns_iff, returns_iff,
    evaluateTransfer_traps, checkMintRestriction_traps, checkTransferEligibility_traps]
  tauto

theorem reads_return_deployed : ReadsReturn 0 1 1 ⟨2^127-1,by decide,by decide⟩ deployed.ledger :=
  (reads_return_iff ⟨deployment,rfl⟩ 0 1 1 _).mpr
    ⟨fun h => absurd h.capped (by decide),
      fun h => absurd h.oversized (by rintro (⟨h, -⟩ | ⟨-, h, -⟩) <;> exact absurd h (by decide))⟩

/-- The deployment under a holding cap of ten units. -/
def capping : List (Signed ℕ) :=
  deployment++
    [⟨fun a => a = 0,.proposeHoldingCap 0 ⟨10,by decide,by decide⟩⟩,
      ⟨fun a => a = 0,.acceptHoldingCap 0⟩]

def capped : Env ℕ := run Call.body capping Env.fresh

/-- The holder of five units asks about the largest amount there is. -/
theorem largest_amount_traps :
    Reachable Call.body Env.fresh capped ∧
      checkTransferRestriction 1 1 ⟨2^127-1,by decide,by decide⟩ capped.ledger =
        .error .overflow ∧
      ¬ReadsReturn 0 1 1 ⟨2^127-1,by decide,by decide⟩ capped.ledger := by
  refine ⟨⟨capping,rfl⟩,rfl,?_⟩
  rintro ⟨⟨r, hr⟩, -⟩
  cases hr

end Aegis
