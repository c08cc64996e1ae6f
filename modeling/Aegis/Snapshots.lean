import Aegis.TransferPreflight

/-!
# Snapshots and the verdict on a transfer

The snapshot of an investor states the holding cap as headroom, the
evaluator as a bound on a sum. On balances that are not negative the two
agree, and the snapshots of both parties determine the verdict for every
amount.
-/

set_option autoImplicit false

namespace Aegis
open HostKit

/-- An amount fits the headroom reported, and any amount does if none is. -/
def Fits (amount : I128) (remaining : Option I128) : Prop :=
  remaining = none ∨ ∃ capacity, remaining = some capacity ∧ amount.val ≤ capacity.val

/-- A balance that is not negative leaves the headroom of a positive cap in
range, also where the balance is above the cap. -/
theorem remainingCapacity_ok (cap : I128) {balance : I128} (hbalance : 0 ≤ balance.val) :
    ∃ remaining, remainingCapacityUnder cap balance = .ok remaining ∧
      ∀ amount : I128, 0 < amount.val → (Fits amount remaining ↔ WithinCap cap balance amount) := by
  rw [remainingCapacityUnder]
  by_cases hoff : cap.val ≤ 0
  · refine ⟨none,if_pos hoff,fun amount _ => iff_of_true (Or.inl rfl) fun hon => ?_⟩
    exact absurd hon (not_lt.mpr hoff)
  · have hon : 0 < cap.val := not_le.mp hoff
    have hhigh := cap.le_hi
    have htop := balance.le_hi
    obtain ⟨headroom, hheadroom⟩ : ∃ c : I128, c.val = cap.val-balance.val :=
      CheckedInt.exists_val (by omega) (by omega)
    rw [if_neg hoff, sub_ok.mpr hheadroom.symm]
    refine ⟨some (headroom.max 0),rfl,fun amount hpos => ?_⟩
    have hzero : (0 : I128).val = 0 := rfl
    simp only [Fits, WithinCap, reduceCtorEq, false_or, Option.some.injEq, exists_eq_left',
      CheckedInt.max_val, hheadroom, hzero, hon, forall_true_left]
    omega

variable {Address : Type} {investor : Address} {l : Ledger Address}

/-- The flags of a snapshot, and what its headroom says of any amount. -/
theorem getInvestorEligibility_ok (hbalance : 0 ≤ (getBalanceOf investor l).val) :
    ∃ s, getInvestorEligibility investor l = .ok s ∧ s.balance = getBalanceOf investor l ∧
      (s.canSend = true ↔ getComplianceStatus investor l = .approved ∧ isPaused l = false ∧
        getAssetStatus l = .active ∧ 0 < (getBalanceOf investor l).val) ∧
      (s.canReceive = true ↔ getComplianceStatus investor l = .approved ∧ isPaused l = false ∧
        getAssetStatus l = .active ∧
          ((getHoldingCap l).val ≤ 0 ∨
            (getBalanceOf investor l).val < (getHoldingCap l).val)) ∧
      ∀ amount : I128, 0 < amount.val → (Fits amount s.remainingCapacity ↔
        WithinCap (getHoldingCap l) (getBalanceOf investor l) amount) := by
  obtain ⟨remaining, hremaining, hfits⟩ := remainingCapacity_ok (getHoldingCap l) hbalance
  refine ⟨_,(guard_bind_of_ok hremaining).trans rfl,rfl,?_,?_,hfits⟩
  · simp [ComplianceStatus.isApproved, and_assoc]
  · simp [ComplianceStatus.isApproved, and_assoc]

variable [DecidableEq Address] {env : Env Address}

theorem snapshots_determine_transfers (h : Reachable Call.body Env.fresh env)
    (sender recipient : Address) {amount : I128} (hpos : 1 ≤ amount.val) :
    ∃ s r, getInvestorEligibility sender env.ledger = .ok s ∧
      getInvestorEligibility recipient env.ledger = .ok r ∧
      (checkTransferEligibility sender recipient amount env.ledger = .ok true ↔
        s.canSend = true ∧ amount.val ≤ s.balance.val ∧ r.canReceive = true ∧
          Fits amount r.remainingCapacity) := by
  have hsound := reachable_sound h
  obtain ⟨s, hs, hbalance, hsend, -, -⟩ := getInvestorEligibility_ok (hsound.nonneg sender)
  obtain ⟨r, hr, -, -, hreceive, hfits⟩ := getInvestorEligibility_ok (hsound.nonneg recipient)
  refine ⟨s,r,hs,hr,?_⟩
  rw [checkTransferEligibility_eq_true, evaluateTransfer_none, hsend, hbalance, hreceive,
    hfits amount hpos]
  constructor
  · intro hmovable
    have hcover := hmovable.covered
    have hheadroom : (getHoldingCap env.ledger).val ≤ 0 ∨
        (getBalanceOf recipient env.ledger).val < (getHoldingCap env.ledger).val := by
      by_contra hfull
      have hbound := hmovable.withinHolding (by omega)
      omega
    exact ⟨⟨hmovable.senderCleared,hmovable.running,hmovable.active,by omega⟩,hcover,
      ⟨hmovable.recipientCleared,hmovable.running,hmovable.active,hheadroom⟩,
      hmovable.withinHolding⟩
  · rintro ⟨⟨hsender, hrun, hactive, -⟩, hcover, ⟨hrecipient, -⟩, hwithin⟩
    exact ⟨hrun,hpos,hactive,hsender,hrecipient,hwithin,hcover⟩

theorem snapshots_determine_deployed :
    ∃ s r, getInvestorEligibility 1 deployed.ledger = .ok s ∧
      getInvestorEligibility 1 deployed.ledger = .ok r ∧
      (checkTransferEligibility 1 1 ⟨3,by decide,by decide⟩ deployed.ledger = .ok true ↔
        s.canSend = true ∧ 3 ≤ s.balance.val ∧ r.canReceive = true ∧
          Fits ⟨3,by decide,by decide⟩ r.remainingCapacity) :=
  snapshots_determine_transfers ⟨deployment,rfl⟩ 1 1 (by decide)

end Aegis
