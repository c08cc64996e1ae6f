import Aegis.ReadTraps

/-!
# The holding cap and the resulting balance

A transfer compares the cap with the receiver's balance plus the amount,
before the sender is debited. Between two parties that sum is what the
receiver ends with; in a transfer to oneself it is not.
-/

set_option autoImplicit false

namespace Aegis
open HostKit

variable {Address : Type} [DecidableEq Address] {auth : Auth Address} {env : Env Address}
  {sender recipient : Address} {amount : I128} {l : Ledger Address}

/-- What the receiver holds once the movement is posted. -/
def heldAfter (sender recipient : Address) (amount : I128) (l : Ledger Address) : ℤ :=
  (Book.post (.move sender recipient amount.val) (bookOf l)).holding recipient

theorem heldAfter_eq : heldAfter sender recipient amount l =
    (getBalanceOf recipient l).val+if recipient = sender then 0 else amount.val := by
  simp only [heldAfter, Book.post, Book.adjust, bookOf]
  split_ifs <;> omega

/-- Everything a transfer requires but the holding cap. -/
structure TransferableButCap (sender recipient : Address) (amount : I128) (l : Ledger Address) :
    Prop extends TransferOpens sender recipient amount l where
  covered : amount.val ≤ (getBalanceOf sender l).val

omit [DecidableEq Address] in
/-- Past the other checks a refusing cap decides the transfer. -/
theorem transferGuards_capped (h : TransferableButCap sender recipient amount l) {f : Failure}
    (hcap : enforceHoldingCap recipient amount l = .error f) :
    transferGuards sender recipient amount l = .error f := by
  rw [transferGuards, guard_bind_of_ok (requireNotPaused_ok (u := ()).mpr h.running),
    guard_bind_of_ok (requirePositive_ok (u := ()).mpr h.positive),
    guard_bind_of_ok (requireAssetMovable_ok (u := ()).mpr h.active),
    guard_bind_of_ok (requireCanSend_ok (u := ()).mpr h.senderCleared),
    guard_bind_of_ok (requireCanReceive_ok (u := ()).mpr h.recipientCleared)]
  exact guard_bind_of_error hcap

/-- A sum above a positive cap is refused with the typed error if it is an
amount, and traps if it is not. -/
theorem enforceCap_exceeded {cap current incoming : I128} (hon : 0 < cap.val)
    (hgt : cap.val < current.val+incoming.val) (e : Error) :
    enforceCap cap current incoming e =
      .error (if current.val+incoming.val ≤ 2^127-1 then .err e else .overflow) := by
  rw [enforceCap, if_neg (not_le.mpr hon)]
  split_ifs with hfits
  · obtain ⟨sum, hsum⟩ : ∃ c : I128, c.val = current.val+incoming.val :=
      CheckedInt.exists_val (by omega) hfits
    rw [guard_bind_of_ok (add_ok.mpr hsum.symm), if_pos (by omega)]
  · apply guard_bind_of_error
    rw [add, CheckedInt.checkedAdd_eq_none.mpr (Or.inr (not_le.mp hfits))]

def FailsWithHoldingCap (auth : Auth Address) (env : Env Address) (sender recipient : Address)
    (amount : I128) : Prop :=
  ∃ f env', (transfer sender recipient amount).exec auth env = (.error f, env') ∧
    f.error = some .holdingCapExceeded

theorem failsWithHoldingCap_iff (hsound : (bookOf env.ledger).Sound) (hauth : auth sender = true)
    (h : TransferableButCap sender recipient amount env.ledger)
    (hon : 0 < (getHoldingCap env.ledger).val) :
    FailsWithHoldingCap auth env sender recipient amount ↔
      (getHoldingCap env.ledger).val < (getBalanceOf recipient env.ledger).val+amount.val ∧
        (getBalanceOf recipient env.ledger).val+amount.val ≤ 2^127-1 := by
  by_cases hgt : (getHoldingCap env.ledger).val <
      (getBalanceOf recipient env.ledger).val+amount.val
  · have hrefused := transfer_refused hauth
      (transferGuards_capped h (enforceCap_exceeded hon hgt .holdingCapExceeded))
    split_ifs at hrefused with hfits
    · exact iff_of_true ⟨_,_,hrefused,rfl⟩ ⟨hgt,hfits⟩
    · apply iff_of_false
      · rintro ⟨f, env', hfail, herror⟩
        rw [hrefused] at hfail
        cases hfail
        cases herror
      · exact fun hover => hfits hover.2
  · have hmovable : Transferable sender recipient amount env.ledger :=
      ⟨h.running,h.positive,h.active,h.senderCleared,h.recipientCleared,
        fun _ => not_lt.mp hgt,h.covered⟩
    obtain ⟨env', hc⟩ := (transfer_commits_iff hsound hauth).mpr hmovable
    apply iff_of_false
    · rintro ⟨f, env'', hfail, -⟩
      exact not_commits hfail hc
    · exact fun hover => hgt hover.1

/-- The cap refuses exactly the transfers that would leave the receiver above it. -/
def CapJudgesResult (auth : Auth Address) (env : Env Address) (sender recipient : Address)
    (amount : I128) : Prop :=
  FailsWithHoldingCap auth env sender recipient amount ↔
    (getHoldingCap env.ledger).val < heldAfter sender recipient amount env.ledger

/-- In a transfer to oneself the amount counted on top of the balance does not
carry it over the cap, nor out of the range of the amounts. -/
def SelfCreditHarmless (balance amount cap : I128) : Prop :=
  if balance.val ≤ cap.val then
    balance.val+amount.val ≤ cap.val ∨ 2^127-1 < balance.val+amount.val
  else
    balance.val+amount.val ≤ 2^127-1

theorem cap_judges_result_iff (h : Reachable Call.body Env.fresh env) (hauth : auth sender = true)
    (hclear : TransferableButCap sender recipient amount env.ledger)
    (hon : 0 < (getHoldingCap env.ledger).val) :
    CapJudgesResult auth env sender recipient amount ↔
      (recipient = sender → SelfCreditHarmless (getBalanceOf recipient env.ledger) amount
        (getHoldingCap env.ledger)) := by
  have hsound := reachable_sound h
  have hpos := hclear.positive
  rw [CapJudgesResult, failsWithHoldingCap_iff hsound hauth hclear hon, heldAfter_eq]
  by_cases hself : recipient = sender
  · simp only [hself, if_true, add_zero, forall_true_left, SelfCreditHarmless]
    split_ifs <;> omega
  · have hpair : (getBalanceOf recipient env.ledger).val+(getBalanceOf sender env.ledger).val ≤
        (getTotalSupply env.ledger).val := hsound.pair_le_total hself
    have htop := (getTotalSupply env.ledger).le_hi
    have hcover := hclear.covered
    simp only [hself, if_false, false_implies, iff_true]
    omega

theorem cap_judges_result_capped :
    CapJudgesResult (fun a => a = 1) capped 1 1 ⟨3,by decide,by decide⟩ := by
  have hclear : TransferableButCap 1 1 ⟨3,by decide,by decide⟩ capped.ledger :=
    ⟨⟨by decide,by decide,by decide,by decide,by decide⟩,by decide⟩
  refine (cap_judges_result_iff ⟨capping,rfl⟩ (by decide) hclear (by decide)).mpr fun _ => ?_
  rw [SelfCreditHarmless, if_pos (by decide)]
  exact Or.inl (by decide)

/-- The deployment under a holding cap of six units, of which five are held. -/
def filling : List (Signed ℕ) :=
  deployment++
    [⟨fun a => a = 0,.proposeHoldingCap 0 ⟨6,by decide,by decide⟩⟩,
      ⟨fun a => a = 0,.acceptHoldingCap 0⟩]

/-- Two units sent to oneself are refused, though no balance would change. -/
theorem self_transfer_refused :
    Reachable Call.body Env.fresh (run Call.body filling Env.fresh) ∧
      TransferableButCap 1 1 ⟨2,by decide,by decide⟩ (run Call.body filling Env.fresh).ledger ∧
      0 < (getHoldingCap (run Call.body filling Env.fresh).ledger).val ∧
      ¬CapJudgesResult (fun a => a = 1) (run Call.body filling Env.fresh) 1 1
        ⟨2,by decide,by decide⟩ := by
  refine ⟨⟨filling,rfl⟩,⟨⟨by decide,by decide,by decide,by decide,by decide⟩,by decide⟩,by decide,
    fun h => ?_⟩
  have hfails : FailsWithHoldingCap (fun a => a = 1) (run Call.body filling Env.fresh) 1 1
      ⟨2,by decide,by decide⟩ := ⟨_,_,rfl,rfl⟩
  exact absurd (h.mp hfails) (by decide)

end Aegis
