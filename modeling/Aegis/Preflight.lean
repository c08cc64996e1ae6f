import Aegis.Asset
import Aegis.Eligibility

/-!
# Verdicts and refusals

An evaluator names the first restriction that applies; an entrypoint fails
at its first guard. The two chains agree when each reason found is the one
the failure reports, and agreement is established stage by stage.
-/

set_option autoImplicit false

namespace Aegis
open HostKit

/-- The failure an observer sees carries the numeric code of the reason. -/
def CodeMatches (reason : RestrictionReason) (f : Failure) : Prop :=
  ∃ e, f.error = some e ∧ getRestrictionCode reason = e.code

/-- The failure carries the code of the reason, and the reason is recovered
from it. -/
def Mirrors (reason : RestrictionReason) (f : Failure) : Prop :=
  ∃ e, f.error = some e ∧ getRestrictionCode reason = e.code ∧ reasonForError e = some reason

theorem mirrors_of_error {reason : RestrictionReason} {f : Failure} {e : Error}
    (hf : f.error = some e) (he : errorForReason reason = some e) : Mirrors reason f := by
  have hback := reasonForError_eq_some.mpr he
  exact ⟨e,hf,code_eq_of_reasonForError hback,hback⟩

theorem Mirrors.codeMatches {reason : RestrictionReason} {f : Failure} (h : Mirrors reason f) :
    CodeMatches reason f := by
  obtain ⟨e, hf, hcode, -⟩ := h
  exact ⟨e,hf,hcode⟩

/-- An error without a reason of its own mirrors none. -/
theorem not_mirrors {reason : RestrictionReason} {e : Error} (h : reasonForError e = none) :
    ¬Mirrors reason (.err e) := by
  rintro ⟨e', he, -, hback⟩
  cases he
  rw [h] at hback
  cases hback

def Agrees (verdict : Except Failure RestrictionReason) (guards : Except Failure Unit) : Prop :=
  ∀ reason, verdict = .ok reason → reason.isBlocked = true →
    ∃ f, guards = .error f ∧ Mirrors reason f

/-! ## One stage of an evaluator -/

section
variable {p : Prop} [Decidable p] {r : RestrictionReason}
  {verdict : Except Failure RestrictionReason} {cap current incoming : I128}

theorem stage_none (hr : p → r ≠ .none) :
    (if p then .ok r else verdict) = .ok .none ↔ ¬p ∧ verdict = .ok .none := by
  by_cases hp : p
  · simp [hp, hr hp]
  · simp [hp]

theorem asset_blocked_ne_none {s : AssetStatus} (h : (assetStatusReason s).isBlocked = true) :
    assetStatusReason s ≠ .none := by
  intro hnone
  rw [hnone] at h
  cases h

theorem capStage_none (hr : r ≠ .none) (hpos : 0 < incoming.val) :
    (exceedsCap cap current incoming >>= fun exceeded => if exceeded then .ok r else verdict) =
        .ok .none ↔
      WithinCap cap current incoming ∧ verdict = .ok .none := by
  rw [← exceedsCap_eq_false hpos]
  rcases exceedsCap cap current incoming with f | _ | _
  · simp [bind, Except.bind]
  · simp [bind, Except.bind]
  · simp [bind, Except.bind, hr]

theorem stage_traps : (∃ f, (if p then .ok r else verdict) = .error f) ↔
    ¬p ∧ ∃ f, verdict = .error f := by
  by_cases hp : p
  · simp [hp]
  · simp [hp]

theorem capStage_traps (hpos : 0 < incoming.val) :
    (∃ f, (exceedsCap cap current incoming >>= fun exceeded =>
        if exceeded then .ok r else verdict) = .error f) ↔
      0 < cap.val ∧ 2^127-1 < current.val+incoming.val ∨
        WithinCap cap current incoming ∧ ∃ f, verdict = .error f := by
  rw [← exceedsCap_eq_false hpos, ← exceedsCap_traps hpos]
  rcases exceedsCap cap current incoming with f | _ | _
  · simp [bind, Except.bind]
  · simp [bind, Except.bind]
  · simp [bind, Except.bind]

end

/-! ## One stage of agreement -/

section
variable {p : Prop} [Decidable p] {r : RestrictionReason}
  {verdict : Except Failure RestrictionReason} {guard rest : Except Failure Unit}

theorem agrees_none : Agrees (.ok .none) rest := by
  intro reason h hblocked
  cases h
  cases hblocked

theorem Agrees.stage (hrefuse : p → ∃ f, guard = .error f ∧ Mirrors r f)
    (hpass : ¬p → guard = .ok () ∧ Agrees verdict rest) :
    Agrees (if p then .ok r else verdict) (guard >>= fun _ => rest) := by
  intro reason h hblocked
  by_cases hp : p
  · rw [if_pos hp] at h
    cases h
    obtain ⟨f, hguard, hmirrors⟩ := hrefuse hp
    exact ⟨f,guard_bind_of_error hguard,hmirrors⟩
  · rw [if_neg hp] at h
    obtain ⟨hguard, hrest⟩ := hpass hp
    obtain ⟨f, hf, hmirrors⟩ := hrest reason h hblocked
    exact ⟨f,(guard_bind_of_ok hguard).trans hf,hmirrors⟩

/-- Both chains form the sum with the cap first, and trap on it together. -/
theorem Agrees.capStage {cap current incoming : I128} {e : Error}
    (he : errorForReason r = some e) (hpass : Agrees verdict rest) :
    Agrees (exceedsCap cap current incoming >>= fun exceeded => if exceeded then .ok r else verdict)
      (enforceCap cap current incoming e >>= fun _ => rest) := by
  rw [enforceCap_eq]
  intro reason h hblocked
  rcases hover : exceedsCap cap current incoming with f | _ | _
  · rw [hover] at h
    cases h
  · rw [hover] at h
    exact hpass reason h hblocked
  · rw [hover] at h
    cases h
    exact ⟨.err e,rfl,mirrors_of_error rfl he⟩

/-- The last stage of both chains. -/
theorem agrees_last {e : Error} (he : errorForReason r = some e) :
    Agrees (if p then .ok r else .ok .none) (if p then .error (.err e) else .ok ()) := by
  intro reason h hblocked
  by_cases hp : p
  · rw [if_pos hp] at h
    cases h
    exact ⟨.err e,if_pos hp,mirrors_of_error rfl he⟩
  · rw [if_neg hp] at h
    cases h
    cases hblocked

end

/-! ## Stages shared by transfers and mints -/

variable {Address : Type}

theorem agrees_paused {l : Ledger Address} {verdict : Except Failure RestrictionReason}
    {rest : Except Failure Unit} (hpass : isPaused l = false → Agrees verdict rest) :
    Agrees (if isPaused l then .ok .contractPaused else verdict)
      (requireNotPaused l >>= fun _ => rest) := by
  apply Agrees.stage
  · intro hpaused
    refine ⟨.panic .contractPaused,?_,mirrors_of_error rfl rfl⟩
    rw [requireNotPaused, if_pos hpaused]
  · intro hrun
    have hrunning : isPaused l = false := Bool.not_eq_true _ ▸ hrun
    exact ⟨requireNotPaused_ok.mpr hrunning,hpass hrunning⟩

/-- The refusal of an amount that is not positive. -/
def requirePositive (amount : I128) : Except Failure Unit :=
  if amount.val ≤ 0 then .error (.err .invalidAmount) else .ok ()

theorem requirePositive_ok {amount : I128} {u : Unit} :
    requirePositive amount = .ok u ↔ 0 < amount.val := by
  rw [requirePositive]
  split_ifs with h <;> simp <;> omega

theorem agrees_amount {amount : I128} {verdict : Except Failure RestrictionReason}
    {rest : Except Failure Unit} (hpass : 0 < amount.val → Agrees verdict rest) :
    Agrees (if amount.val ≤ 0 then .ok .invalidAmount else verdict)
      (requirePositive amount >>= fun _ => rest) := by
  apply Agrees.stage
  · intro hnonpos
    refine ⟨.err .invalidAmount,?_,mirrors_of_error rfl rfl⟩
    rw [requirePositive, if_pos hnonpos]
  · intro hpos
    exact ⟨requirePositive_ok.mpr (not_le.mp hpos),hpass (not_le.mp hpos)⟩

theorem agrees_movable {l : Ledger Address} {verdict : Except Failure RestrictionReason}
    {rest : Except Failure Unit} (hpass : getAssetStatus l = .active → Agrees verdict rest) :
    Agrees (if (assetStatusReason (getAssetStatus l)).isBlocked then
        .ok (assetStatusReason (getAssetStatus l)) else verdict)
      (requireAssetMovable l >>= fun _ => rest) := by
  apply Agrees.stage
  · intro hblocked
    rw [requireAssetMovable]
    cases hreason : errorForReason (assetStatusReason (getAssetStatus l)) with
    | none =>
      rw [errorForReason_eq_none.mp hreason] at hblocked
      cases hblocked
    | some e => exact ⟨.err e,rfl,mirrors_of_error rfl hreason⟩
  · intro hopen
    have hactive := assetStatusReason_isBlocked.mp (Bool.not_eq_true _ ▸ hopen)
    exact ⟨requireAssetMovable_ok.mpr hactive,hpass hactive⟩

/-- A party under review or frozen: cleared by neither chain, and told apart
from an uncleared one only by enforcement. -/
def Held (status : ComplianceStatus) : Prop := status = .pending ∨ status = .blocked

theorem held_refused (blocked pending uncleared : Error) {user : Address} {l : Ledger Address}
    (h : Held (getComplianceStatus user l)) :
    isWhitelisted user l = false ∧ ∃ e, (e = blocked ∨ e = pending) ∧
      requireApproved blocked pending uncleared user l = .error (.err e) := by
  rw [isWhitelisted, requireApproved]
  rcases h with h | h
  · rw [h]
    exact ⟨rfl,pending,Or.inr rfl,rfl⟩
  · rw [h]
    exact ⟨rfl,blocked,Or.inl rfl,rfl⟩

theorem agrees_cleared {blocked pending uncleared : Error} {r : RestrictionReason}
    {user : Address} {l : Ledger Address} {verdict : Except Failure RestrictionReason}
    {rest : Except Failure Unit} (he : errorForReason r = some uncleared)
    (hheld : ¬Held (getComplianceStatus user l))
    (hpass : getComplianceStatus user l = .approved → Agrees verdict rest) :
    Agrees (if !isWhitelisted user l then .ok r else verdict)
      (requireApproved blocked pending uncleared user l >>= fun _ => rest) := by
  apply Agrees.stage
  · intro hout
    refine ⟨.err uncleared,?_,mirrors_of_error rfl he⟩
    revert hout hheld
    rw [isWhitelisted, requireApproved]
    cases getComplianceStatus user l <;> simp [Held, ComplianceStatus.isApproved]
  · intro hin
    have hcleared : getComplianceStatus user l = .approved := by
      apply isWhitelisted_iff.mp
      simpa using hin
    exact ⟨requireApproved_ok.mpr hcleared,hpass hcleared⟩

end Aegis
