import Aegis.ReadTraps

/-!
# Movements that fail without a numbered error

A movement refused by one of its checks names the error, unless the check
that refuses is a sum: overflow traps and carries no code. On a reachable
ledger the sums a movement writes never trap where its caps let it through,
so the traps are those of the cap checks and of the supply counter.
-/

set_option autoImplicit false

namespace Aegis
open HostKit

/-- The computation fails and its failure carries no numbered error. -/
def Untyped {α : Type} (x : Except Failure α) : Prop := ∃ f, x = .error f ∧ f.error = none

/-! ## Chains of guards -/

section
variable {guard rest : Except Failure Unit}

theorem untyped_bind {α β : Type} {x : Except Failure α} {g : α → Except Failure β} :
    Untyped (x >>= g) ↔ Untyped x ∨ ∃ a, x = .ok a ∧ Untyped (g a) := by
  cases x <;> simp [Untyped, bind, Except.bind]

/-- A guard that refuses with numbered errors only passes the question on. -/
theorem untyped_guard (hguard : ¬Untyped guard) :
    Untyped (guard >>= fun _ => rest) ↔ guard = .ok () ∧ Untyped rest := by
  rw [untyped_bind, or_iff_right hguard]
  constructor
  · rintro ⟨⟨⟩, hpass, hrest⟩
    exact ⟨hpass,hrest⟩
  · rintro ⟨hpass, hrest⟩
    exact ⟨(),hpass,hrest⟩

theorem untyped_before (hrest : ¬Untyped rest) :
    Untyped (guard >>= fun _ => rest) ↔ Untyped guard := by
  rw [untyped_bind]
  simp [hrest]

end

variable {Address : Type} {user sender recipient caller : Address} {amount : I128}
  {l : Ledger Address}

theorem typed_requireNotPaused : ¬Untyped (requireNotPaused l) := by
  rw [requireNotPaused]
  split_ifs <;> simp [Untyped, Failure.error]

theorem typed_requirePositive : ¬Untyped (requirePositive amount) := by
  rw [requirePositive]
  split_ifs <;> simp [Untyped, Failure.error]

theorem typed_requireAssetMovable : ¬Untyped (requireAssetMovable l) := by
  rw [requireAssetMovable]
  cases getAssetStatus l <;> simp [Untyped, Failure.error, assetStatusReason, errorForReason]

theorem typed_requireApproved {blocked pending uncleared : Error} :
    ¬Untyped (requireApproved blocked pending uncleared user l) := by
  rw [requireApproved]
  cases getComplianceStatus user l <;> simp [Untyped, Failure.error]

theorem typed_requireCanSend : ¬Untyped (requireCanSend user l) := typed_requireApproved

theorem typed_requireCanReceive : ¬Untyped (requireCanReceive user l) := typed_requireApproved

theorem typed_requireCovered : ¬Untyped (requireCovered sender amount l) := by
  rw [requireCovered]
  split_ifs <;> simp [Untyped, Failure.error]

theorem add_error {a b : I128} {f : Failure} (h : add a b = .error f) : f = .overflow := by
  rw [add] at h
  cases hsum : a.checkedAdd b <;> rw [hsum] at h <;> cases h
  rfl

theorem exceedsCap_error {cap current incoming : I128} {f : Failure}
    (h : exceedsCap cap current incoming = .error f) : f = .overflow := by
  rw [exceedsCap] at h
  split_ifs at h
  cases hsum : add current incoming with
  | error f' =>
    rw [guard_bind_of_error hsum] at h
    cases h
    exact add_error hsum
  | ok sum =>
    rw [guard_bind_of_ok hsum] at h
    cases h

/-- A cap check is untyped exactly where its sum traps. -/
theorem untyped_enforceCap {cap current incoming : I128} (hpos : 0 < incoming.val) {e : Error} :
    Untyped (enforceCap cap current incoming e) ↔
      0 < cap.val ∧ 2^127-1 < current.val+incoming.val := by
  rw [← exceedsCap_traps hpos, enforceCap_eq]
  rcases hsum : exceedsCap cap current incoming with f | _ | _
  · rw [exceedsCap_error hsum]
    simp [Untyped, bind, Except.bind, Failure.error]
  · simp [Untyped, bind, Except.bind]
  · simp [Untyped, bind, Except.bind, Failure.error]

/-! ## Transfers -/

theorem transferGuards_ok {u : Unit} : transferGuards sender recipient amount l = .ok u ↔
    Transferable sender recipient amount l := by
  by_cases hpos : 0 < amount.val
  · simp [transferGuards, guard_bind_ok_iff, requirePositive_ok, hpos, enforceHoldingCap_ok hpos,
      transferable_iff, requireCovered]
  · simp [transferGuards, guard_bind_ok_iff, requirePositive_ok, hpos, transferable_iff]

theorem untyped_transferGuards : Untyped (transferGuards sender recipient amount l) ↔
    TransferSumTraps sender recipient amount l := by
  rw [transferGuards, untyped_guard typed_requireNotPaused, untyped_guard typed_requirePositive,
    untyped_guard typed_requireAssetMovable, untyped_guard typed_requireCanSend,
    untyped_guard typed_requireCanReceive, untyped_before typed_requireCovered]
  by_cases hpos : 0 < amount.val
  · rw [enforceHoldingCap, untyped_enforceCap hpos]
    simp [transferSumTraps_iff, transferOpens_iff, requirePositive_ok, hpos, and_assoc]
  · simp [transferSumTraps_iff, transferOpens_iff, requirePositive_ok, hpos]

variable [DecidableEq Address] {auth : Auth Address} {env : Env Address}

/-- The call fails and leaves the caller without a numbered error. -/
def FailsUntyped (auth : Auth Address) (env : Env Address) (call : Call Address) : Prop :=
  ∃ f env', call.body.exec auth env = (.error f, env') ∧ f.error = none

/-- The call commits, or fails with one of the numbered errors. -/
def Answers (auth : Auth Address) (env : Env Address) (call : Call Address) : Prop :=
  (∃ env', Commits Call.body env ⟨auth,call⟩ env') ∨
    ∃ f e env', call.body.exec auth env = (.error f, env') ∧ f.error = some e

theorem answers_iff {call : Call Address} :
    Answers auth env call ↔ ¬FailsUntyped auth env call := by
  rw [Answers, FailsUntyped]
  simp only [Commits]
  rcases call.body.exec auth env with ⟨f | u, env'⟩
  · have hcode : (∃ e, f.error = some e) ↔ f.error ≠ none := Option.ne_none_iff_exists'.symm
    simp [hcode]
  · simp

theorem transfer_untyped (hsound : (bookOf env.ledger).Sound) (hauth : auth sender = true) :
    FailsUntyped auth env (.transfer sender recipient amount) ↔
      TransferSumTraps sender recipient amount env.ledger := by
  rw [← untyped_transferGuards, FailsUntyped, Untyped]
  cases hguards : transferGuards sender recipient amount env.ledger with
  | error f =>
    rw [show (Call.transfer sender recipient amount).body.exec auth env = _ from
      transfer_refused hauth hguards]
    simp
  | ok u =>
    obtain ⟨env', hc⟩ := (transfer_commits_iff hsound hauth).mpr (transferGuards_ok.mp hguards)
    rw [show (Call.transfer sender recipient amount).body.exec auth env = _ from hc]
    simp

/-! ## Mints -/

theorem typed_requireRole {required : Role} : ¬Untyped (requireRole caller required l) := by
  rw [requireRole, getAdmin]
  cases l.get .admin with
  | none => simp [Untyped, bind, Except.bind, Failure.error]
  | some admin =>
    simp only [bind, Except.bind]
    split_ifs <;> simp [Untyped, Failure.error]

theorem typed_requireIssuanceAuthority {recipient : Option Address} :
    ¬Untyped (requireIssuanceAuthority caller recipient l) := by
  rw [requireIssuanceAuthority]
  rintro ⟨f, hf, hnone⟩
  cases hguard : evaluateIssuance caller recipient l <;> rw [hguard] at hf <;> cases hf <;>
    cases hnone

theorem mintGuards_ok {u : Unit} : mintGuards caller recipient amount l = .ok u ↔
    Mintable caller recipient amount l := by
  by_cases hpos : 0 < amount.val
  · simp [mintGuards, guard_bind_ok_iff, requirePositive_ok, hpos, enforceHoldingCap_ok hpos,
      enforceSupplyCap_ok hpos, mintable_iff]
  · simp [mintGuards, guard_bind_ok_iff, requirePositive_ok, hpos, mintable_iff]

/-- The checks of a mint before its caps. -/
@[mk_iff]
structure MintOpens (caller recipient : Address) (amount : I128) (l : Ledger Address) :
    Prop where
  running : isPaused l = false
  manages : ActsAs caller (· = .assetManager) l
  separated : evaluateIssuance caller (some recipient) l = .allowed
  positive : 0 < amount.val
  active : getAssetStatus l = .active
  cleared : getComplianceStatus recipient l = .approved

theorem mintable_iff_opens : Mintable caller recipient amount l ↔
    MintOpens caller recipient amount l ∧
      WithinCap (getSupplyCap l) (getTotalSupply l) amount ∧
      WithinCap (getHoldingCap l) (getBalanceOf recipient l) amount := by
  rw [mintable_iff, mintOpens_iff]
  tauto

theorem untyped_mintGuards : Untyped (mintGuards caller recipient amount l) ↔
    MintOpens caller recipient amount l ∧ CapSumTraps recipient amount l := by
  rw [mintGuards, untyped_guard typed_requireNotPaused, untyped_guard typed_requireRole,
    untyped_guard typed_requireIssuanceAuthority, untyped_guard typed_requirePositive,
    untyped_guard typed_requireAssetMovable, untyped_guard typed_requireCanReceive]
  by_cases hpos : 0 < amount.val
  · rw [untyped_bind]
    simp [enforceSupplyCap, enforceHoldingCap, untyped_enforceCap hpos, enforceCap_ok hpos,
      mintOpens_iff, requirePositive_ok, hpos, CapSumTraps, and_assoc]
  · simp [mintOpens_iff, requirePositive_ok, hpos]

/-- Past its guards a mint has two sums left to fail on. -/
theorem mint_past_guards (hauth : auth caller = true)
    (h : Mintable caller recipient amount env.ledger) {f : Failure} {env' : Env Address}
    (hfail : (mintAsset caller recipient amount).exec auth env = (.error f, env')) :
    f = .overflow := by
  have hpos := h.positive
  rw [mintAsset, exec_opened h.running hauth,
    guard_passes (requireRole_ok (u := ()).mpr h.manages),
    guard_passes (requireIssuanceAuthority_ok (u := ()).mpr h.separated),
    Host.exec_bind_of_ok (errWhen_ok (u := ()).mpr ⟨not_le.mpr hpos,rfl⟩),
    guard_passes (requireAssetMovable_ok (u := ()).mpr h.active),
    guard_passes (requireCanReceive_ok (u := ()).mpr h.cleared),
    guard_passes ((enforceSupplyCap_ok hpos (u := ())).mpr h.withinSupply),
    guard_passes ((enforceHoldingCap_ok hpos (u := ())).mpr h.withinHolding)] at hfail
  refine (?_ : Host.FailsOnly (· = .overflow) _) _ _ _ _ hfail
  refine Host.FailsOnly.bind (Host.failsOnly_check fun _ _ => add_error) fun _ => ?_
  refine Host.FailsOnly.bind (Host.failsOnly_modify _) fun _ => ?_
  refine Host.FailsOnly.bind (Host.failsOnly_check fun _ _ => add_error) fun _ => ?_
  refine Host.FailsOnly.bind (Host.failsOnly_modify _) fun _ => ?_
  exact Host.failsOnly_modify _

/-- The supply counter would leave its range, and no holding cap without a
supply cap before it names the excess first. -/
def MintOverflows (caller recipient : Address) (amount : I128) (l : Ledger Address) : Prop :=
  MintOpens caller recipient amount l ∧ 2^127-1 < (getTotalSupply l).val+amount.val ∧
    ¬((getSupplyCap l).val ≤ 0 ∧ 0 < (getHoldingCap l).val ∧
      (getHoldingCap l).val < (getBalanceOf recipient l).val+amount.val ∧
      (getBalanceOf recipient l).val+amount.val ≤ 2^127-1)

/-- A mint overflows in its cap checks, or past them in the supply counter. -/
theorem mintOverflows_iff (hsound : (bookOf l).Sound) : MintOverflows caller recipient amount l ↔
    MintOpens caller recipient amount l ∧ CapSumTraps recipient amount l ∨
      Mintable caller recipient amount l ∧ 2^127-1 < (getTotalSupply l).val+amount.val := by
  have hheld : (getBalanceOf recipient l).val ≤ (getTotalSupply l).val :=
    hsound.holding_le_total recipient
  have hsupply := (getSupplyCap l).le_hi
  have hholding := (getHoldingCap l).le_hi
  rw [MintOverflows, mintable_iff_opens, CapSumTraps, WithinCap, WithinCap]
  constructor
  · rintro ⟨hopens, hover, hunnamed⟩
    by_cases htraps : 0 < (getSupplyCap l).val ∨
        0 < (getHoldingCap l).val ∧ 2^127-1 < (getBalanceOf recipient l).val+amount.val
    · exact Or.inl ⟨hopens,by omega⟩
    · exact Or.inr ⟨⟨hopens,by omega,by omega⟩,hover⟩
  · rintro (⟨hopens, htraps⟩ | ⟨⟨hopens, hwithin, hwithin'⟩, hover⟩)
    · exact ⟨hopens,by omega,by omega⟩
    · exact ⟨hopens,hover,by omega⟩

theorem mint_untyped (hsound : (bookOf env.ledger).Sound) (hauth : auth caller = true) :
    FailsUntyped auth env (.mintAsset caller recipient amount) ↔
      MintOverflows caller recipient amount env.ledger := by
  rw [mintOverflows_iff hsound, ← untyped_mintGuards, ← mintGuards_ok (u := ()), FailsUntyped,
    Untyped]
  cases hguards : mintGuards caller recipient amount env.ledger with
  | error f =>
    rw [show (Call.mintAsset caller recipient amount).body.exec auth env = _ from
      mint_refused hauth hguards]
    simp
  | ok u =>
    have hmintable := mintGuards_ok.mp hguards
    have hcommits : (∃ env', Commits Call.body env ⟨auth,.mintAsset caller recipient amount⟩ env') ↔
        _ := mint_commits_iff hsound hauth
    simp only [reduceCtorEq, false_and, exists_false, true_and, false_or]
    constructor
    · rintro ⟨f, env', hfail, -⟩
      by_contra hfits
      obtain ⟨env'', hc⟩ := hcommits.mpr ⟨hmintable,not_lt.mp hfits⟩
      exact not_commits hfail hc
    · intro hover
      rcases hexec : (mintAsset caller recipient amount).exec auth env with ⟨f | u, env'⟩
      · exact ⟨f,env',hexec,by rw [mint_past_guards hauth hmintable hexec]; rfl⟩
      · exact absurd (hcommits.mp ⟨env',hexec⟩).2 (not_le.mpr hover)

theorem movements_answer_iff (h : Reachable Call.body Env.fresh env) {caller : Address}
    (hauth : auth caller = true) (recipient : Address) (amount : I128) :
    (Answers auth env (.mintAsset caller recipient amount) ↔
        ¬MintOverflows caller recipient amount env.ledger) ∧
      (Answers auth env (.transfer caller recipient amount) ↔
        ¬TransferSumTraps caller recipient amount env.ledger) := by
  have hsound := reachable_sound h
  rw [answers_iff, answers_iff, mint_untyped hsound hauth, transfer_untyped hsound hauth]
  exact ⟨Iff.rfl,Iff.rfl⟩

theorem movements_answer_deployed :
    Answers (fun a => a = 0) deployed (.mintAsset 0 1 ⟨3,by decide,by decide⟩) :=
  (movements_answer_iff ⟨deployment,rfl⟩ (by decide) 1 _).1.mpr fun h => absurd h.2.1 (by decide)

/-- The largest amount is refused by neither cap: both movements trap on it. -/
theorem largest_movement_traps :
    Reachable Call.body Env.fresh capped ∧
      ¬Answers (fun a => a = 0) capped (.mintAsset 0 1 ⟨2^127-1,by decide,by decide⟩) ∧
      ¬Answers (fun a => a = 1) capped (.transfer 1 1 ⟨2^127-1,by decide,by decide⟩) := by
  refine ⟨⟨capping,rfl⟩,?_,?_⟩
  · rintro (⟨env', hc⟩ | ⟨f, e, env', hfail, herror⟩)
    · cases hc
    · cases hfail
      cases herror
  · rintro (⟨env', hc⟩ | ⟨f, e, env', hfail, herror⟩)
    · cases hc
    · cases hfail
      cases herror

end Aegis
