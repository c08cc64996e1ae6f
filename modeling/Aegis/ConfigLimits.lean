import Aegis.Conservation
import Aegis.Initialization
import Aegis.TransferPreflight

/-!
# The limits of the protocol configuration

The configuration governs a minimum transfer amount and a largest batch, and
no entrypoint reads either. A limit holds where nothing that would break it
can commit anyway, and from every other reachable state a call breaks it.
-/

set_option autoImplicit false

namespace Aegis
open HostKit

variable {Address : Type} [DecidableEq Address] {env : Env Address} {sender recipient : Address}

/-! ## The minimum transfer amount -/

/-- A minimum of at most one unit asks for no more than a positive amount. A
larger one matters only where a single unit can move between the parties. -/
def MinimumHarmless (sender recipient : Address) (l : Ledger Address) : Prop :=
  (getConfig l).minTransferAmount.val ≤ 1 ∨ ¬Transferable sender recipient oneUnit l

/-- Every transfer between the two that commits meets the active minimum. -/
def MinimumBinds (env : Env Address) (sender recipient : Address) : Prop :=
  ∀ auth amount env', Commits Call.body env ⟨auth,.transfer sender recipient amount⟩ env' →
    (getConfig env.ledger).minTransferAmount.val ≤ amount.val

theorem minimum_of_harmless (h : MinimumHarmless sender recipient env.ledger) :
    MinimumBinds env sender recipient := by
  intro auth amount env' hc
  have hmovable := (transfer_ok.mp hc).2.1
  rcases h with hsmall | hstuck
  · exact hsmall.trans hmovable.positive
  · exact absurd hmovable.one hstuck

theorem minimum_binds_iff (hsound : (bookOf env.ledger).Sound) :
    MinimumBinds env sender recipient ↔ MinimumHarmless sender recipient env.ledger := by
  refine ⟨fun hbinds => ?_,minimum_of_harmless⟩
  by_contra hharm
  obtain ⟨hlarge, hmovable⟩ := not_or.mp hharm
  have hcommits : ∃ env', Commits Call.body env ⟨fun _ => true,.transfer sender recipient _⟩ env' :=
    (transfer_commits_iff hsound rfl).mpr (not_not.mp hmovable)
  obtain ⟨env', hc⟩ := hcommits
  exact hlarge (hbinds _ _ env' hc)

theorem minimum_transfer_runs :
    (∀ is : List (Signed Address),
      EachStep Call.body (fun s i => ∀ sender recipient amount,
        i.call = .transfer sender recipient amount →
          MinimumHarmless sender recipient s.ledger) is Env.fresh →
      ∀ t ∈ trace Call.body is Env.fresh, ∀ sender recipient amount,
        t.via.call = .transfer sender recipient amount →
          (getConfig t.pre.ledger).minTransferAmount.val ≤ amount.val) ∧
    ∀ env : Env Address, Reachable Call.body Env.fresh env → ∀ sender recipient,
      (MinimumBinds env sender recipient ↔ MinimumHarmless sender recipient env.ledger) := by
  constructor
  · rintro is hC ⟨s, ⟨auth, c⟩, s'⟩ ht sender recipient amount hcall
    have hharmless := hC.of_mem ht sender recipient amount hcall
    have hc := (mem_trace ht).2
    cases hcall
    exact minimum_of_harmless hharmless auth amount s' hc
  · exact fun env h sender recipient => minimum_binds_iff (reachable_sound h)

/-- The deployment with a minimum of a hundred units and batches of one. -/
def configuring : List (Signed ℕ) :=
  deployment++
    [⟨fun a => a = 0,.proposeConfig 0 ⟨⟨100,by decide,by decide⟩,1⟩⟩,
      ⟨fun a => a = 0,.acceptConfig 0⟩]

def configured : Env ℕ := run Call.body configuring Env.fresh

theorem small_transfer_commits :
    Reachable Call.body Env.fresh configured ∧ ¬MinimumBinds configured 1 1 := by
  refine ⟨⟨configuring,rfl⟩,fun h => ?_⟩
  have hc : Commits Call.body configured
      ⟨fun a => a = 1,.transfer 1 1 ⟨3,by decide,by decide⟩⟩ _ := rfl
  exact absurd (h _ _ _ hc) (by decide)

/-! ## The largest batch -/

/-- A vector of the host counts its entries in a `u32`. -/
def vecCapacity : ℕ := 2^32-1

/-- The contract is paused, or has no admin, or the limit is the most entries a
vector can hold, or there are no more users to enter in a batch than the limit
allows entries. -/
def BatchLimitHarmless (l : Ledger Address) : Prop :=
  isPaused l = true ∨ l.get .admin = none ∨
    (getConfig l).maxBatchSize.toNat = vecCapacity ∨
    ∀ users : List Address, users.Nodup → users.length ≤ (getConfig l).maxBatchSize.toNat

/-- Every batch that a vector can hold and that commits is within the active limit. -/
def BatchLimitBinds (env : Env Address) : Prop :=
  ∀ auth caller updates env', updates.length ≤ vecCapacity →
    Commits Call.body env ⟨auth,.batchSetComplianceStatus caller updates⟩ env' →
      updates.length ≤ (getConfig env.ledger).maxBatchSize.toNat

theorem batch_of_harmless (h : BatchLimitHarmless env.ledger) : BatchLimitBinds env := by
  intro auth caller updates env' hvec hc
  obtain ⟨hrun, -, ⟨hnodup, -⟩, -⟩ := batch_commits.mp hc
  rcases h with hpaused | hnone | hfull | hfew
  · rw [hpaused] at hrun
    cases hrun
  · rcases commits_without_admin hnone hc with hinit | ⟨_, _, _, hcall⟩ | ⟨⟨_, hempty⟩, -⟩
    · cases hinit
    · cases hcall
    · cases hempty
      exact Nat.zero_le _
  · rw [hfull]
    exact hvec
  · rw [← List.length_map (f := fun update : ComplianceBatchUpdate Address => update.user)]
    exact hfew _ hnodup

/-- An edge out of every status. -/
def onward : ComplianceStatus → ComplianceStatus
  | .pending => .approved
  | _ => .pending

theorem onward_allowed (current : ComplianceStatus) :
    transitionIsAllowed current (onward current) = true := by
  cases current <;> rfl

def onwardUpdate (l : Ledger Address) (user : Address) : ComplianceBatchUpdate Address :=
  ⟨user,onward (getComplianceStatus user l)⟩

/-- The admin may move any set of users at once. -/
theorem onward_valid {admin : Address} {l : Ledger Address} (hrun : isPaused l = false)
    (hadmin : IsAdmin admin l) {users : List Address} (hnodup : users.Nodup) :
    ValidUpdates admin (users.map (onwardUpdate l)) l := by
  constructor
  · rw [List.map_map]
    exact (List.map_id users).symm ▸ hnodup
  · intro update hmem
    obtain ⟨user, -, rfl⟩ := List.mem_map.mp hmem
    exact evaluateTransition_allowed.mpr ⟨hrun,⟨admin,hadmin,Or.inl rfl⟩,onward_allowed _⟩

theorem long_batch_commits {admin : Address} (hrun : isPaused env.ledger = false)
    (hadmin : IsAdmin admin env.ledger) {users : List Address} (hnodup : users.Nodup) :
    ∃ updates env', updates.length = users.length ∧
      Commits Call.body env ⟨fun _ => true,.batchSetComplianceStatus admin updates⟩ env' :=
  ⟨users.map (onwardUpdate env.ledger),_,List.length_map _,
    batch_commits.mpr ⟨hrun,rfl,onward_valid hrun hadmin hnodup,rfl⟩⟩

theorem batch_limit_binds_iff : BatchLimitBinds env ↔ BatchLimitHarmless env.ledger := by
  refine ⟨fun hbinds => ?_,batch_of_harmless⟩
  cases hrun : isPaused env.ledger with
  | true => exact Or.inl hrun
  | false =>
    cases hadmin : env.ledger.get .admin with
    | none => exact Or.inr (Or.inl hadmin)
    | some admin =>
      by_cases hfull : (getConfig env.ledger).maxBatchSize.toNat = vecCapacity
      · exact Or.inr (Or.inr (Or.inl hfull))
      -- one user more than the limit allows would still fit in a vector
      refine Or.inr (Or.inr (Or.inr fun users hnodup => ?_))
      by_contra hlong
      have hword := (getConfig env.ledger).maxBatchSize.toNat_lt
      obtain ⟨updates, env', hlength, hc⟩ := long_batch_commits hrun hadmin
        (hnodup.take (i := (getConfig env.ledger).maxBatchSize.toNat+1))
      rw [List.length_take] at hlength
      have hwithin := hbinds _ _ _ env' (by rw [vecCapacity] at hfull ⊢; omega) hc
      omega

theorem batch_limit_runs :
    (∀ is : List (Signed Address),
      EachStep Call.body (fun s i => ∀ caller updates,
        i.call = .batchSetComplianceStatus caller updates →
          BatchLimitHarmless s.ledger) is Env.fresh →
      ∀ t ∈ trace Call.body is Env.fresh, ∀ caller updates,
        t.via.call = .batchSetComplianceStatus caller updates → updates.length ≤ vecCapacity →
          updates.length ≤ (getConfig t.pre.ledger).maxBatchSize.toNat) ∧
    ∀ env : Env Address, Reachable Call.body Env.fresh env →
      (BatchLimitBinds env ↔ BatchLimitHarmless env.ledger) := by
  constructor
  · rintro is hC ⟨s, ⟨auth, c⟩, s'⟩ ht caller updates hcall hvec
    have hharmless := hC.of_mem ht caller updates hcall
    have hc := (mem_trace ht).2
    cases hcall
    exact batch_of_harmless hharmless auth caller updates s' hvec hc
  · exact fun env _ => batch_limit_binds_iff

theorem long_batch_configured :
    Reachable Call.body Env.fresh configured ∧ ¬BatchLimitBinds configured := by
  refine ⟨⟨configuring,rfl⟩,fun h => ?_⟩
  have hc : Commits Call.body configured
      ⟨fun a => a = 0,.batchSetComplianceStatus 0 [⟨2,.pending⟩,⟨3,.pending⟩]⟩ _ := rfl
  exact absurd (h _ _ _ _ (by decide) hc) (by decide)

end Aegis
