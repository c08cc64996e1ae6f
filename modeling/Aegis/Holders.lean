import Aegis.Approval
import Aegis.Coalition
import Aegis.Footprints
import Aegis.TransferPreflight

/-!
# Holders

Where a balance comes from, and what its holder can do with it. Every unit
held was last added to while its holder was cleared and within the cap. While
somebody else is the admin, an address without a role or an acceptable
nomination can do nothing to bring about a call of its own that is refused to
it now.
-/

set_option autoImplicit false

namespace Aegis
open HostKit

variable {Address : Type} [DecidableEq Address] {env env' : Env Address} {i : Signed Address}

/-! ## The latest credit -/

/-- The admin key is held outside the group, and no member can accept a
nomination or has a role. -/
structure Plain (S : Set Address) (l : Ledger Address) : Prop where
  excluded : Excluded S l
  roleless : ∀ a ∈ S, getRole a l = .none

/-- The keys that hold no balance. -/
def ruleKeys : Set (DataKey Address) := {k | ∀ a, k ≠ .balance a}

namespace Plain
variable {S : Set Address} {l l' : Ledger Address}

omit [DecidableEq Address] in
theorem not_staffed (h : Plain S l) {kind : Role → Prop} (hkind : ¬kind .none) :
    ¬Staffed S kind l := by
  rintro ⟨a, ha, hrole⟩
  rw [h.roleless a ha] at hrole
  exact hkind hrole

omit [DecidableEq Address] in
theorem not_acts (h : Plain S l) {caller : Address} (hcaller : caller ∈ S) {kind : Role → Prop}
    (hkind : ¬kind .none) : ¬ActsAs caller kind l :=
  fun hacts => h.not_staffed hkind (h.excluded.staffed hcaller hacts)

omit [DecidableEq Address] in
theorem of_single {admin holder : Address} (hadmin : IsAdmin admin l) (hne : admin ≠ holder)
    (hnone : l.get .adminCandidate = none) (hrole : getRole holder l = .none) :
    Plain {holder} l := by
  refine ⟨⟨⟨admin,hadmin,hne⟩,Or.inr fun c hc => ?_⟩,fun a ha => ?_⟩
  · rw [hnone] at hc
    cases hc
  · rw [show a = holder from ha]
    exact hrole

omit [DecidableEq Address] in
/-- All its calls change are balances. -/
theorem rules_kept (h : Plain S l) (hcontained : Contained S l l') :
    Store.AgreeOn ruleKeys l l' := by
  have hmanaged : ∀ k ∈ managedKeys, l.get k = l'.get k := fun k hk =>
    ((hcontained.management k hk).resolve_right (h.not_staffed (by simp))).symm
  have hclearance : ∀ user, ∀ k ∈ statusKeys user, l.get k = l'.get k := by
    intro user k hk
    exact ((hcontained.clearance user k hk).resolve_right fun hboth =>
      h.not_staffed (by simp [isComplianceRole]) hboth.2).symm
  intro k hk
  cases k with
  | paused =>
    exact (hcontained.pause.resolve_right fun hboth => h.not_staffed (by simp) hboth.2).symm
  | balance a => exact absurd rfl (hk a)
  | complianceStatus user => exact hclearance user _ (by simp [statusKeys])
  | whitelist user => exact hclearance user _ (by simp [statusKeys])
  | complianceApprover user => exact hclearance user _ (by simp [statusKeys])
  | totalSupply => exact hmanaged _ (by simp [managedKeys])
  | assetName => exact hmanaged _ (by simp [managedKeys])
  | assetSymbol => exact hmanaged _ (by simp [managedKeys])
  | assetMetadataUri => exact hmanaged _ (by simp [managedKeys])
  | _ => exact (hcontained.governance _ (by simp [governanceKeys])).symm

omit [DecidableEq Address] in
theorem contained (h : Plain S l) (hcontained : Contained S l l') : Plain S l' := by
  refine ⟨hcontained.excluded h.excluded,fun a ha => ?_⟩
  rw [← h.roleless a ha]
  exact (reads_getRole (by simp [ruleKeys]) l l' (h.rules_kept hcontained)).symm

/-- All a plain address commits are transfers and empty batches. -/
theorem commits (h : Plain S env.ledger) (hi : Within S i)
    (hc : Commits Call.body env i env') :
    ∃ caller ∈ S, (∃ recipient amount, i.call = .transfer caller recipient amount) ∨
      i.call = .batchSetComplianceStatus caller [] := by
  obtain ⟨auth, c⟩ := i
  -- every other call takes the admin key or a role
  have hcaller : c.signer ∈ S := signer_within hi hc
  have hadmin : ¬IsAdmin c.signer env.ledger := h.excluded.not_admin hcaller
  have hclear : ∀ status, ¬MayClear c.signer status env.ledger := by
    intro status
    exact h.not_acts hcaller (by simp [isComplianceRole])
  cases c with
  | transfer sender recipient amount => exact ⟨sender,hcaller,Or.inl ⟨recipient,amount,rfl⟩⟩
  | batchSetComplianceStatus caller updates =>
    cases updates with
    | nil => exact ⟨caller,hcaller,Or.inr rfl⟩
    | cons update rest =>
      obtain ⟨-, -, hvalid, -⟩ := batch_commits.mp hc
      have hallowed := hvalid.2 update List.mem_cons_self
      exact absurd (evaluateTransition_allowed.mp hallowed).2.1 (hclear _)
  | initializeContract admin =>
    obtain ⟨hnone, -⟩ := initializeContract_ok.mp hc
    obtain ⟨seated, hseated, -⟩ := h.excluded.seated
    rw [IsAdmin, hnone] at hseated
    cases hseated
  | acceptAdmin candidate => exact absurd rfl (h.excluded.not_accepts hcaller hc)
  | setRole => exact absurd (setRole_ok.mp hc).1.2.2 hadmin
  | removeRole => exact absurd (removeRole_ok.mp hc).1.2.2 hadmin
  | transferAdmin => exact absurd (transferAdmin_ok.mp hc).1.2.2 hadmin
  | renounceAdmin => exact absurd (renounceAdmin_ok.mp hc).1.2.2 hadmin
  | pause => exact absurd (pause_ok.mp hc).2.1 (h.not_acts hcaller (by simp))
  | unpause => exact absurd (unpause_ok.mp hc).2.1 hadmin
  | setComplianceStatus =>
    have hallowed := (setComplianceStatus_ok.mp hc).2.1
    exact absurd (evaluateTransition_allowed.mp hallowed).2.1 (hclear _)
  | whitelistUser => exact absurd (whitelistUser_ok.mp hc).2.2.1 (hclear _)
  | revokeWhitelist => exact absurd (revokeWhitelist_ok.mp hc).2.2.1 (hclear _)
  | setAssetStatus => exact absurd (setAssetStatus_ok.mp hc).2.2.1 hadmin
  | updateAssetMetadata =>
    exact absurd (updateAssetMetadata_ok.mp hc).2.2.1 (h.not_acts hcaller (by simp))
  | mintAsset =>
    exact absurd (mintAsset_ok.mp hc).2.1.manages (h.not_acts hcaller (by simp))
  | distributeYield =>
    exact absurd (distributeYield_ok.mp hc).2.2.1 (h.not_acts hcaller (by simp))
  | proposeSupplyCap | proposeHoldingCap => exact absurd (proposeCap_ok.mp hc).1.2.2 hadmin
  | acceptSupplyCap | acceptHoldingCap => exact absurd (acceptCap_ok.mp hc).1.2.2 hadmin
  | cancelSupplyCapProposal | cancelHoldingCapProposal =>
    exact absurd (cancelCapProposal_ok.mp hc).1.2.2 hadmin
  | proposeConfig => exact absurd (proposeConfig_ok.mp hc).1.2.2 hadmin
  | acceptConfig => exact absurd (acceptConfig_ok.mp hc).1.2.2 hadmin
  | cancelConfigProposal => exact absurd (cancelConfigProposal_ok.mp hc).1.2.2 hadmin
  | setIssuerSeparationPolicy =>
    exact absurd (setIssuerSeparationPolicy_ok.mp hc).1.2.2 hadmin

end Plain

variable {holder : Address} {is : List (Signed Address)}

/-- Its own calls leave a plain address no better placed to send to others. -/
theorem Plain.transferable (h : Plain {holder} env.ledger) (his : ∀ j ∈ is, Within {holder} j)
    {recipient : Address} {amount : I128} (hne : recipient ≠ holder)
    (hmovable : Transferable holder recipient amount (run Call.body is env).ledger) :
    Transferable holder recipient amount env.ledger := by
  have hcontained := run_contained h.excluded his
  have hrules := h.rules_kept hcontained
  have hstatus : ∀ user, getComplianceStatus user env.ledger =
      getComplianceStatus user (run Call.body is env).ledger :=
    fun user => reads_getComplianceStatus (by simp [ruleKeys]) _ _ hrules
  have hcap : getHoldingCap env.ledger = getHoldingCap (run Call.body is env).ledger :=
    reads_getCap (by simp [ruleKeys]) _ _ hrules
  have hheld : (getBalanceOf holder (run Call.body is env).ledger).val ≤
      (getBalanceOf holder env.ledger).val := by
    have hjoint : jointly {holder} (run Call.body is env).ledger ≤ jointly {holder} env.ledger := by
      apply run_not_enriched <;> rw [Finset.coe_singleton]
      · exact h.excluded
      · exact h.not_staffed (by simp)
      · exact his
    simpa [jointly] using hjoint
  have hreceived := hcontained.outsiders recipient (by simpa using hne)
  exact
    { running := (reads_isPaused (by simp [ruleKeys]) _ _ hrules).trans hmovable.running
      positive := hmovable.positive
      active := (reads_getAssetStatus (by simp [ruleKeys]) _ _ hrules).trans hmovable.active
      senderCleared := (hstatus holder).trans hmovable.senderCleared
      recipientCleared := (hstatus recipient).trans hmovable.recipientCleared
      withinHolding := by
        rw [hcap]
        intro hon
        have hroom := hmovable.withinHolding hon
        omega
      covered := hmovable.covered.trans hheld }

/-- Nothing a plain address does brings about a call of its own that is refused
to it now. Sending to itself is the exception: under a holding cap that takes
room on top of the balance, which it can make by sending to others. -/
theorem holder_powerless (h : Reachable Call.body Env.fresh env)
    (hplain : Plain {holder} env.ledger) (hi : Within {holder} i)
    (hother : ∀ amount, i.call ≠ .transfer holder holder amount) :
    (∃ is t, (∀ j ∈ is, Within {holder} j) ∧ Commits Call.body (run Call.body is env) i t) ↔
      ∃ t, Commits Call.body env i t := by
  constructor
  · rintro ⟨is, t, his, hc⟩
    have hcontained := run_contained hplain.excluded his
    obtain ⟨auth, c⟩ := i
    obtain ⟨caller, rfl, ⟨recipient, amount, rfl⟩ | rfl⟩ :=
      (hplain.contained hcontained).commits hi hc
    · obtain ⟨hauth, hmovable, -⟩ := transfer_ok.mp hc
      have hne : recipient ≠ caller := by
        rintro rfl
        exact hother amount rfl
      exact (transfer_commits_iff (reachable_sound h) hauth).mpr
        (hplain.transferable his hne hmovable)
    · obtain ⟨hrun, hauth, -⟩ := batch_commits.mp hc
      rw [← reads_isPaused (by simp [ruleKeys]) _ _ (hplain.rules_kept hcontained)] at hrun
      exact ⟨_,batch_commits.mpr ⟨hrun,hauth,⟨List.nodup_nil,by simp⟩,rfl⟩⟩
  · rintro ⟨t, hc⟩
    exact ⟨[],t,by simp,hc⟩

/-- The investor of the deployment cannot pay a stranger, and nothing it does
changes that. -/
theorem holder_powerless_deployed :
    (∃ is t, (∀ j ∈ is, Within {1} j) ∧
        Commits Call.body (run Call.body is deployed) ⟨fun a => a = 1,.transfer 1 7 oneUnit⟩ t) ↔
      ∃ t, Commits Call.body deployed ⟨fun a => a = 1,.transfer 1 7 oneUnit⟩ t := by
  apply holder_powerless ⟨deployment,rfl⟩ (.of_single (show IsAdmin 0 deployed.ledger from rfl)
    (by decide) rfl rfl)
  · intro a ha
    exact of_decide_eq_true ha
  · simp

end Aegis
