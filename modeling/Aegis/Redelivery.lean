import Aegis.Independence
import Aegis.MovementAlgebra

/-!
# Redelivery

A client that does not learn whether a call arrived may send it again. The
ledger is the same however often the calls that move nothing are delivered,
and a movement that commits a second time does move once more.
-/

set_option autoImplicit false

namespace Aegis
open HostKit

variable {Address : Type}

/-- Issuance, and transfers between two holders. -/
def Call.Moves : Call Address → Prop
  | .mintAsset _ _ _ => True
  | .transfer sender recipient _ => sender ≠ recipient
  | _ => False

variable [DecidableEq Address] {env env' env'' : Env Address} {i : Signed Address}

/-- No edge of the lifecycle leads back to where it starts. -/
theorem transition_not_repeated {caller user : Address} {status : ComplianceStatus}
    {l : Ledger Address} (h : getComplianceStatus user l = status) :
    evaluateTransition caller user status l ≠ .allowed := by
  intro hallowed
  have hedge := (evaluateTransition_allowed.mp hallowed).2.2
  rw [h] at hedge
  cases status <;> cases hedge

/-- A call that commits twice in a row finds what it wrote, or moves. -/
theorem commits_again (h : Commits Call.body env i env') (h' : Commits Call.body env' i env'')
    (hstill : ¬i.call.Moves) : env''.ledger = env'.ledger := by
  obtain ⟨auth, c⟩ := i
  cases c with
  | initializeContract admin =>
    obtain ⟨-, -, rfl⟩ := initializeContract_ok.mp h
    obtain ⟨hnone, -⟩ := initializeContract_ok.mp h'
    simp at hnone
  | setRole admin target role =>
    obtain ⟨-, -, rfl⟩ := setRole_ok.mp h
    obtain ⟨-, -, rfl⟩ := setRole_ok.mp h'
    exact Store.set_set _ _ _ _
  | removeRole admin target =>
    obtain ⟨-, -, rfl⟩ := removeRole_ok.mp h
    obtain ⟨-, -, rfl⟩ := removeRole_ok.mp h'
    exact Store.set_set _ _ _ _
  | transferAdmin admin candidate =>
    obtain ⟨-, rfl⟩ := transferAdmin_ok.mp h
    obtain ⟨-, rfl⟩ := transferAdmin_ok.mp h'
    exact Store.set_set _ _ _ _
  | acceptAdmin candidate =>
    obtain ⟨-, -, -, previous, -, rfl⟩ := acceptAdmin_ok.mp h
    obtain ⟨-, -, hcandidate, -⟩ := acceptAdmin_ok.mp h'
    simp at hcandidate
  | renounceAdmin admin =>
    obtain ⟨-, rfl⟩ := renounceAdmin_ok.mp h
    obtain ⟨⟨-, -, hadmin⟩, -⟩ := renounceAdmin_ok.mp h'
    simp [IsAdmin] at hadmin
  | pause caller =>
    obtain ⟨-, -, -, rfl⟩ := pause_ok.mp h
    obtain ⟨-, -, -, rfl⟩ := pause_ok.mp h'
    exact Store.set_set _ _ _ _
  | unpause caller =>
    obtain ⟨-, -, -, rfl⟩ := unpause_ok.mp h
    obtain ⟨-, -, -, rfl⟩ := unpause_ok.mp h'
    exact Store.set_set _ _ _ _
  | setComplianceStatus caller user newStatus =>
    obtain ⟨-, -, rfl⟩ := setComplianceStatus_ok.mp h
    obtain ⟨-, hallowed, -⟩ := setComplianceStatus_ok.mp h'
    refine absurd hallowed (transition_not_repeated ?_)
    rw [getComplianceStatus_withStatus, if_pos rfl]
  | batchSetComplianceStatus caller updates =>
    obtain ⟨-, -, hvalid, rfl⟩ := batch_commits.mp h
    obtain ⟨-, -, hvalid', rfl⟩ := batch_commits.mp h'
    cases updates with
    | nil => rfl
    | cons update rest =>
      have hmem := List.mem_cons_self (a := update) (l := rest)
      refine absurd (hvalid'.2 update hmem) (transition_not_repeated ?_)
      rw [getComplianceStatus, withUpdates_get_of_mem hvalid.1 hmem (Or.inl rfl),
        ← getComplianceStatus, getComplianceStatus_withStatus, if_pos rfl]
  | whitelistUser admin user =>
    obtain ⟨-, -, -, ⟨-, rfl⟩ | ⟨hedge', -⟩⟩ := whitelistUser_ok.mp h'
    · rfl
    -- the first delivery approved the user
    have happroved : getComplianceStatus user env'.ledger = .approved := by
      obtain ⟨-, -, -, ⟨hsame, rfl⟩ | ⟨-, rfl⟩⟩ := whitelistUser_ok.mp h
      · exact hsame
      · rw [getComplianceStatus_withStatus, if_pos rfl]
    rw [happroved] at hedge'
    cases hedge'
  | revokeWhitelist admin user =>
    obtain ⟨-, -, -, ⟨-, rfl⟩ | ⟨hedge', -⟩⟩ := revokeWhitelist_ok.mp h'
    · rfl
    obtain ⟨-, -, -, ⟨hedge, rfl⟩ | ⟨-, rfl⟩⟩ := revokeWhitelist_ok.mp h
    · rw [hedge] at hedge'
      cases hedge'
    · rw [getComplianceStatus_withStatus, if_pos rfl] at hedge'
      cases hedge'
  | setAssetStatus admin newStatus =>
    obtain ⟨-, -, -, -, rfl⟩ := setAssetStatus_ok.mp h
    obtain ⟨-, -, -, -, rfl⟩ := setAssetStatus_ok.mp h'
    exact Store.set_set _ _ _ _
  | updateAssetMetadata caller name symbol uri =>
    obtain ⟨-, -, -, -, -, rfl⟩ := updateAssetMetadata_ok.mp h
    obtain ⟨-, -, -, -, -, rfl⟩ := updateAssetMetadata_ok.mp h'
    rw [Store.set_of_get (by simp), Store.set_of_get (by simp), Store.set_of_get (by simp)]
  | mintAsset admin recipient amount => exact absurd trivial hstill
  | transfer sender recipient amount =>
    obtain rfl : sender = recipient := not_not.mp hstill
    obtain ⟨-, -, debited, credited, hdebit, hcredit, rfl⟩ := transfer_ok.mp h
    obtain ⟨-, -, debited', credited', hdebit', hcredit', rfl⟩ := transfer_ok.mp h'
    simp only [getBalanceOf, Store.get_set_self, Option.getD_some] at hcredit hdebit' hcredit'
    obtain rfl : credited' = credited := by
      ext1
      omega
    rw [Store.set_set, Store.set_set, Store.set_set]
  | distributeYield admin amount =>
    obtain ⟨-, -, -, -, -, rfl⟩ := distributeYield_ok.mp h'
    rfl
  | proposeSupplyCap admin proposedCap | proposeHoldingCap admin proposedCap =>
    obtain ⟨-, -, -, rfl⟩ := proposeCap_ok.mp h
    obtain ⟨-, -, -, rfl⟩ := proposeCap_ok.mp h'
    exact Store.set_set _ _ _ _
  | acceptSupplyCap admin | acceptHoldingCap admin =>
    obtain ⟨-, proposed, -, rfl⟩ := acceptCap_ok.mp h
    obtain ⟨-, proposed', hpending, -⟩ := acceptCap_ok.mp h'
    simp at hpending
  | cancelSupplyCapProposal admin | cancelHoldingCapProposal admin =>
    obtain ⟨-, -, rfl⟩ := cancelCapProposal_ok.mp h
    obtain ⟨-, hpending, -⟩ := cancelCapProposal_ok.mp h'
    simp [Store.has] at hpending
  | proposeConfig admin proposedConfig =>
    obtain ⟨-, -, -, rfl⟩ := proposeConfig_ok.mp h
    obtain ⟨-, -, -, rfl⟩ := proposeConfig_ok.mp h'
    exact Store.set_set _ _ _ _
  | acceptConfig admin =>
    obtain ⟨-, pending, -, rfl⟩ := acceptConfig_ok.mp h
    obtain ⟨-, pending', hpending, -⟩ := acceptConfig_ok.mp h'
    simp at hpending
  | cancelConfigProposal admin =>
    obtain ⟨-, -, rfl⟩ := cancelConfigProposal_ok.mp h
    obtain ⟨-, hpending, -⟩ := cancelConfigProposal_ok.mp h'
    simp [Store.has] at hpending
  | setIssuerSeparationPolicy admin policy =>
    obtain ⟨-, rfl⟩ := setIssuerSeparationPolicy_ok.mp h
    obtain ⟨-, rfl⟩ := setIssuerSeparationPolicy_ok.mp h'
    exact Store.set_set _ _ _ _

/-- A movement that commits moves. -/
theorem moves_changes (h : Commits Call.body env i env') (hmoves : i.call.Moves) :
    env'.ledger ≠ env.ledger := by
  obtain ⟨auth, c⟩ := i
  intro hsame
  cases c with
  | mintAsset admin recipient amount =>
    have hpos := (mintAsset_ok.mp h).2.1.positive
    have hissued := (mint_effect h).2.1
    rw [hsame] at hissued
    omega
  | transfer sender recipient amount =>
    have hpos := (transfer_ok.mp h).2.1.positive
    have hdebited := (transfer_effect hmoves h).1
    rw [hsame] at hdebited
    omega
  | _ => cases hmoves

/-- The same ledger, whatever was published. -/
def SameLedger (env env' : Env Address) : Prop := env.ledger = env'.ledger

omit [DecidableEq Address] in
theorem sameLedger_equivalence : Equivalence (@SameLedger Address) where
  refl _ := rfl
  symm h := h.symm
  trans h h' := h.trans h'

theorem respects_sameLedger (call : Call Address) : call.body.Respects SameLedger := by
  intro auth env env' h
  obtain ⟨hsame, hkept, -⟩ := exec_sameLedger call auth h
  exact ⟨hsame,hkept⟩

theorem settle_again (hstill : ¬i.call.Moves) (env : Env Address) :
    SameLedger (settle Call.body (settle Call.body env i) i) (settle Call.body env i) := by
  rcases settle_cases Call.body env i with ⟨hc, -⟩ | ⟨hstay, -⟩
  · rcases settle_cases Call.body (settle Call.body env i) i with ⟨hc', -⟩ | ⟨hstay', -⟩
    · exact commits_again hc hc' hstill
    · exact congrArg Env.ledger hstay'
  · rw [hstay, hstay]
    rfl

/-- Delivered in order and at least once, the calls lead where they lead when
delivered once, provided each movement is delivered once. A movement that
commits again in a repetition does change the ledger. -/
theorem redelivery_exact :
    (∀ {is js : List (Signed Address)}, Redelivers (fun i => ¬i.call.Moves) is js →
      ∀ env, (run Call.body js env).ledger = (run Call.body is env).ledger) ∧
    ∀ (env : Env Address) (i : Signed Address),
      (settle Call.body (settle Call.body env i) i).ledger ≠ (settle Call.body env i).ledger ↔
        i.call.Moves ∧ ∃ t, Commits Call.body (settle Call.body env i) i t := by
  constructor
  · intro is js h env
    exact h.run_related sameLedger_equivalence respects_sameLedger
      (fun i hstill s => settle_again hstill s) env
  · intro env i
    constructor
    · intro hchanged
      refine ⟨by_contra fun hstill => hchanged (settle_again hstill env),?_⟩
      rcases settle_cases Call.body (settle Call.body env i) i with ⟨hc, -⟩ | ⟨hstay, -⟩
      · exact ⟨_,hc⟩
      · exact absurd (congrArg Env.ledger hstay) hchanged
    · rintro ⟨hmoves, t, hc⟩
      rw [settle_of_commits hc]
      exact moves_changes hc hmoves

end Aegis
