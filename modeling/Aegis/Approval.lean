import Aegis.ComplianceLifecycle
import Aegis.HostKit.History

/-!
# Separation of duties

The approver record of a user names the signer of the last call that cleared
the user, whichever of the three clearing entrypoints it went through. An
approved user therefore has a record, and what the issuance guard compares
is a fact about the history of the run.
-/

set_option autoImplicit false

namespace Aegis
open HostKit

variable {Address : Type}

def Clears (user : Address) (l l' : Ledger Address) : Prop :=
  getComplianceStatus user l ≠ .approved ∧ getComplianceStatus user l' = .approved

instance (user : Address) (l l' : Ledger Address) : Decidable (Clears user l l') :=
  inferInstanceAs (Decidable (_ ∧ _))

/-- The calls that can clear a user. -/
def Call.Approves (user : Address) : Call Address → Prop
  | .setComplianceStatus _ target newStatus => target = user ∧ newStatus = .approved
  | .batchSetComplianceStatus _ updates => ⟨user,.approved⟩ ∈ updates
  | .whitelistUser _ target => target = user
  | _ => False

variable [DecidableEq Address] {env env' : Env Address} {i : Signed Address}
  {caller user : Address} {l l' : Ledger Address}

/-! ## The record follows the status -/

/-- No edge of the matrix leads from approved to approved, so a write of the
record is a clearing. -/
theorem StatusWritten.clears_iff {status : ComplianceStatus}
    (h : StatusWritten caller user status l l') : Clears user l l' ↔ status = .approved := by
  have hself : transitionIsAllowed .approved .approved = false := rfl
  rw [Clears, h.status_eq]
  constructor
  · rintro ⟨-, happroved⟩
    exact happroved
  · rintro rfl
    refine ⟨fun hpre => ?_,rfl⟩
    have hedge := h.edge
    rw [hpre, hself] at hedge
    cases hedge

omit [DecidableEq Address] in
theorem StatusKept.not_clears (h : StatusKept user l l') : ¬Clears user l l' := by
  rintro ⟨hpre, hpost⟩
  exact hpre (h.status_eq.symm.trans hpost)

theorem commits_approver (h : Commits Call.body env i env') (user : Address) :
    getComplianceApprover user env'.ledger =
      if Clears user env.ledger env'.ledger then some i.call.signer
      else getComplianceApprover user env.ledger := by
  rcases commits_status h user with hkept | ⟨status, -, hwritten⟩
  · rw [if_neg hkept.not_clears, hkept.approver_eq]
  · simp only [hwritten.clears_iff, hwritten.approver_eq]

omit [DecidableEq Address] in
theorem Call.Requests.approves {call : Call Address} (h : call.Requests user .approved) :
    call.Approves user := by
  cases call with
  | whitelistUser admin target => exact h.1
  | revokeWhitelist admin target => cases h.2
  | _ => exact h

/-- Only the three clearing entrypoints move a user into approved, each
asked for that user and that status. -/
theorem commits_clears (h : Commits Call.body env i env')
    (hclears : Clears user env.ledger env'.ledger) : i.call.Approves user := by
  rcases commits_status h user with hkept | ⟨status, hrequests, hwritten⟩
  · exact absurd hclears hkept.not_clears
  · rw [hwritten.clears_iff.mp hclears] at hrequests
    exact hrequests.approves

/-- The last committed call that moved the user into approved was signed by
the approver. -/
def LastClearedBy (user approver : Address)
    (ts : List (Transition (Auth Address) (Call Address) (Env Address))) : Prop :=
  Since (fun t => Clears user t.pre.ledger t.post.ledger ∧ t.via.call.Approves user ∧
      t.via.call.signer = approver)
    (fun t => ¬Clears user t.pre.ledger t.post.ledger) ts

/-- What the record of a user holds is the history of the user's clearings. -/
theorem record_iff_last (is : List (Signed Address)) (user approver : Address) :
    getComplianceApprover user (run Call.body is Env.fresh).ledger = some approver ↔
      LastClearedBy user approver (trace Call.body is Env.fresh) := by
  apply history_induct (Q := fun ts (s : Env Address) =>
    getComplianceApprover user s.ledger = some approver ↔ LastClearedBy user approver ts)
  · intro ts s i t hs hc
    rw [commits_approver hc user, LastClearedBy, since_snoc_iff]
    by_cases hclears : Clears user s.ledger t.ledger
    · simp [hclears, commits_clears hc hclears]
    · simpa [hclears, LastClearedBy] using hs
  · constructor
    · intro hnone
      cases hnone
    · rintro ⟨before, t, after, hnil, -⟩
      simp at hnil

theorem no_record_iff (is : List (Signed Address)) (user : Address) :
    getComplianceApprover user (run Call.body is Env.fresh).ledger = none ↔
      ∀ t ∈ trace Call.body is Env.fresh, ¬Clears user t.pre.ledger t.post.ledger := by
  apply history_induct (Q := fun ts (s : Env Address) =>
    getComplianceApprover user s.ledger = none ↔
      ∀ t ∈ ts, ¬Clears user t.pre.ledger t.post.ledger)
  · intro ts s i t hs hc
    rw [commits_approver hc user]
    by_cases hclears : Clears user s.ledger t.ledger
    · simp [hclears]
    · simpa [hclears, or_imp, forall_and] using hs
  · exact iff_of_true rfl (by simp)

theorem approver_record (is : List (Signed Address)) (user : Address) :
    (getComplianceApprover user (run Call.body is Env.fresh).ledger ≠ none ↔
      ∃ t ∈ trace Call.body is Env.fresh, Clears user t.pre.ledger t.post.ledger) ∧
    (∀ approver, getComplianceApprover user (run Call.body is Env.fresh).ledger = some approver ↔
      LastClearedBy user approver (trace Call.body is Env.fresh)) ∧
    ∀ i : Signed Address,
      ¬Clears user (run Call.body is Env.fresh).ledger
        (settle Call.body (run Call.body is Env.fresh) i).ledger →
      getComplianceApprover user (settle Call.body (run Call.body is Env.fresh) i).ledger =
        getComplianceApprover user (run Call.body is Env.fresh).ledger := by
  refine ⟨?_,fun approver => record_iff_last is user approver,fun i hnot => ?_⟩
  · rw [Ne, no_record_iff]
    simp only [not_forall, not_not, exists_prop]
  · rcases settle_cases Call.body (run Call.body is Env.fresh) i with ⟨hc, -⟩ | ⟨hstay, -⟩
    · rw [commits_approver hc user, if_neg hnot]
    · rw [hstay]

/-- An approved user has an approver on record: the signer of the last
clearing of the run. -/
theorem approved_cleared (is : List (Signed Address))
    (h : getComplianceStatus user (run Call.body is Env.fresh).ledger = .approved) :
    ∃ approver, getComplianceApprover user (run Call.body is Env.fresh).ledger = some approver ∧
      LastClearedBy user approver (trace Call.body is Env.fresh) := by
  obtain ⟨t, hmem, hpre, hpost⟩ := exists_leaving
    (P := fun s : Env Address => getComplianceStatus user s.ledger ≠ .approved) is
    (by simp [Env.fresh, getComplianceStatus]) (not_not.mpr h)
  have hrecord : getComplianceApprover user (run Call.body is Env.fresh).ledger ≠ none := by
    intro hnone
    exact (no_record_iff is user).mp hnone t hmem ⟨hpre,not_not.mp hpost⟩
  obtain ⟨approver, happrover⟩ := Option.ne_none_iff_exists'.mp hrecord
  exact ⟨approver,happrover,(record_iff_last is user approver).mp happrover⟩

/-! ## Duties -/

/-- Whoever may change a status, whatever it is, has the compliance duty. -/
theorem MayClear.has_duty {current : ComplianceStatus} (h : MayClear caller current l) :
    roleHasDuty (effectiveRole caller l) .compliance = true := by
  obtain ⟨admin, hadmin, hwho⟩ := h
  rw [IsAdmin] at hadmin
  rw [effectiveRole, hadmin]
  by_cases hself : admin = caller
  · simp [hself, roleHasDuty]
  · obtain ⟨hrole | hrole, -⟩ := hwho.resolve_left (Ne.symm hself) <;>
      simp [hself, hrole, roleHasDuty]

/-- Without the compliance duty a signer commits no status change. -/
theorem no_duty_no_change
    (hduty : roleHasDuty (effectiveRole i.call.signer env.ledger) .compliance = false)
    (h : Commits Call.body env i env') (user : Address) :
    getComplianceStatus user env'.ledger = getComplianceStatus user env.ledger := by
  rcases commits_moves h user with hsame | ⟨hclear, -⟩
  · exact hsame
  · rw [hclear.has_duty] at hduty
    cases hduty

theorem evaluateIssuance_enforced {recipient : Address} (henforced : (getPolicy l).enforced = true)
    (h : evaluateIssuance caller (some recipient) l = .allowed) :
    ((getPolicy l).allowDualDutyIssuance = false →
        roleHasDuty (effectiveRole caller l) .compliance = false) ∧
      ((getPolicy l).allowSelfIssuance = false → caller ≠ recipient) ∧
      ((getPolicy l).requireIndependentApprover = true →
        getComplianceApprover recipient l ≠ some caller) := by
  simp only [evaluateIssuance] at h
  -- the refusing branches are closed by the splitter
  split_ifs at h with hnone hduty hopen hdual hself hindependent
  · simp [henforced] at hopen
  · refine ⟨fun hd => by simpa [hd] using hdual,fun hs hsame => by simp [hs, hsame] at hself,?_⟩
    rintro - hrecord
    simp [hrecord] at h
  · refine ⟨fun hd => by simpa [hd] using hdual,fun hs hsame => by simp [hs, hsame] at hself,?_⟩
    intro hrequired
    exact absurd hrequired hindependent

/-! ## Every issuance -/

theorem separation_of_duties (is : List (Signed Address)) (auth : Auth Address)
    (caller recipient : Address) (amount : I128) (env' : Env Address)
    (hc : Commits Call.body (run Call.body is Env.fresh) ⟨auth,.mintAsset caller recipient amount⟩
      env')
    (henforced : (getPolicy (run Call.body is Env.fresh).ledger).enforced = true) :
    ((getPolicy (run Call.body is Env.fresh).ledger).allowDualDutyIssuance = false →
      ∀ i t, i.call.signer = caller → Commits Call.body (run Call.body is Env.fresh) i t →
        ∀ user, getComplianceStatus user t.ledger =
          getComplianceStatus user (run Call.body is Env.fresh).ledger) ∧
    ((getPolicy (run Call.body is Env.fresh).ledger).allowSelfIssuance = false →
      caller ≠ recipient) ∧
    ∃ approver,
      getComplianceApprover recipient (run Call.body is Env.fresh).ledger = some approver ∧
        LastClearedBy recipient approver (trace Call.body is Env.fresh) ∧
        ((getPolicy (run Call.body is Env.fresh).ledger).requireIndependentApprover = true →
          caller ≠ approver) := by
  have hmintable := (mintAsset_ok.mp hc).2.1
  obtain ⟨hdual, hself, hindependent⟩ := evaluateIssuance_enforced henforced hmintable.separated
  refine ⟨fun hforbidden i t hsigner hi user => ?_,hself,?_⟩
  · apply no_duty_no_change _ hi
    rw [hsigner]
    exact hdual hforbidden
  · obtain ⟨approver, hrecord, hlast⟩ := approved_cleared is hmintable.cleared
    refine ⟨approver,hrecord,hlast,fun hrequired hsame => ?_⟩
    apply hindependent hrequired
    rw [hrecord, hsame]

/-- An admin who clears the investor, and an asset manager who issues, under
the policy that keeps all three controls. -/
def separated : List (Signed ℕ) :=
  [⟨fun a => a = 0,.initializeContract 0⟩,
    ⟨fun a => a = 0,.setAssetStatus 0 .active⟩,
    ⟨fun a => a = 0,.setRole 0 3 .assetManager⟩,
    ⟨fun a => a = 0,.setComplianceStatus 0 1 .approved⟩,
    ⟨fun a => a = 0,.setIssuerSeparationPolicy 0
      { enforced := true
        allowDualDutyIssuance := false
        allowSelfIssuance := false
        requireIndependentApprover := true }⟩]

theorem separation_of_duties_separated :
    3 ≠ 1 ∧ ∃ approver, getComplianceApprover 1 (run Call.body separated Env.fresh).ledger =
        some approver ∧
      LastClearedBy 1 approver (trace Call.body separated Env.fresh) ∧ 3 ≠ approver := by
  have hc : Commits Call.body (run Call.body separated Env.fresh)
      ⟨fun a => a = 3,.mintAsset 3 1 ⟨5,by decide,by decide⟩⟩ _ := rfl
  obtain ⟨-, hself, approver, hrecord, hlast, hindependent⟩ :=
    separation_of_duties separated _ 3 1 _ _ hc rfl
  exact ⟨hself rfl,approver,hrecord,hlast,hindependent rfl⟩

end Aegis
