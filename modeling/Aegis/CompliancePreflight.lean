import Aegis.System

/-!
# The pre-flight reads of the compliance lifecycle

A report on one transition comes from the evaluation that enforces it. The
reports on a batch are made row by row, with a duplicate scan of their own,
and the first row refused is the one the batch fails at.
-/

set_option autoImplicit false

namespace Aegis
open HostKit

variable {Address : Type} [DecidableEq Address]

/-- Scan of the entries below one index. -/
def isDuplicateAt (updates : List (ComplianceBatchUpdate Address))
    (index : Fin updates.length) : Bool :=
  (updates.take index).any fun earlier => earlier.user = updates[index].user

/-- One report of a batch: a duplicate keeps its row and overrides the verdict. -/
def checkRow (caller : Address) (duplicate : Bool) (update : ComplianceBatchUpdate Address)
    (l : Ledger Address) : ComplianceTransitionCheck Address :=
  let check := checkTransition caller update.user update.newStatus l
  if duplicate then
    { check with
      allowed := false
      reason := .duplicateUserInBatch
      errorCode := TransitionGuard.duplicateUserInBatch.errorForGuard.map Error.code }
  else
    check

def checkBatch (caller : Address) (updates : List (ComplianceBatchUpdate Address))
    (l : Ledger Address) : List (ComplianceTransitionCheck Address) :=
  List.ofFn fun index : Fin updates.length =>
    checkRow caller (isDuplicateAt updates index) updates[index] l

def checkComplianceBatch (caller : Address) (updates : List (ComplianceBatchUpdate Address))
    (l : Ledger Address) : List (ComplianceTransitionCheck Address) :=
  checkBatch caller updates l

variable {env : Env Address} {auth : Auth Address} {caller user : Address}
  {newStatus : ComplianceStatus} {l : Ledger Address}

/-! ## One transition -/

theorem checkTransition_allowed : (checkTransition caller user newStatus l).allowed = true ↔
    evaluateTransition caller user newStatus l = .allowed := by
  simp [checkTransition, evaluateTransition, TransitionGuard.isAllowed]

theorem validateTransition_refuses (h : evaluateTransition caller user newStatus l ≠ .allowed) :
    ∃ f e, validateTransition caller user newStatus l = .error f ∧ f.error = some e ∧
      (checkTransition caller user newStatus l).errorCode = some e.code := by
  obtain ⟨f, e, hrefused, hf, herror⟩ := requireTransition_refuses h
  refine ⟨f,e,?_,hf,?_⟩
  · rw [validateTransition]
    exact guard_bind_of_error hrefused
  · rw [checkTransition, herror]
    rfl

/-- A paused contract refuses the transition as it refuses the call. -/
theorem validateTransition_paused (h : isPaused l = true) :
    validateTransition caller user newStatus l = .error (.panic .contractPaused) := by
  simp [validateTransition, requireTransition, evaluateFromStatus, h, TransitionGuard.isAllowed,
    TransitionGuard.errorForGuard, TransitionGuard.guardPanics, bind, Except.bind]

omit [DecidableEq Address] in
/-- A validation that refuses everything while the contract is paused refuses
for the call it opens. -/
theorem validated_refused {α β : Type} {validate : Ledger Address → Except Failure α}
    {next : α → Contract Address β} (hauth : auth caller = true)
    (hpaused : isPaused env.ledger = true →
      validate env.ledger = .error (.panic .contractPaused))
    {f : Failure} (h : validate env.ledger = .error f) :
    (check requireNotPaused >>= fun _ => requireAuth caller >>= fun _ =>
      check validate >>= next).exec auth env = (.error f, env) := by
  cases hp : isPaused env.ledger with
  | true =>
    rw [hpaused hp] at h
    cases h
    exact paused_first hp
  | false =>
    rw [exec_opened hp hauth]
    exact guard_refuses h

theorem setComplianceStatus_refused (hauth : auth caller = true) {f : Failure}
    (h : validateTransition caller user newStatus env.ledger = .error f) :
    (setComplianceStatus caller user newStatus).exec auth env = (.error f, env) :=
  validated_refused hauth validateTransition_paused h

theorem transition_preflight_exact (hauth : auth caller = true) (env : Env Address)
    (user : Address) (newStatus : ComplianceStatus) :
    ((checkComplianceTransition caller user newStatus env.ledger).allowed = true ↔
      ∃ env', Commits Call.body env ⟨auth,.setComplianceStatus caller user newStatus⟩ env') ∧
    (∀ env', Commits Call.body env ⟨auth,.setComplianceStatus caller user newStatus⟩ env' →
      getComplianceStatus user env'.ledger = newStatus ∧
        ∀ other, other ≠ user →
          getComplianceStatus other env'.ledger = getComplianceStatus other env.ledger) ∧
    ((checkComplianceTransition caller user newStatus env.ledger).allowed = false →
      ∃ f e, (setComplianceStatus caller user newStatus).exec auth env = (.error f, env) ∧
        f.error = some e ∧
        (checkComplianceTransition caller user newStatus env.ledger).errorCode = some e.code) := by
  refine ⟨?_,fun env' hc => ?_,fun hrefused => ?_⟩
  · rw [checkComplianceTransition, checkTransition_allowed]
    constructor
    · intro hallowed
      exact ⟨_,setComplianceStatus_ok.mpr ⟨hauth,hallowed,rfl⟩⟩
    · rintro ⟨env', hc⟩
      exact (setComplianceStatus_ok.mp hc).2.1
  · obtain ⟨-, -, rfl⟩ := setComplianceStatus_ok.mp hc
    constructor
    · rw [getComplianceStatus_withStatus, if_pos rfl]
    · intro other hne
      rw [getComplianceStatus_withStatus, if_neg hne]
  · have hnot : evaluateTransition caller user newStatus env.ledger ≠ .allowed := by
      intro hallowed
      rw [checkComplianceTransition, checkTransition_allowed.mpr hallowed] at hrefused
      cases hrefused
    obtain ⟨f, e, hf, he, hcode⟩ := validateTransition_refuses hnot
    exact ⟨f,e,setComplianceStatus_refused hauth hf,he,hcode⟩

theorem transition_preflight_deployed :
    ∃ env', Commits Call.body deployed ⟨fun a => a = 0,.setComplianceStatus 0 1 .blocked⟩ env' :=
  (transition_preflight_exact (by decide) deployed 1 .blocked).1.mp (by decide)

/-! ## The rows of a batch -/

theorem isDuplicateAt_iff {updates : List (ComplianceBatchUpdate Address)}
    {index : Fin updates.length} : isDuplicateAt updates index = true ↔
      ∃ earlier : Fin updates.length, earlier < index ∧
        updates[earlier].user = updates[index].user := by
  simp only [isDuplicateAt, List.any_eq_true, List.mem_take_iff_getElem, decide_eq_true_eq]
  constructor
  · rintro ⟨_, ⟨j, hj, rfl⟩, huser⟩
    have hlt : j < index.val ∧ j < updates.length := lt_min_iff.mp hj
    exact ⟨⟨j,hlt.2⟩,hlt.1,huser⟩
  · rintro ⟨earlier, hlt, huser⟩
    exact ⟨_,⟨earlier.val,lt_min hlt earlier.isLt,rfl⟩,huser⟩

theorem checkRow_allowed {duplicate : Bool} {update : ComplianceBatchUpdate Address} :
    (checkRow caller duplicate update l).allowed = true ↔
      duplicate = false ∧ evaluateTransition caller update.user update.newStatus l = .allowed := by
  rw [← checkTransition_allowed, checkRow]
  cases duplicate <;> simp

/-- The override leaves alone what the row is about. -/
theorem checkRow_subject (caller : Address) (duplicate : Bool)
    (update : ComplianceBatchUpdate Address) (l : Ledger Address) :
    (checkRow caller duplicate update l).caller = caller ∧
      (checkRow caller duplicate update l).user = update.user ∧
      (checkRow caller duplicate update l).currentStatus = getComplianceStatus update.user l ∧
      (checkRow caller duplicate update l).requestedStatus = update.newStatus := by
  cases duplicate <;> exact ⟨rfl,rfl,rfl,rfl⟩

/-- The override is the only source of its reason. -/
theorem checkRow_duplicate {duplicate : Bool} {update : ComplianceBatchUpdate Address} :
    (checkRow caller duplicate update l).reason = .duplicateUserInBatch ↔ duplicate = true := by
  cases duplicate with
  | true => simp [checkRow]
  | false => simp [checkRow, checkTransition, evaluateFromStatus_ne_duplicate]

/-- The rows in order, each next to the entries before it. -/
def batchRows (caller : Address) : List (ComplianceBatchUpdate Address) →
    List (ComplianceBatchUpdate Address) → Ledger Address → List (ComplianceTransitionCheck Address)
  | _, [], _ => []
  | earlier, update::rest, l =>
    checkRow caller (batchHasDuplicateUser earlier update) update l ::
      batchRows caller (earlier++[update]) rest l

theorem ofFn_batchRows (earlier updates : List (ComplianceBatchUpdate Address)) :
    (List.ofFn fun index : Fin updates.length =>
        checkRow caller (batchHasDuplicateUser (earlier++updates.take index) updates[index])
          updates[index] l) = batchRows caller earlier updates l := by
  induction updates generalizing earlier with
  | nil => rfl
  | cons update rest ih =>
    rw [batchRows, ← ih, List.ofFn_succ]
    simp

/-- Both duplicate scans read the same entries. -/
theorem checkBatch_eq (updates : List (ComplianceBatchUpdate Address)) :
    checkBatch caller updates l = batchRows caller [] updates l := by
  rw [← ofFn_batchRows]
  rfl

/-- The first row refused is the entry the validation loop stops at. -/
theorem validateUpdates_rows (caller : Address) (l : Ledger Address)
    (earlier updates : List (ComplianceBatchUpdate Address)) :
    ((∀ row ∈ batchRows caller earlier updates l, row.allowed = true) →
        ∃ previous, validateUpdates caller earlier updates l = .ok previous) ∧
      ∀ row, (batchRows caller earlier updates l).find? (fun row => !row.allowed) = some row →
        ∃ f e, validateUpdates caller earlier updates l = .error f ∧ f.error = some e ∧
          row.errorCode = some e.code := by
  induction updates generalizing earlier with
  | nil =>
    refine ⟨fun _ => ⟨[],rfl⟩,fun row h => ?_⟩
    cases h
  | cons update rest ih =>
    obtain ⟨hpass, hfail⟩ := ih (earlier++[update])
    rw [batchRows, validateUpdates]
    cases hdup : batchHasDuplicateUser earlier update with
    | true =>
      constructor
      · intro hall
        have hrow := checkRow_allowed.mp (hall _ List.mem_cons_self)
        exact absurd hrow.1 (by decide)
      · intro row hrow
        cases hrow
        exact ⟨.err .invalidComplianceTransition,.invalidComplianceTransition,rfl,rfl,rfl⟩
    | false =>
      rw [if_neg (by decide)]
      by_cases hallowed : evaluateTransition caller update.user update.newStatus l = .allowed
      · have hrow : (checkRow caller false update l).allowed = true :=
          checkRow_allowed.mpr ⟨rfl,hallowed⟩
        have hvalid : validateTransition caller update.user update.newStatus l =
            .ok (getComplianceStatus update.user l) := validateTransition_ok.mpr ⟨hallowed,rfl⟩
        rw [guard_bind_of_ok hvalid]
        constructor
        · intro hall
          obtain ⟨previous, hrest⟩ := hpass fun row hmem => hall row (List.mem_cons_of_mem _ hmem)
          exact ⟨_,by rw [guard_bind_of_ok hrest]⟩
        · intro row hfind
          rw [List.find?_cons_of_neg (by simp [hrow])] at hfind
          obtain ⟨f, e, hrest, he, hcode⟩ := hfail row hfind
          exact ⟨f,e,guard_bind_of_error hrest,he,hcode⟩
      · have hrow : ¬(checkRow caller false update l).allowed = true :=
          fun h => hallowed (checkRow_allowed.mp h).2
        obtain ⟨f, e, hvalid, he, hcode⟩ := validateTransition_refuses hallowed
        constructor
        · intro hall
          exact absurd (hall _ List.mem_cons_self) hrow
        · intro row hfind
          rw [List.find?_cons_of_pos (by simp [hrow])] at hfind
          cases hfind
          exact ⟨f,e,guard_bind_of_error hvalid,he,hcode⟩

/-- A paused contract refuses the first entry as it refuses the call. -/
theorem validateUpdates_paused {updates : List (ComplianceBatchUpdate Address)} (hne : updates ≠ [])
    (h : isPaused l = true) :
    validateUpdates caller [] updates l = .error (.panic .contractPaused) :=
  validateUpdates_refused hne fun _ _ => validateTransition_paused h

theorem batchSetComplianceStatus_refused (hauth : auth caller = true)
    {updates : List (ComplianceBatchUpdate Address)} (hne : updates ≠ []) {f : Failure}
    (h : validateUpdates caller [] updates env.ledger = .error f) :
    (batchSetComplianceStatus caller updates).exec auth env = (.error f, env) :=
  validated_refused hauth (validateUpdates_paused hne) h

/-- A validated batch of a contract that runs commits. -/
theorem batch_commits_of_validated (hauth : auth caller = true)
    {updates : List (ComplianceBatchUpdate Address)} {previous : List ComplianceStatus}
    (hne : updates ≠ []) (h : validateUpdates caller [] updates env.ledger = .ok previous) :
    ∃ env', Commits Call.body env ⟨auth,.batchSetComplianceStatus caller updates⟩ env' := by
  have hvalid := (validateUpdates_ok.mp h).1.2
  obtain ⟨update, hmem⟩ := List.exists_mem_of_ne_nil updates hne
  have hrun := (evaluateTransition_allowed.mp (hvalid.2 update hmem)).1
  exact ⟨_,batch_commits.mpr ⟨hrun,hauth,hvalid,rfl⟩⟩

theorem batch_preflight_exact (hauth : auth caller = true) (env : Env Address)
    {updates : List (ComplianceBatchUpdate Address)} (hne : updates ≠ []) :
    (checkComplianceBatch caller updates env.ledger).length = updates.length ∧
    (∀ index : Fin updates.length, ∃ row,
      (checkComplianceBatch caller updates env.ledger)[index.val]? = some row ∧
        row.caller = caller ∧ row.user = updates[index].user ∧
        row.currentStatus = getComplianceStatus updates[index].user env.ledger ∧
        row.requestedStatus = updates[index].newStatus ∧
        (row.reason = .duplicateUserInBatch ↔
          ∃ earlier : Fin updates.length, earlier < index ∧
            updates[earlier].user = updates[index].user)) ∧
    ((∃ env', Commits Call.body env ⟨auth,.batchSetComplianceStatus caller updates⟩ env') ↔
      ∀ row ∈ checkComplianceBatch caller updates env.ledger, row.allowed = true) ∧
    ∀ row, (checkComplianceBatch caller updates env.ledger).find? (fun row => !row.allowed) =
        some row →
      ∃ f e, (batchSetComplianceStatus caller updates).exec auth env = (.error f, env) ∧
        f.error = some e ∧ row.errorCode = some e.code := by
  obtain ⟨hpass, hfail⟩ := validateUpdates_rows caller env.ledger [] updates
  rw [← checkBatch_eq] at hpass hfail
  refine ⟨List.length_ofFn,fun index => ?_,⟨?_,?_⟩,fun row hrow => ?_⟩
  · have hrow : (checkComplianceBatch caller updates env.ledger)[index.val]? =
        some (checkRow caller (isDuplicateAt updates index) updates[index] env.ledger) := by
      rw [checkComplianceBatch, checkBatch, List.getElem?_ofFn, dif_pos index.isLt]
    obtain ⟨hcaller, huser, hcurrent, hrequested⟩ :=
      checkRow_subject caller (isDuplicateAt updates index) updates[index] env.ledger
    exact ⟨_,hrow,hcaller,huser,hcurrent,hrequested,checkRow_duplicate.trans isDuplicateAt_iff⟩
  · rintro ⟨env', hc⟩ row hrow
    by_contra hnot
    have hvalid := (batch_commits.mp hc).2.2.1
    have hpassed : ∃ previous, validateUpdates caller [] updates env.ledger = .ok previous :=
      ⟨_,validateUpdates_ok.mpr ⟨⟨by simp,hvalid⟩,rfl⟩⟩
    have hsome : ((checkBatch caller updates env.ledger).find? fun row => !row.allowed).isSome :=
      List.find?_isSome.mpr ⟨row,hrow,by simp [hnot]⟩
    obtain ⟨first, hfirst⟩ := Option.isSome_iff_exists.mp hsome
    obtain ⟨f, e, hrefused, -⟩ := hfail first hfirst
    obtain ⟨previous, hok⟩ := hpassed
    rw [hok] at hrefused
    cases hrefused
  · intro hall
    obtain ⟨previous, hvalid⟩ := hpass hall
    exact batch_commits_of_validated hauth hne hvalid
  · obtain ⟨f, e, hrefused, he, hcode⟩ := hfail row hrow
    exact ⟨f,e,batchSetComplianceStatus_refused hauth hne hrefused,he,hcode⟩

theorem batch_preflight_deployed :
    ∃ env', Commits Call.body deployed
      ⟨fun a => a = 0,.batchSetComplianceStatus 0 [⟨1,.blocked⟩,⟨2,.pending⟩]⟩ env' :=
  (batch_preflight_exact (by decide) deployed (List.cons_ne_nil _ _)).2.2.1.mpr (by decide)

end Aegis
