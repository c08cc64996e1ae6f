import Aegis.CompliancePreflight
import Aegis.Eligibility
import Aegis.Footprints

/-!
# Independent calls

Calls whose footprints do not meet commute, whoever makes them and whether
or not they commit. Two groups of such calls end alike in every order, each
as if the other were not there, and what a pre-flight read answered stands
until a call touches a key it was read from.
-/

set_option autoImplicit false

namespace Aegis
open HostKit

variable {Address : Type}

/-- The keys a call may write on some ledger. -/
def Call.touches (call : Call Address) : Set (DataKey Address) := {k | ∃ l, k ∈ call.writes l}

def Call.footprint (call : Call Address) : Set (DataKey Address) := call.reads ∪ call.touches

/-- Neither call touches what the other reads or touches. -/
def Independent (c d : Call Address) : Prop :=
  (∀ k ∈ c.footprint, k ∉ d.touches) ∧ ∀ k ∈ d.footprint, k ∉ c.touches

theorem Independent.symm {c d : Call Address} (h : Independent c d) : Independent d c :=
  ⟨h.2,h.1⟩

variable [DecidableEq Address] {auth : Auth Address} {env env' : Env Address}
  {i j : Signed Address} {is js ks : List (Signed Address)}

/-! ## Two ledgers, one call -/

/-- Nothing but the keys it reads and what was under a key decides what a call
returns, what it publishes, and what is under the key afterwards. -/
theorem footprint_decides {call : Call Address}
    (h : Store.AgreeOn call.reads env.ledger env'.ledger) :
    (call.body.exec auth env).1 = (call.body.exec auth env').1 ∧
      (∃ es, (call.body.exec auth env).2.events = env.events++es ∧
        (call.body.exec auth env').2.events = env'.events++es) ∧
      ∀ k, env.ledger.get k = env'.ledger.get k →
        (call.body.exec auth env).2.ledger.get k = (call.body.exec auth env').2.ledger.get k := by
  obtain ⟨hsame, hrest⟩ := exec_alike (K := {k | env.ledger.get k = env'.ledger.get k})
    h (fun _ hk => hk) auth
  exact ⟨hsame,hrest.published,hrest.ledger⟩

/-- A new role for somebody else decides nothing about a transfer. -/
theorem footprint_decides_transfer :
    ((Call.transfer 1 1 oneUnit).body.exec (fun a => a = 1) deployed).1 =
      ((Call.transfer 1 1 oneUnit).body.exec (fun a => a = 1)
        (settle Call.body deployed ⟨fun a => a = 0,.setRole 0 5 .assetManager⟩)).1 := by
  apply (footprint_decides _).1
  rintro k (rfl | rfl | rfl | rfl | rfl | rfl | rfl) <;> rfl

/-! ## A call settles the same where it finds the same -/

theorem settle_alike {K : Set (DataKey Address)} (hreads : i.call.reads ⊆ K)
    (h : Store.AgreeOn K env.ledger env'.ledger) :
    Alike K env.events env'.events (settle Call.body env i) (settle Call.body env' i) :=
  settle_respects (body_decided hreads env.events env'.events)
    ⟨h,[],(List.append_nil _).symm,(List.append_nil _).symm⟩

theorem settle_frame (env : Env Address) (i : Signed Address) :
    Store.AgreeOff i.call.touches env.ledger (settle Call.body env i).ledger := by
  apply settle_preserves (P := fun t : Env Address =>
    Store.AgreeOff i.call.touches env.ledger t.ledger)
  · intro t hc
    exact (commits_frame hc).mono fun k hk => ⟨env.ledger,hk⟩
  · exact Store.AgreeOff.refl _ _

theorem run_unchanged {k : DataKey Address} (h : ∀ i ∈ is, k ∉ i.call.touches)
    (env : Env Address) : (run Call.body is env).ledger.get k = env.ledger.get k := by
  induction is generalizing env with
  | nil => rfl
  | cons i is ih =>
    rw [List.forall_mem_cons] at h
    exact (ih h.2 _).trans (settle_frame env i k h.1)

/-! ## Interleavings -/

/-- The same ledger, reached by the same events in some order. -/
def SameOutcome (env env' : Env Address) : Prop :=
  env.ledger = env'.ledger ∧ env.events.Perm env'.events

omit [DecidableEq Address] in
theorem sameOutcome_equivalence : Equivalence (@SameOutcome Address) where
  refl _ := ⟨rfl,.refl _⟩
  symm h := ⟨h.1.symm,h.2.symm⟩
  trans h h' := ⟨h.1.trans h'.1,h.2.trans h'.2⟩

/-- On one ledger a call does the same after whatever events. -/
theorem exec_sameLedger (call : Call Address) (auth : Auth Address)
    (h : env.ledger = env'.ledger) :
    (call.body.exec auth env).1 = (call.body.exec auth env').1 ∧
      (call.body.exec auth env).2.ledger = (call.body.exec auth env').2.ledger ∧
      ∃ es, (call.body.exec auth env).2.events = env.events++es ∧
        (call.body.exec auth env').2.events = env'.events++es := by
  obtain ⟨hsame, hrest⟩ := exec_alike (Set.subset_univ call.reads)
    (fun k _ => congrArg (fun l => Store.get l k) h) auth
  refine ⟨hsame,?_,hrest.published⟩
  ext1
  funext k
  exact hrest.ledger k (Set.mem_univ k)

theorem respects_sameOutcome (call : Call Address) : call.body.Respects SameOutcome := by
  rintro auth env env' ⟨hledger, hevents⟩
  obtain ⟨hsame, hkept, es, hlog, hlog'⟩ := exec_sameLedger call auth hledger
  refine ⟨hsame,hkept,?_⟩
  rw [hlog, hlog']
  exact hevents.append_right es

theorem independent_commute (h : Independent i.call j.call) (env : Env Address) :
    SameOutcome (settle Call.body (settle Call.body env i) j)
      (settle Call.body (settle Call.body env j) i) := by
  -- each finds its footprint as it would without the other
  have hi := settle_alike (i := i) (K := i.call.footprint) Set.subset_union_left
    ((settle_frame env j).agreeOn h.1)
  have hj := settle_alike (i := j) (K := j.call.footprint) Set.subset_union_left
    ((settle_frame env i).agreeOn h.2)
  constructor
  · ext1
    funext k
    by_cases hki : k ∈ i.call.touches
    · have hkj : k ∉ j.call.touches := h.1 k (Or.inr hki)
      rw [settle_frame _ j k hkj]
      exact hi.ledger k (Or.inr hki)
    · rw [settle_frame _ i k hki]
      by_cases hkj : k ∈ j.call.touches
      · exact (hj.ledger k (Or.inr hkj)).symm
      · rw [settle_frame _ j k hkj, settle_frame _ j k hkj, settle_frame _ i k hki]
  · obtain ⟨es, hfirst, hlater⟩ := hi.published
    obtain ⟨fs, hfirst', hlater'⟩ := hj.published
    rw [hlater, hlater', hfirst, hfirst', List.append_assoc, List.append_assoc]
    exact List.perm_append_comm.append_left env.events

/-- However two groups of independent calls are interleaved, the ledger and
the published events are those of one group after the other, and either
group leaves its keys as it would alone. -/
theorem interleavings_isolated (h : Interleaves is js ks)
    (hapart : ∀ i ∈ is, ∀ j ∈ js, Independent i.call j.call) (env : Env Address) :
    (run Call.body ks env).ledger = (run Call.body (is++js) env).ledger ∧
      (run Call.body ks env).events.Perm (run Call.body (is++js) env).events ∧
      (∀ i ∈ is, ∀ k ∈ i.call.footprint,
        (run Call.body ks env).ledger.get k = (run Call.body is env).ledger.get k) ∧
      ∀ j ∈ js, ∀ k ∈ j.call.footprint,
        (run Call.body ks env).ledger.get k = (run Call.body js env).ledger.get k := by
  have hfirst := h.run sameOutcome_equivalence respects_sameOutcome
    (fun i hi j hj s => independent_commute (hapart i hi j hj) s) env
  have hsecond := h.symm.run sameOutcome_equivalence respects_sameOutcome
    (fun j hj i hi s => independent_commute (hapart i hi j hj).symm s) env
  refine ⟨hfirst.1,hfirst.2,fun i hi k hk => ?_,fun j hj k hk => ?_⟩
  · rw [hfirst.1, run_append]
    exact run_unchanged (fun j hj => (hapart i hi j hj).1 k hk) _
  · rw [hsecond.1, run_append]
    exact run_unchanged (fun i hi => (hapart i hi j hj).2 k hk) _

def sendsOne : Signed ℕ := ⟨fun a => a = 1,.transfer 1 1 oneUnit⟩
def appointsFive : Signed ℕ := ⟨fun a => a = 0,.setRole 0 5 .assetManager⟩

theorem interleavings_isolated_deployed :
    (run Call.body [appointsFive,sendsOne] deployed).ledger =
      (run Call.body [sendsOne,appointsFive] deployed).ledger := by
  apply (interleavings_isolated (Interleaves.nil.left.right) _ deployed).1
  intro i hi j hj
  rw [List.mem_singleton.mp hi, List.mem_singleton.mp hj]
  constructor
  · rintro k hk ⟨l, rfl⟩
    simp [sendsOne, Call.footprint, Call.reads, Call.touches, Call.writes] at hk
  · rintro k hk ⟨l, rfl | rfl⟩ <;>
      simp [appointsFive, Call.footprint, Call.reads, Call.touches, Call.writes] at hk

/-! ## How long a pre-flight answer stands -/

/-- No call of the run commits a write to a key of the set. -/
def Undisturbed (K : Set (DataKey Address)) (is : List (Signed Address)) (env : Env Address) :
    Prop :=
  ∀ t ∈ trace Call.body is env, ∀ k ∈ K, k ∉ t.via.call.writes t.pre.ledger

theorem Undisturbed.agree {K : Set (DataKey Address)} (h : Undisturbed K is env) :
    Store.AgreeOn K env.ledger (run Call.body is env).ledger := by
  induction is generalizing env with
  | nil => exact Store.AgreeOn.refl K _
  | cons i is ih =>
    rw [Undisturbed] at h
    rcases settle_cases Call.body env i with ⟨hc, htrace⟩ | ⟨hstay, htrace⟩
    · rw [htrace, List.forall_mem_cons] at h
      exact ((commits_frame hc).agreeOn h.1).trans (ih h.2)
    · rw [htrace] at h
      rw [run, hstay]
      exact ih h

section
variable {K : Set (DataKey Address)} {caller sender recipient user : Address} {amount : I128}

omit [DecidableEq Address] in
theorem reads_evaluateTransfer (h : (Call.transfer sender recipient amount).reads ⊆ K) :
    ReadsOnly K (evaluateTransfer sender recipient amount) := by
  simp only [Call.reads, Set.insert_subset_iff, Set.singleton_subset_iff] at h
  obtain ⟨hpaused, hasset, hsender, hrecipient, hcap, hdebited, hcredited⟩ := h
  intro l l' hag
  unfold evaluateTransfer isWhitelisted getHoldingCap
  rw [reads_isPaused hpaused l l' hag, reads_getAssetStatus hasset l l' hag,
    reads_getComplianceStatus hsender l l' hag, reads_getComplianceStatus hrecipient l l' hag,
    reads_getCap hcap l l' hag, reads_getBalanceOf hdebited l l' hag,
    reads_getBalanceOf hcredited l l' hag]

theorem reads_evaluateMint (h : (Call.mintAsset caller recipient amount).reads ⊆ K) :
    ReadsOnly K (evaluateMint caller recipient amount) := by
  simp only [Call.reads, Set.insert_subset_iff, Set.singleton_subset_iff] at h
  obtain ⟨hpaused, hadmin, hrole, -, -, hasset, hstatus, hsupplyCap, hsupply, hholdingCap,
    hbalance⟩ := h
  intro l l' hag
  have hmint : canMint caller l = canMint caller l' := by
    rw [canMint, canMint, hag .admin hadmin, reads_getRole hrole l l' hag]
  unfold evaluateMint isWhitelisted getSupplyCap getHoldingCap
  rw [hmint, reads_isPaused hpaused l l' hag, reads_getAssetStatus hasset l l' hag,
    reads_getComplianceStatus hstatus l l' hag, reads_getCap hsupplyCap l l' hag,
    reads_getCap hholdingCap l l' hag, reads_getTotalSupply hsupply l l' hag,
    reads_getBalanceOf hbalance l l' hag]

theorem reads_checkIssuance (h : (Call.mintAsset caller recipient amount).reads ⊆ K) :
    ReadsOnly K (checkIssuance caller recipient) := by
  simp only [Call.reads, Set.insert_subset_iff, Set.singleton_subset_iff] at h
  obtain ⟨-, hadmin, hrole, hpolicy, happrover, -⟩ := h
  have hrecord : ∀ a, some recipient = some a → .complianceApprover a ∈ K := by
    rintro a ⟨⟩
    exact happrover
  intro l l' hag
  simp only [checkIssuance, getComplianceApprover, hag _ happrover,
    reads_effectiveRole hadmin hrole l l' hag,
    reads_evaluateIssuance hadmin hrole hpolicy hrecord l l' hag]

theorem reads_checkTransition {new : ComplianceStatus}
    (h : (Call.setComplianceStatus caller user new).reads ⊆ K) :
    ReadsOnly K (checkTransition caller user new) := by
  simp only [Call.reads, Set.insert_subset_iff, Set.singleton_subset_iff] at h
  obtain ⟨hpaused, hadmin, hrole, hstatus⟩ := h
  intro l l' hag
  simp only [checkTransition, reads_getComplianceStatus hstatus l l' hag,
    reads_evaluateFromStatus hpaused hadmin hrole l l' hag]

theorem reads_checkBatch {updates : List (ComplianceBatchUpdate Address)}
    (h : (Call.batchSetComplianceStatus caller updates).reads ⊆ K) :
    ReadsOnly K (checkBatch caller updates) := by
  obtain ⟨hcaller, hstatuses⟩ := Set.union_subset_iff.mp h
  intro l l' hag
  rw [checkBatch, checkBatch]
  congr 1
  funext index
  have hrow : (Call.setComplianceStatus caller updates[index].user updates[index].newStatus).reads ⊆
      K := by
    simp only [Set.insert_subset_iff, Set.singleton_subset_iff] at hcaller
    simp only [Call.reads, Set.insert_subset_iff, Set.singleton_subset_iff]
    exact ⟨hcaller.1,hcaller.2.1,hcaller.2.2,
      hstatuses ⟨updates[index],List.getElem_mem index.isLt,rfl⟩⟩
  simp only [checkRow, reads_checkTransition hrow l l' hag]

end

/-- What was answered before a call stands, and the call itself fares the
same, until a key it reads is written. -/
theorem answers_stand (is : List (Signed Address)) (env : Env Address) :
    (∀ sender recipient amount,
      Undisturbed (Call.transfer sender recipient amount).reads is env →
      checkTransferRestriction sender recipient amount (run Call.body is env).ledger =
        checkTransferRestriction sender recipient amount env.ledger) ∧
    (∀ caller recipient amount,
      Undisturbed (Call.mintAsset caller recipient amount).reads is env →
      checkMintRestriction caller recipient amount (run Call.body is env).ledger =
          checkMintRestriction caller recipient amount env.ledger ∧
        checkIssuanceAuthority caller recipient (run Call.body is env).ledger =
          checkIssuanceAuthority caller recipient env.ledger) ∧
    (∀ caller user newStatus,
      Undisturbed (Call.setComplianceStatus caller user newStatus).reads is env →
      checkComplianceTransition caller user newStatus (run Call.body is env).ledger =
        checkComplianceTransition caller user newStatus env.ledger) ∧
    (∀ caller updates,
      Undisturbed (Call.batchSetComplianceStatus caller updates).reads is env →
      checkComplianceBatch caller updates (run Call.body is env).ledger =
        checkComplianceBatch caller updates env.ledger) ∧
    ∀ (call : Call Address) (auth : Auth Address), Undisturbed call.reads is env →
      (call.body.exec auth (run Call.body is env)).1 = (call.body.exec auth env).1 := by
  refine ⟨fun sender recipient amount h => ?_,fun caller recipient amount h => ⟨?_,?_⟩,
    fun caller user newStatus h => ?_,fun caller updates h => ?_,fun call auth h => ?_⟩
  · exact reads_evaluateTransfer (Set.Subset.refl _) _ _ h.agree.symm
  · exact reads_evaluateMint (Set.Subset.refl _) _ _ h.agree.symm
  · exact reads_checkIssuance (Set.Subset.refl _) _ _ h.agree.symm
  · exact reads_checkTransition (Set.Subset.refl _) _ _ h.agree.symm
  · exact reads_checkBatch (Set.Subset.refl _) _ _ h.agree.symm
  · exact (exec_alike (Set.Subset.refl _) h.agree.symm auth).1

end Aegis
