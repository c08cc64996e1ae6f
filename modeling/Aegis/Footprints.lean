import Aegis.HostKit.Footprint
import Aegis.System

/-!
# What a call depends on

Each call reads a fixed set of keys. On two ledgers that agree on these it
returns the same, publishes the same and makes the same writes, whatever the
rest of the ledgers holds.
-/

set_option autoImplicit false

namespace Aegis
open HostKit

variable {Address α β γ : Type}

/-! ## Reading a set of keys only -/

def ReadsOnly (K : Set (DataKey Address)) (g : Ledger Address → γ) : Prop :=
  ∀ l l', Store.AgreeOn K l l' → g l = g l'

theorem ReadsOnly.map {K : Set (DataKey Address)} {g : Ledger Address → β} (h : ReadsOnly K g)
    (f : β → γ) : ReadsOnly K fun l => f (g l) := fun l l' hag => congrArg f (h l l' hag)

/-- States whose ledgers agree on the keys and whose logs have grown alike. -/
structure Alike (K : Set (DataKey Address)) (log log' : List (Event Address))
    (env env' : Env Address) : Prop where
  ledger : Store.AgreeOn K env.ledger env'.ledger
  published : ∃ es, env.events = log++es ∧ env'.events = log'++es

def DecidedBy (K : Set (DataKey Address)) (x : Contract Address α) : Prop :=
  ∀ log log', Host.Respects (Alike K log log') x

section
variable {K : Set (DataKey Address)} {x : Contract Address α} {f : α → Contract Address β}

theorem DecidedBy.bind (hx : DecidedBy K x) (hf : ∀ a, DecidedBy K (f a)) :
    DecidedBy K (x >>= f) := fun log log' => (hx log log').bind fun a => hf a log log'

theorem decided_pure (a : α) : DecidedBy K (pure a) := fun _ _ => Host.respects_pure a

theorem decided_check {g : Ledger Address → Except Failure α} (hg : ReadsOnly K g) :
    DecidedBy K (check g) := fun _ _ => Host.respects_check fun _ _ h => hg _ _ h.ledger

theorem decided_load {g : Ledger Address → α} (hg : ReadsOnly K g) : DecidedBy K (load g) :=
  fun _ _ => Host.respects_load fun _ _ h => hg _ _ h.ledger

theorem decided_getOr {g : Ledger Address → Option α} {failure : Failure} (hg : ReadsOnly K g) :
    DecidedBy K (getOr g failure) := by
  apply decided_check
  intro l l' hag
  simp only [hg l l' hag]

theorem decided_requireAuth (a : Address) : DecidedBy K (requireAuth a) :=
  fun _ _ => Host.respects_require _ _

theorem decided_errWhen (p : Prop) [Decidable p] (e : Error) :
    DecidedBy K (errWhen p e : Contract Address Unit) := fun _ _ => Host.respects_failWhen p _

theorem decided_assertThat (p : Prop) [Decidable p] (m : String) :
    DecidedBy K (assertThat p m : Contract Address Unit) := fun _ _ => Host.respects_failWhen _ _

theorem decided_publish (e : Event Address) : DecidedBy K (publish e) := by
  intro log log'
  apply Host.respects_modify
  rintro env env' ⟨hledger, es, hlog, hlog'⟩
  refine ⟨hledger,es++[e],?_,?_⟩
  · rw [hlog, List.append_assoc]
  · rw [hlog', List.append_assoc]

variable [DecidableEq Address]

theorem decided_set (k : DataKey Address) (v : k.Value) : DecidedBy K (set k v) :=
  fun _ _ => Host.respects_modify fun _ _ h => ⟨h.ledger.set k v,h.published⟩

theorem decided_remove (k : DataKey Address) : DecidedBy K (remove k) :=
  fun _ _ => Host.respects_modify fun _ _ h => ⟨h.ledger.remove k,h.published⟩

end

/-! ## The readers -/

section
variable {K : Set (DataKey Address)} {caller user : Address}

theorem reads_get {k : DataKey Address} (h : k ∈ K) : ReadsOnly K fun l => l.get k :=
  fun _ _ hag => hag k h

theorem reads_has {k : DataKey Address} (h : k ∈ K) : ReadsOnly K fun l => l.has k :=
  (reads_get h).map Option.isSome

theorem reads_isPaused (h : .paused ∈ K) : ReadsOnly K isPaused :=
  (reads_get h).map fun o => o.getD false

theorem reads_requireNotPaused (h : .paused ∈ K) : ReadsOnly K requireNotPaused := by
  intro l l' hag
  rw [requireNotPaused, requireNotPaused, reads_isPaused h l l' hag]

theorem reads_getAdmin (h : .admin ∈ K) : ReadsOnly K getAdmin := by
  intro l l' hag
  rw [getAdmin, getAdmin, hag .admin h]

theorem reads_getRole (h : .role user ∈ K) : ReadsOnly K (getRole user) :=
  (reads_get h).map fun o => o.getD .none

theorem reads_getComplianceStatus (h : .complianceStatus user ∈ K) :
    ReadsOnly K (getComplianceStatus user) := (reads_get h).map fun o => o.getD .unknown

theorem reads_getAssetStatus (h : .assetStatus ∈ K) : ReadsOnly K getAssetStatus :=
  (reads_get h).map fun o => o.getD .draft

theorem reads_getBalanceOf (h : .balance user ∈ K) : ReadsOnly K (getBalanceOf user) :=
  (reads_get h).map fun o => o.getD 0

theorem reads_getTotalSupply (h : .totalSupply ∈ K) : ReadsOnly K getTotalSupply :=
  (reads_get h).map fun o => o.getD 0

theorem reads_getCap {kind : Cap} (h : .cap kind ∈ K) : ReadsOnly K (getCap kind) :=
  (reads_get h).map fun o => o.getD 0

theorem reads_getPolicy (h : .issuerSeparationPolicy ∈ K) : ReadsOnly K getPolicy :=
  (reads_get h).map fun o => o.getD defaultPolicy

theorem reads_requireAssetMovable (h : .assetStatus ∈ K) : ReadsOnly K requireAssetMovable := by
  intro l l' hag
  rw [requireAssetMovable, requireAssetMovable, reads_getAssetStatus h l l' hag]

theorem reads_requireApproved {blocked pending uncleared : Error}
    (h : .complianceStatus user ∈ K) :
    ReadsOnly K (requireApproved blocked pending uncleared user) := by
  intro l l' hag
  rw [requireApproved, requireApproved, reads_getComplianceStatus h l l' hag]

theorem reads_enforceSupplyCap {amount : I128} (hcap : .supplyCap ∈ K)
    (hsupply : .totalSupply ∈ K) :
    ReadsOnly K (enforceSupplyCap amount) := by
  intro l l' hag
  rw [enforceSupplyCap, enforceSupplyCap, getSupplyCap, getSupplyCap, reads_getCap hcap l l' hag,
    reads_getTotalSupply hsupply l l' hag]

theorem reads_enforceHoldingCap {amount : I128} (hcap : .holdingCap ∈ K)
    (hbalance : .balance user ∈ K) : ReadsOnly K (enforceHoldingCap user amount) := by
  intro l l' hag
  rw [enforceHoldingCap, enforceHoldingCap, getHoldingCap, getHoldingCap,
    reads_getCap hcap l l' hag, reads_getBalanceOf hbalance l l' hag]

variable [DecidableEq Address]

theorem reads_requireRole {required : Role} (hadmin : .admin ∈ K) (hrole : .role caller ∈ K) :
    ReadsOnly K (requireRole caller required) := by
  intro l l' hag
  rw [requireRole, requireRole, reads_getAdmin hadmin l l' hag, reads_getRole hrole l l' hag]

theorem reads_authorityGuard {current : ComplianceStatus} (hadmin : .admin ∈ K)
    (hrole : .role caller ∈ K) : ReadsOnly K (authorityGuard caller current) := by
  intro l l' hag
  rw [authorityGuard, authorityGuard, hag .admin hadmin, reads_getRole hrole l l' hag]

theorem reads_evaluateFromStatus {current next : ComplianceStatus} (hpaused : .paused ∈ K)
    (hadmin : .admin ∈ K) (hrole : .role caller ∈ K) :
    ReadsOnly K (evaluateFromStatus caller current next) := by
  intro l l' hag
  rw [evaluateFromStatus, evaluateFromStatus, reads_isPaused hpaused l l' hag,
    reads_authorityGuard hadmin hrole l l' hag]

theorem reads_validateTransition {next : ComplianceStatus} (hpaused : .paused ∈ K)
    (hadmin : .admin ∈ K) (hrole : .role caller ∈ K) (hstatus : .complianceStatus user ∈ K) :
    ReadsOnly K (validateTransition caller user next) := by
  intro l l' hag
  rw [validateTransition, validateTransition, reads_getComplianceStatus hstatus l l' hag,
    requireTransition, requireTransition, reads_evaluateFromStatus hpaused hadmin hrole l l' hag]

theorem reads_requireTransitionAuthority {current : ComplianceStatus} (hadmin : .admin ∈ K)
    (hrole : .role caller ∈ K) : ReadsOnly K (requireTransitionAuthority caller current) := by
  intro l l' hag
  rw [requireTransitionAuthority, requireTransitionAuthority,
    reads_authorityGuard hadmin hrole l l' hag]

theorem reads_validateUpdates {earlier updates : List (ComplianceBatchUpdate Address)}
    (hpaused : .paused ∈ K) (hadmin : .admin ∈ K) (hrole : .role caller ∈ K)
    (hstatuses : ∀ update ∈ updates, .complianceStatus update.user ∈ K) :
    ReadsOnly K (validateUpdates caller earlier updates) := by
  intro l l' hag
  induction updates generalizing earlier with
  | nil => rfl
  | cons update rest ih =>
    rw [List.forall_mem_cons] at hstatuses
    rw [validateUpdates, validateUpdates, ih hstatuses.2,
      reads_validateTransition hpaused hadmin hrole hstatuses.1 l l' hag]

theorem reads_effectiveRole (hadmin : .admin ∈ K) (hrole : .role caller ∈ K) :
    ReadsOnly K (effectiveRole caller) := by
  intro l l' hag
  rw [effectiveRole, effectiveRole, hag .admin hadmin, reads_getRole hrole l l' hag]

/-- Without a recipient the record of approvers is not read. -/
theorem reads_evaluateIssuance {recipient : Option Address} (hadmin : .admin ∈ K)
    (hrole : .role caller ∈ K) (hpolicy : .issuerSeparationPolicy ∈ K)
    (happrover : ∀ a, recipient = some a → .complianceApprover a ∈ K) :
    ReadsOnly K (evaluateIssuance caller recipient) := by
  intro l l' hag
  have hhas : l.has .admin = l'.has .admin := reads_has hadmin l l' hag
  have heffective := reads_effectiveRole hadmin hrole l l' hag
  have hpolicies := reads_getPolicy hpolicy l l' hag
  cases recipient with
  | none => simp only [evaluateIssuance, hhas, heffective, hpolicies]
  | some a =>
    have hrecord : getComplianceApprover a l = getComplianceApprover a l' :=
      hag _ (happrover a rfl)
    simp only [evaluateIssuance, hhas, heffective, hpolicies, hrecord]

theorem reads_requireIssuanceAuthority {recipient : Option Address} (hadmin : .admin ∈ K)
    (hrole : .role caller ∈ K) (hpolicy : .issuerSeparationPolicy ∈ K)
    (happrover : ∀ a, recipient = some a → .complianceApprover a ∈ K) :
    ReadsOnly K (requireIssuanceAuthority caller recipient) := by
  intro l l' hag
  rw [requireIssuanceAuthority, requireIssuanceAuthority,
    reads_evaluateIssuance hadmin hrole hpolicy happrover l l' hag]

end

/-! ## The entrypoints -/

/-- The keys a call decides by. The records of the users of a batch are read
for every entry, those of a mint's recipient only under a policy. -/
def Call.reads : Call Address → Set (DataKey Address)
  | .initializeContract _ => {.admin}
  | .setRole _ _ _ => {.paused, .admin}
  | .removeRole _ target => {.paused, .admin, .role target}
  | .transferAdmin _ _ => {.paused, .admin}
  | .acceptAdmin _ => {.paused, .admin, .adminCandidate}
  | .renounceAdmin _ => {.paused, .admin}
  | .pause caller => {.paused, .admin, .role caller}
  | .unpause _ => {.paused, .admin}
  | .setComplianceStatus caller user _ => {.paused, .admin, .role caller, .complianceStatus user}
  | .batchSetComplianceStatus caller updates =>
    {.paused, .admin, .role caller} ∪ {k | ∃ update ∈ updates, k = .complianceStatus update.user}
  | .whitelistUser admin user => {.paused, .admin, .role admin, .complianceStatus user}
  | .revokeWhitelist admin user => {.paused, .admin, .role admin, .complianceStatus user}
  | .setAssetStatus _ _ => {.paused, .admin, .assetStatus}
  | .updateAssetMetadata caller _ _ _ => {.paused, .admin, .role caller, .assetStatus}
  | .mintAsset admin recipient _ =>
    {.paused, .admin, .role admin, .issuerSeparationPolicy, .complianceApprover recipient,
      .assetStatus, .complianceStatus recipient, .supplyCap, .totalSupply, .holdingCap,
      .balance recipient}
  | .transfer sender recipient _ =>
    {.paused, .assetStatus, .complianceStatus sender, .complianceStatus recipient, .holdingCap,
      .balance sender, .balance recipient}
  | .distributeYield admin _ => {.paused, .admin, .role admin, .issuerSeparationPolicy}
  | .proposeSupplyCap _ _ => {.paused, .admin, .supplyCap}
  | .acceptSupplyCap _ => {.paused, .admin, .supplyCap, .supplyCapCandidate}
  | .cancelSupplyCapProposal _ => {.paused, .admin, .supplyCapCandidate}
  | .proposeHoldingCap _ _ => {.paused, .admin, .holdingCap}
  | .acceptHoldingCap _ => {.paused, .admin, .holdingCap, .holdingCapCandidate}
  | .cancelHoldingCapProposal _ => {.paused, .admin, .holdingCapCandidate}
  | .proposeConfig _ _ => {.paused, .admin}
  | .acceptConfig _ => {.paused, .admin, .protocolConfigCandidate}
  | .cancelConfigProposal _ => {.paused, .admin, .protocolConfigCandidate}
  | .setIssuerSeparationPolicy _ _ => {.paused, .admin, .issuerSeparationPolicy}

section
variable {K : Set (DataKey Address)}

theorem decided_opening (hpaused : .paused ∈ K) (caller : Address)
    {next : Unit → Contract Address α} (hnext : ∀ u, DecidedBy K (next u)) :
    DecidedBy K (check requireNotPaused >>= fun _ => requireAuth caller >>= next) :=
  (decided_check (reads_requireNotPaused hpaused)).bind fun _ =>
    (decided_requireAuth caller).bind hnext

variable [DecidableEq Address]

theorem decided_requireGoverning (hpaused : .paused ∈ K) (hadmin : .admin ∈ K) (a : Address) :
    DecidedBy K (requireGoverning a) :=
  decided_opening hpaused a fun _ =>
    (decided_check (reads_getAdmin hadmin)).bind fun _ => decided_errWhen _ _

theorem decided_assertGoverning (hpaused : .paused ∈ K) (hadmin : .admin ∈ K) (a : Address)
    (m : String) : DecidedBy K (assertGoverning a m) :=
  decided_opening hpaused a fun _ =>
    (decided_check (reads_getAdmin hadmin)).bind fun _ => decided_assertThat _ _

theorem decided_applyTransition (caller user : Address) (previous new : ComplianceStatus) :
    DecidedBy K (applyTransition caller user previous new) := by
  rw [applyTransition, writeStatus]
  cases new.isApproved with
  | true =>
    exact ((decided_set _ _).bind fun _ => decided_set _ _).bind fun _ =>
      (decided_set _ _).bind fun _ => decided_publish _
  | false =>
    exact ((decided_set _ _).bind fun _ => decided_remove _).bind fun _ => decided_publish _

theorem decided_applyUpdates (caller : Address)
    (pairs : List (ComplianceBatchUpdate Address × ComplianceStatus)) :
    DecidedBy K (applyUpdates caller pairs) := by
  induction pairs with
  | nil => exact decided_pure ()
  | cons p pairs ih => exact (decided_applyTransition _ _ _ _).bind fun _ => ih

theorem decided_proposeCap {kind : Cap} (hpaused : .paused ∈ K) (hadmin : .admin ∈ K)
    (hcap : .cap kind ∈ K) (a : Address) (n : I128) : DecidedBy K (proposeCap kind a n) :=
  (decided_assertGoverning hpaused hadmin _ _).bind fun _ =>
    (decided_assertThat _ _).bind fun _ =>
    (decided_load (reads_getCap hcap)).bind fun _ =>
    (decided_assertThat _ _).bind fun _ => (decided_set _ _).bind fun _ => decided_publish _

theorem decided_acceptCap {kind : Cap} (hpaused : .paused ∈ K) (hadmin : .admin ∈ K)
    (hcap : .cap kind ∈ K) (hcandidate : .capCandidate kind ∈ K) (a : Address) :
    DecidedBy K (acceptCap kind a) :=
  (decided_assertGoverning hpaused hadmin _ _).bind fun _ =>
    (decided_getOr (reads_get hcandidate)).bind fun _ =>
    (decided_load (reads_getCap hcap)).bind fun _ =>
    (decided_remove _).bind fun _ => (decided_set _ _).bind fun _ => decided_publish _

theorem decided_cancelCapProposal {kind : Cap} (hpaused : .paused ∈ K) (hadmin : .admin ∈ K)
    (hcandidate : .capCandidate kind ∈ K) (a : Address) : DecidedBy K (cancelCapProposal kind a) :=
  (decided_assertGoverning hpaused hadmin _ _).bind fun _ =>
    (decided_load (reads_has hcandidate)).bind fun _ =>
    (decided_assertThat _ _).bind fun _ => decided_remove _

theorem decided_whitelistUser (hpaused : .paused ∈ K) (hadmin : .admin ∈ K) {caller user : Address}
    (hrole : .role caller ∈ K) (hstatus : .complianceStatus user ∈ K) :
    DecidedBy K (whitelistUser caller user) := by
  apply decided_opening hpaused
  intro _
  refine (decided_load (reads_getComplianceStatus hstatus)).bind fun current => ?_
  refine (decided_check (reads_requireTransitionAuthority hadmin hrole)).bind fun _ => ?_
  by_cases hcurrent : current = .approved
  · simp only [hcurrent, ne_eq, not_true, if_false]
    exact decided_publish _
  · simp only [hcurrent, ne_eq, not_false_eq_true, if_true]
    exact (decided_errWhen _ _).bind fun _ =>
      (decided_applyTransition _ _ _ _).bind fun _ => decided_publish _

theorem decided_revokeWhitelist (hpaused : .paused ∈ K) (hadmin : .admin ∈ K)
    {caller user : Address} (hrole : .role caller ∈ K) (hstatus : .complianceStatus user ∈ K) :
    DecidedBy K (revokeWhitelist caller user) := by
  apply decided_opening hpaused
  intro _
  refine (decided_load (reads_getComplianceStatus hstatus)).bind fun current => ?_
  refine (decided_check (reads_requireTransitionAuthority hadmin hrole)).bind fun _ => ?_
  cases transitionIsAllowed current .revoked with
  | true => exact (decided_applyTransition _ _ _ _).bind fun _ => decided_publish _
  | false => exact decided_publish _

/-- The activation alone asks whether the contract runs. -/
theorem decided_setAssetStatus (hpaused : .paused ∈ K) (hadmin : .admin ∈ K)
    (hstatus : .assetStatus ∈ K) (a : Address) (new : AssetStatus) :
    DecidedBy K (setAssetStatus a new) := by
  have hopens : ReadsOnly K fun l : Ledger Address =>
      if new = .active then requireNotPaused l else .ok () := by
    intro l l' hag
    simp only [reads_requireNotPaused hpaused l l' hag]
  exact (decided_check hopens).bind fun _ => (decided_requireAuth _).bind fun _ =>
    (decided_check (reads_getAdmin hadmin)).bind fun _ => (decided_errWhen _ _).bind fun _ =>
    (decided_load (reads_getAssetStatus hstatus)).bind fun _ => (decided_errWhen _ _).bind fun _ =>
    (decided_errWhen _ _).bind fun _ => (decided_set _ _).bind fun _ => decided_publish _

theorem decided_mintAsset {caller recipient : Address} {amount : I128}
    (h : (Call.mintAsset caller recipient amount).reads ⊆ K) :
    DecidedBy K (mintAsset caller recipient amount) := by
  simp only [Call.reads, Set.insert_subset_iff, Set.singleton_subset_iff] at h
  obtain ⟨hpaused, hadmin, hrole, hpolicy, happrover, hasset, hstatus, hsupplyCap, hsupply,
    hholdingCap, hbalance⟩ := h
  have hseparated : ∀ a, some recipient = some a → .complianceApprover a ∈ K := by
    rintro a ⟨⟩
    exact happrover
  apply decided_opening hpaused
  intro _
  refine (decided_check (reads_requireRole hadmin hrole)).bind fun _ => ?_
  refine (decided_check (reads_requireIssuanceAuthority hadmin hrole hpolicy hseparated)).bind
    fun _ => ?_
  refine (decided_errWhen _ _).bind fun _ => ?_
  refine (decided_check (reads_requireAssetMovable hasset)).bind fun _ => ?_
  refine (decided_check (reads_requireApproved hstatus)).bind fun _ => ?_
  refine (decided_check (reads_enforceSupplyCap hsupplyCap hsupply)).bind fun _ => ?_
  refine (decided_check (reads_enforceHoldingCap hholdingCap hbalance)).bind fun _ => ?_
  refine (decided_check ((reads_getBalanceOf hbalance).map fun held => add held amount)).bind
    fun _ => ?_
  refine (decided_set _ _).bind fun _ => ?_
  refine (decided_check ((reads_getTotalSupply hsupply).map fun total => add total amount)).bind
    fun _ => ?_
  exact (decided_set _ _).bind fun _ => decided_publish _

theorem decided_transfer {sender recipient : Address} {amount : I128}
    (h : (Call.transfer sender recipient amount).reads ⊆ K) :
    DecidedBy K (transfer sender recipient amount) := by
  simp only [Call.reads, Set.insert_subset_iff, Set.singleton_subset_iff] at h
  obtain ⟨hpaused, hasset, hsender, hrecipient, hcap, hdebited, hcredited⟩ := h
  apply decided_opening hpaused
  intro _
  refine (decided_errWhen _ _).bind fun _ => ?_
  refine (decided_check (reads_requireAssetMovable hasset)).bind fun _ => ?_
  refine (decided_check (reads_requireApproved hsender)).bind fun _ => ?_
  refine (decided_check (reads_requireApproved hrecipient)).bind fun _ => ?_
  refine (decided_check (reads_enforceHoldingCap hcap hcredited)).bind fun _ => ?_
  refine (decided_load (reads_getBalanceOf hdebited)).bind fun held => ?_
  refine (decided_errWhen _ _).bind fun _ => ?_
  refine (decided_check fun _ _ _ => rfl).bind fun _ => ?_
  refine (decided_set _ _).bind fun _ => ?_
  refine (decided_check ((reads_getBalanceOf hcredited).map fun held => add held amount)).bind
    fun _ => ?_
  exact (decided_set _ _).bind fun _ => decided_publish _

/-- What a call reads decides what it does. -/
theorem body_decided {call : Call Address} (h : call.reads ⊆ K) : DecidedBy K call.body := by
  cases call with
  | mintAsset => exact decided_mintAsset h
  | transfer => exact decided_transfer h
  | batchSetComplianceStatus caller updates =>
    obtain ⟨hcaller, hstatuses⟩ := Set.union_subset_iff.mp h
    simp only [Set.insert_subset_iff, Set.singleton_subset_iff] at hcaller
    obtain ⟨hpaused, hadmin, hrole⟩ := hcaller
    have hmem : ∀ update ∈ updates, .complianceStatus update.user ∈ K :=
      fun update hupdate => hstatuses ⟨update,hupdate,rfl⟩
    refine DecidedBy.bind ?_ fun _ => decided_pure ()
    exact decided_opening hpaused caller fun _ =>
      (decided_check (reads_validateUpdates hpaused hadmin hrole hmem)).bind fun _ =>
        (decided_applyUpdates caller _).bind fun _ => decided_pure _
  | initializeContract admin =>
    exact (decided_load (reads_has (h rfl))).bind fun _ => (decided_errWhen _ _).bind fun _ =>
      (decided_requireAuth _).bind fun _ => (decided_set _ _).bind fun _ =>
      (decided_set _ _).bind fun _ => decided_publish _
  | pause caller =>
    simp only [Call.reads, Set.insert_subset_iff, Set.singleton_subset_iff] at h
    obtain ⟨hpaused, hadmin, hrole⟩ := h
    exact (decided_requireAuth _).bind fun _ =>
      (decided_check (reads_requireRole hadmin hrole)).bind fun _ =>
      (decided_load (reads_isPaused hpaused)).bind fun _ => (decided_errWhen _ _).bind fun _ =>
      (decided_set _ _).bind fun _ => decided_publish _
  | unpause caller =>
    simp only [Call.reads, Set.insert_subset_iff, Set.singleton_subset_iff] at h
    obtain ⟨hpaused, hadmin⟩ := h
    exact (decided_requireAuth _).bind fun _ =>
      (decided_check (reads_getAdmin hadmin)).bind fun _ => (decided_errWhen _ _).bind fun _ =>
      (decided_load (reads_isPaused hpaused)).bind fun _ => (decided_errWhen _ _).bind fun _ =>
      (decided_set _ _).bind fun _ => decided_publish _
  | acceptAdmin candidate =>
    simp only [Call.reads, Set.insert_subset_iff, Set.singleton_subset_iff] at h
    obtain ⟨hpaused, hadmin, hcandidate⟩ := h
    exact decided_opening hpaused candidate fun _ =>
      (decided_getOr (reads_get hcandidate)).bind fun _ => (decided_errWhen _ _).bind fun _ =>
      (decided_check (reads_getAdmin hadmin)).bind fun _ => (decided_remove _).bind fun _ =>
      (decided_set _ _).bind fun _ => (decided_set _ _).bind fun _ =>
      (decided_set _ _).bind fun _ => decided_publish _
  | setComplianceStatus caller user new =>
    simp only [Call.reads, Set.insert_subset_iff, Set.singleton_subset_iff] at h
    obtain ⟨hpaused, hadmin, hrole, hstatus⟩ := h
    exact decided_opening hpaused caller fun _ =>
      (decided_check (reads_validateTransition hpaused hadmin hrole hstatus)).bind fun _ =>
      decided_applyTransition _ _ _ _
  | whitelistUser caller user =>
    simp only [Call.reads, Set.insert_subset_iff, Set.singleton_subset_iff] at h
    obtain ⟨hpaused, hadmin, hrole, hstatus⟩ := h
    exact decided_whitelistUser hpaused hadmin hrole hstatus
  | revokeWhitelist caller user =>
    simp only [Call.reads, Set.insert_subset_iff, Set.singleton_subset_iff] at h
    obtain ⟨hpaused, hadmin, hrole, hstatus⟩ := h
    exact decided_revokeWhitelist hpaused hadmin hrole hstatus
  | setAssetStatus admin new =>
    simp only [Call.reads, Set.insert_subset_iff, Set.singleton_subset_iff] at h
    obtain ⟨hpaused, hadmin, hstatus⟩ := h
    exact decided_setAssetStatus hpaused hadmin hstatus admin new
  | updateAssetMetadata caller =>
    simp only [Call.reads, Set.insert_subset_iff, Set.singleton_subset_iff] at h
    obtain ⟨hpaused, hadmin, hrole, hstatus⟩ := h
    exact decided_opening hpaused caller fun _ =>
      (decided_check (reads_requireRole hadmin hrole)).bind fun _ =>
      (decided_load (reads_getAssetStatus hstatus)).bind fun _ =>
      (decided_errWhen _ _).bind fun _ => (decided_set _ _).bind fun _ =>
      (decided_set _ _).bind fun _ => (decided_set _ _).bind fun _ => decided_publish _
  | distributeYield admin amount =>
    simp only [Call.reads, Set.insert_subset_iff, Set.singleton_subset_iff] at h
    obtain ⟨hpaused, hadmin, hrole, hpolicy⟩ := h
    have hnobody : ∀ a, (none : Option Address) = some a → .complianceApprover a ∈ K := by
      rintro a ⟨⟩
    exact decided_opening hpaused admin fun _ =>
      (decided_check (reads_requireRole hadmin hrole)).bind fun _ =>
      (decided_check (reads_requireIssuanceAuthority hadmin hrole hpolicy hnobody)).bind fun _ =>
      (decided_errWhen _ _).bind fun _ => decided_publish _
  | setRole admin target role =>
    simp only [Call.reads, Set.insert_subset_iff, Set.singleton_subset_iff] at h
    exact (decided_requireGoverning h.1 h.2 _).bind fun _ => (decided_errWhen _ _).bind fun _ =>
      (decided_set _ _).bind fun _ => decided_publish _
  | removeRole admin target =>
    simp only [Call.reads, Set.insert_subset_iff, Set.singleton_subset_iff] at h
    exact (decided_requireGoverning h.1 h.2.1 _).bind fun _ =>
      (decided_load (reads_getRole h.2.2)).bind fun _ => (decided_errWhen _ _).bind fun _ =>
      (decided_set _ _).bind fun _ => decided_publish _
  | transferAdmin admin candidate =>
    simp only [Call.reads, Set.insert_subset_iff, Set.singleton_subset_iff] at h
    exact (decided_requireGoverning h.1 h.2 _).bind fun _ =>
      (decided_set _ _).bind fun _ => decided_publish _
  | renounceAdmin admin =>
    simp only [Call.reads, Set.insert_subset_iff, Set.singleton_subset_iff] at h
    exact (decided_requireGoverning h.1 h.2 _).bind fun _ => (decided_remove _).bind fun _ =>
      (decided_set _ _).bind fun _ => decided_publish _
  | proposeSupplyCap admin proposedCap | proposeHoldingCap admin proposedCap =>
    simp only [Call.reads, Set.insert_subset_iff, Set.singleton_subset_iff] at h
    exact decided_proposeCap h.1 h.2.1 h.2.2 admin proposedCap
  | acceptSupplyCap admin | acceptHoldingCap admin =>
    simp only [Call.reads, Set.insert_subset_iff, Set.singleton_subset_iff] at h
    exact decided_acceptCap h.1 h.2.1 h.2.2.1 h.2.2.2 admin
  | cancelSupplyCapProposal admin | cancelHoldingCapProposal admin =>
    simp only [Call.reads, Set.insert_subset_iff, Set.singleton_subset_iff] at h
    exact decided_cancelCapProposal h.1 h.2.1 h.2.2 admin
  | proposeConfig admin proposedConfig =>
    simp only [Call.reads, Set.insert_subset_iff, Set.singleton_subset_iff] at h
    exact (decided_requireGoverning h.1 h.2 _).bind fun _ => (decided_errWhen _ _).bind fun _ =>
      (decided_errWhen _ _).bind fun _ => (decided_set _ _).bind fun _ => decided_publish _
  | acceptConfig admin =>
    simp only [Call.reads, Set.insert_subset_iff, Set.singleton_subset_iff] at h
    exact (decided_requireGoverning h.1 h.2.1 _).bind fun _ =>
      (decided_getOr (reads_get h.2.2)).bind fun _ => (decided_remove _).bind fun _ =>
      (decided_set _ _).bind fun _ => decided_publish _
  | cancelConfigProposal admin =>
    simp only [Call.reads, Set.insert_subset_iff, Set.singleton_subset_iff] at h
    exact (decided_requireGoverning h.1 h.2.1 _).bind fun _ =>
      (decided_load (reads_has h.2.2)).bind fun _ => (decided_errWhen _ _).bind fun _ =>
      decided_remove _
  | setIssuerSeparationPolicy admin policy =>
    simp only [Call.reads, Set.insert_subset_iff, Set.singleton_subset_iff] at h
    exact (decided_requireGoverning h.1 h.2.1 _).bind fun _ =>
      (decided_load (reads_getPolicy h.2.2)).bind fun _ => (decided_set _ _).bind fun _ =>
      decided_publish _

theorem exec_alike {call : Call Address} {env env' : Env Address} (h : call.reads ⊆ K)
    (hagree : Store.AgreeOn K env.ledger env'.ledger) (auth : Auth Address) :
    (call.body.exec auth env).1 = (call.body.exec auth env').1 ∧
      Alike K env.events env'.events (call.body.exec auth env).2 (call.body.exec auth env').2 :=
  body_decided h _ _ auth env env'
    ⟨hagree,[],(List.append_nil _).symm,(List.append_nil _).symm⟩

end

end Aegis
