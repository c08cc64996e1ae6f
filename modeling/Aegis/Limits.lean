import Aegis.Footprints
import Aegis.MovementAlgebra

/-!
# Limits only restrict

The separation policy and the two caps are the limits an admin sets. Laxer
limits let through whatever stricter ones do, with the same effect, so a run
that commits throughout still commits throughout when limits are relaxed
before it. What the policy alone refuses is lifted by one call of the admin.
-/

set_option autoImplicit false

namespace Aegis
open HostKit

variable {Address : Type}

/-! ## Orders on limits -/

/-- The second policy, where it is enforced at all, asks for nothing the first
does not. -/
def PolicyLaxer (p q : IssuerSeparationPolicy) : Prop :=
  q.enforced = true → p.enforced = true ∧
    (p.allowDualDutyIssuance = true → q.allowDualDutyIssuance = true) ∧
    (p.allowSelfIssuance = true → q.allowSelfIssuance = true) ∧
    (q.requireIndependentApprover = true → p.requireIndependentApprover = true)

/-- A cap of zero or less enforces nothing, and is the laxest. -/
def CapLaxer (c d : I128) : Prop := 0 < d.val → 0 < c.val ∧ c.val ≤ d.val

theorem WithinCap.relax {c d current incoming : I128} (h : WithinCap c current incoming)
    (hlaxer : CapLaxer c d) : WithinCap d current incoming := by
  intro hon
  obtain ⟨hstrict, hle⟩ := hlaxer hon
  exact (h hstrict).trans hle

/-- The keys of the limits in force. -/
def limitKeys : Set (DataKey Address) := {k | k = .issuerSeparationPolicy ∨ ∃ kind, k = .cap kind}

/-- The second ledger is the first with laxer limits. -/
structure Relaxed (l l' : Ledger Address) : Prop where
  frame : Store.AgreeOff limitKeys l l'
  policy : PolicyLaxer (getPolicy l) (getPolicy l')
  caps : ∀ kind, CapLaxer (getCap kind l) (getCap kind l')

section
variable {l l' : Ledger Address} {sender caller recipient : Address} {amount : I128}

theorem Relaxed.isPaused_eq (h : Relaxed l l') : isPaused l' = isPaused l :=
  h.frame.getD .paused (by simp [limitKeys]) false

theorem Relaxed.getAssetStatus_eq (h : Relaxed l l') : getAssetStatus l' = getAssetStatus l :=
  h.frame.getD .assetStatus (by simp [limitKeys]) .draft

theorem Relaxed.getComplianceStatus_eq (h : Relaxed l l') (user : Address) :
    getComplianceStatus user l' = getComplianceStatus user l :=
  h.frame.getD (.complianceStatus user) (by simp [limitKeys]) .unknown

theorem Relaxed.getBalanceOf_eq (h : Relaxed l l') (a : Address) :
    getBalanceOf a l' = getBalanceOf a l := h.frame.getD (.balance a) (by simp [limitKeys]) 0

theorem Relaxed.getTotalSupply_eq (h : Relaxed l l') : getTotalSupply l' = getTotalSupply l :=
  h.frame.getD .totalSupply (by simp [limitKeys]) 0

theorem Relaxed.actsAs (h : Relaxed l l') {kind : Role → Prop} (hacts : ActsAs caller kind l) :
    ActsAs caller kind l' := by
  obtain ⟨admin, hadmin, hwho⟩ := hacts
  have hrole : getRole caller l' = getRole caller l :=
    h.frame.getD (.role caller) (by simp [limitKeys]) .none
  exact ⟨admin,(h.frame .admin (by simp [limitKeys])).trans hadmin,hrole ▸ hwho⟩

/-- What lets a transfer through lets it through under laxer limits. -/
theorem Relaxed.transferable (h : Relaxed l l')
    (hmovable : Transferable sender recipient amount l) :
    Transferable sender recipient amount l' where
  running := h.isPaused_eq.trans hmovable.running
  positive := hmovable.positive
  active := h.getAssetStatus_eq.trans hmovable.active
  senderCleared := (h.getComplianceStatus_eq sender).trans hmovable.senderCleared
  recipientCleared := (h.getComplianceStatus_eq recipient).trans hmovable.recipientCleared
  withinHolding := by
    rw [h.getBalanceOf_eq]
    exact hmovable.withinHolding.relax (h.caps .holding)
  covered := by
    rw [h.getBalanceOf_eq]
    exact hmovable.covered

variable [DecidableEq Address]

/-- What an enforced policy asks of an issuer. -/
def MeetsPolicy (p : IssuerSeparationPolicy) (caller : Address) (recipient : Option Address)
    (l : Ledger Address) : Prop :=
  (p.allowDualDutyIssuance = false → roleHasDuty (effectiveRole caller l) .compliance = false) ∧
    ∀ user, recipient = some user →
      (p.allowSelfIssuance = false → caller ≠ user) ∧
      (p.requireIndependentApprover = true → getComplianceApprover user l ≠ some caller)

omit [DecidableEq Address] in
/-- A stage that would refuse lets an issuance pass to the next. -/
theorem issuanceStage_allowed {p : Prop} [Decidable p] {g verdict : IssuanceGuard}
    (hg : g ≠ .allowed) :
    (if p then g else verdict) = .allowed ↔ ¬p ∧ verdict = .allowed := by
  split_ifs with hp <;> simp [hp, hg]

theorem approverStage_allowed {approver : Option Address} :
    (match approver with
      | some approver => if approver = caller then .approverConflict else .allowed
      | none => .allowed) = IssuanceGuard.allowed ↔ approver ≠ some caller := by
  cases approver with
  | none => simp
  | some approver => simp

theorem evaluateIssuance_allowed {recipient : Option Address} :
    evaluateIssuance caller recipient l = .allowed ↔
      l.has .admin = true ∧ roleHasDuty (effectiveRole caller l) .issuance = true ∧
        ((getPolicy l).enforced = true → MeetsPolicy (getPolicy l) caller recipient l) := by
  unfold evaluateIssuance
  rw [issuanceStage_allowed (g := .notInitialized) (by decide),
    issuanceStage_allowed (g := .missingIssuanceDuty) (by decide)]
  cases (getPolicy l).enforced with
  | false => simp
  | true =>
    rw [if_neg (by simp), issuanceStage_allowed (g := .dualDutyConflict) (by decide)]
    cases recipient with
    | none => simp [MeetsPolicy]
    | some user =>
      cases hindependent : (getPolicy l).requireIndependentApprover with
      | false => simp [MeetsPolicy, hindependent]
      | true =>
        simp [MeetsPolicy, issuanceStage_allowed, hindependent]
        intro _ _ _ _
        exact approverStage_allowed

/-- The policy is the only limit an issuance is judged by. -/
theorem evaluateIssuance_relax {recipient : Option Address} (h : Relaxed l l')
    (hallowed : evaluateIssuance caller recipient l = .allowed) :
    evaluateIssuance caller recipient l' = .allowed := by
  have hadmin : l'.get .admin = l.get .admin := h.frame _ (by simp [limitKeys])
  have hrole : effectiveRole caller l' = effectiveRole caller l := by
    rw [effectiveRole, hadmin, getRole, h.frame _ (by simp [limitKeys])]
    rfl
  have happrover : ∀ user, getComplianceApprover user l' = getComplianceApprover user l :=
    fun user => h.frame _ (by simp [limitKeys])
  obtain ⟨hpresent, hduty, hmeets⟩ := evaluateIssuance_allowed.mp hallowed
  refine evaluateIssuance_allowed.mpr ⟨?_,hrole ▸ hduty,fun henforced => ?_⟩
  · rwa [Store.has, hadmin]
  · obtain ⟨hstrict, hdual, hself, hindependent⟩ := h.policy henforced
    obtain ⟨hkept, hrecipient⟩ := hmeets hstrict
    refine ⟨fun hforbidden => ?_,fun user hsome => ⟨fun hforbidden => ?_,fun hrequired => ?_⟩⟩
    · rw [hrole]
      exact hkept (Bool.eq_false_iff.mpr fun hd => by rw [hdual hd] at hforbidden; cases hforbidden)
    · exact (hrecipient user hsome).1
        (Bool.eq_false_iff.mpr fun hs => by rw [hself hs] at hforbidden; cases hforbidden)
    · rw [happrover]
      exact (hrecipient user hsome).2 (hindependent hrequired)

theorem Relaxed.mintable (h : Relaxed l l') (hmintable : Mintable caller recipient amount l) :
    Mintable caller recipient amount l' where
  running := h.isPaused_eq.trans hmintable.running
  manages := h.actsAs hmintable.manages
  separated := evaluateIssuance_relax h hmintable.separated
  positive := hmintable.positive
  active := h.getAssetStatus_eq.trans hmintable.active
  cleared := (h.getComplianceStatus_eq recipient).trans hmintable.cleared
  withinSupply := by
    rw [h.getTotalSupply_eq]
    exact hmintable.withinSupply.relax (h.caps .supply)
  withinHolding := by
    rw [h.getBalanceOf_eq]
    exact hmintable.withinHolding.relax (h.caps .holding)

theorem Relaxed.set (h : Relaxed l l') {k : DataKey Address} (hk : k ∉ limitKeys) (v : k.Value) :
    Relaxed (l.set k v) (l'.set k v) := by
  have hne : ∀ j ∈ limitKeys, j ≠ k := fun j hj heq => hk (heq ▸ hj)
  have hpolicy : ∀ m : Ledger Address, getPolicy (m.set k v) = getPolicy m := by
    intro m
    rw [getPolicy, Store.get_set_of_ne _ _ (hne _ (Or.inl rfl)), getPolicy]
  have hcap : ∀ (kind : Cap) (m : Ledger Address), getCap kind (m.set k v) = getCap kind m := by
    intro kind m
    rw [getCap, Store.get_set_of_ne _ _ (hne _ (Or.inr ⟨kind,rfl⟩)), getCap]
  refine ⟨fun j hj => ?_,?_,fun kind => ?_⟩
  · exact Store.get_set_congr k v (h.frame j hj)
  · rw [hpolicy, hpolicy]
    exact h.policy
  · rw [hcap, hcap]
    exact h.caps kind

end

/-! ## One call under laxer limits -/

/-- The calls that propose or set a limit. -/
def Call.SetsLimits : Call Address → Prop
  | .proposeSupplyCap _ _ | .acceptSupplyCap _ | .proposeHoldingCap _ _ | .acceptHoldingCap _
  | .setIssuerSeparationPolicy _ _ => True
  | _ => False

/-- The calls the limits bind. -/
def Call.BoundByLimits : Call Address → Prop
  | .mintAsset _ _ _ | .transfer _ _ _ | .distributeYield _ _ => True
  | _ => False

theorem reads_off_limits {call : Call Address} (hsets : ¬call.SetsLimits)
    (hbound : ¬call.BoundByLimits) {k : DataKey Address} (hk : k ∈ call.reads) :
    k ∉ limitKeys := by
  rintro (rfl | ⟨kind, rfl⟩) <;> cases call <;>
    simp_all [Call.reads, Call.SetsLimits, Call.BoundByLimits]

theorem writes_off_limits {call : Call Address} (hsets : ¬call.SetsLimits) {l : Ledger Address}
    {k : DataKey Address} (hk : k ∈ call.writes l) : k ∉ limitKeys := by
  rintro (rfl | ⟨kind, rfl⟩) <;> cases call <;>
    simp_all [Call.writes, Call.SetsLimits, statusKeys]

variable [DecidableEq Address] {env env' t : Env Address} {i : Signed Address}
  {is : List (Signed Address)}

/-- The same log, and a ledger with laxer limits. -/
structure RelaxedEnv (env env' : Env Address) : Prop where
  ledger : Relaxed env.ledger env'.ledger
  events : env'.events = env.events

/-- A call the limits do not bind does the same whatever they are. -/
theorem unbound_relaxed (h : RelaxedEnv env env') (hsets : ¬i.call.SetsLimits)
    (hbound : ¬i.call.BoundByLimits) (hc : Commits Call.body env i t) :
    ∃ t', Commits Call.body env' i t' ∧ RelaxedEnv t t' := by
  obtain ⟨hsame, hrest⟩ := exec_alike (K := {k | env.ledger.get k = env'.ledger.get k})
    (fun k hk => (h.ledger.frame k (reads_off_limits hsets hbound hk)).symm) (fun k hk => hk)
    i.context
  have hexec : (i.call.body.exec i.context env) = (.ok (), t) := hc
  rw [hexec] at hsame hrest
  have hc' : Commits Call.body env' i (i.call.body.exec i.context env').2 := Prod.ext hsame.symm rfl
  have hkept : ∀ k ∈ limitKeys, t.ledger.get k = env.ledger.get k ∧
      (i.call.body.exec i.context env').2.ledger.get k = env'.ledger.get k := by
    intro k hk
    exact ⟨commits_unchanged hc fun hw => writes_off_limits hsets hw hk,
      commits_unchanged hc' fun hw => writes_off_limits hsets hw hk⟩
  refine ⟨_,hc',⟨fun k hk => ?_,?_,fun kind => ?_⟩,?_⟩
  · exact (hrest.ledger k (h.ledger.frame k hk).symm).symm
  · obtain ⟨hkept, hkept'⟩ := hkept .issuerSeparationPolicy (Or.inl rfl)
    rw [getPolicy, getPolicy, hkept, hkept']
    exact h.ledger.policy
  · obtain ⟨hkept, hkept'⟩ := hkept (.cap kind) (Or.inr ⟨kind,rfl⟩)
    rw [getCap, getCap, hkept, hkept']
    exact h.ledger.caps kind
  · obtain ⟨es, hlog, hlog'⟩ := hrest.published
    rw [hlog', hlog, h.events]

/-- A call that commits under some limits commits to the same under laxer ones. -/
theorem commits_relaxed (h : RelaxedEnv env env') (hsets : ¬i.call.SetsLimits)
    (hc : Commits Call.body env i t) : ∃ t', Commits Call.body env' i t' ∧ RelaxedEnv t t' := by
  by_cases hbound : i.call.BoundByLimits
  swap
  · exact unbound_relaxed h hsets hbound hc
  obtain ⟨auth, c⟩ := i
  cases c with
  | mintAsset admin recipient amount =>
    obtain ⟨hauth, hmintable, balance, supply, hbalance, hsupply, rfl⟩ := mintAsset_ok.mp hc
    rw [← h.ledger.getBalanceOf_eq] at hbalance
    rw [← h.ledger.getTotalSupply_eq] at hsupply
    refine ⟨_,mintAsset_ok.mpr
      ⟨hauth,h.ledger.mintable hmintable,balance,supply,hbalance,hsupply,rfl⟩,?_,?_⟩
    · exact (h.ledger.set (k := .balance recipient) (by simp [limitKeys]) balance).set
        (k := .totalSupply) (by simp [limitKeys]) supply
    · rw [h.events]
  | transfer sender recipient amount =>
    obtain ⟨hauth, hmovable, debited, credited, hdebit, hcredit, rfl⟩ := transfer_ok.mp hc
    have hpaid := h.ledger.set (k := .balance sender) (by simp [limitKeys]) debited
    rw [← h.ledger.getBalanceOf_eq] at hdebit
    rw [← hpaid.getBalanceOf_eq] at hcredit
    refine ⟨_,transfer_ok.mpr
      ⟨hauth,h.ledger.transferable hmovable,debited,credited,hdebit,hcredit,rfl⟩,?_,?_⟩
    · exact hpaid.set (k := .balance recipient) (by simp [limitKeys]) credited
    · rw [h.events]
  | distributeYield admin amount =>
    obtain ⟨hrun, hauth, hacts, hallowed, hpos, rfl⟩ := distributeYield_ok.mp hc
    refine ⟨_,distributeYield_ok.mpr ⟨h.ledger.isPaused_eq.trans hrun,hauth,h.ledger.actsAs hacts,
      evaluateIssuance_relax h.ledger hallowed,hpos,rfl⟩,h.ledger,?_⟩
    rw [h.events]
  | _ => exact absurd hbound not_false

/-! ## Runs under laxer limits -/

/-- What commits throughout under some limits commits throughout under laxer
ones, and ends in the same ledger but for the limits, with the same log. -/
theorem laxer_limits_simulate (h : RelaxedEnv env env')
    (his : ∀ i ∈ is, ¬i.call.SetsLimits)
    (hcommit : EachStep Call.body (fun s i => ∃ t, Commits Call.body s i t) is env) :
    EachStep Call.body (fun s i => ∃ t, Commits Call.body s i t) is env' ∧
      RelaxedEnv (run Call.body is env) (run Call.body is env') :=
  run_simulates (K := fun i : Signed Address => ¬i.call.SetsLimits)
    (fun _ _ _ _ hR hi hc => commits_relaxed hR hi hc) his hcommit h

/-- The deployment under a supply cap of nine units. -/
def underCap : Env ℕ :=
  ⟨deployed.ledger.set .supplyCap ⟨9,by decide,by decide⟩,deployed.events⟩

/-- What the cap lets through goes through without it. -/
theorem laxer_limits_deployed :
    EachStep Call.body (fun s i => ∃ t, Commits Call.body s i t)
      [⟨fun a => a = 0,.mintAsset 0 1 oneUnit⟩] deployed := by
  have h : RelaxedEnv underCap deployed := by
    refine ⟨⟨fun k hk => ?_,?_,fun kind => ?_⟩,rfl⟩
    · have hne : k ≠ .supplyCap := fun heq => hk (Or.inr ⟨.supply,heq⟩)
      exact (Store.get_set_of_ne _ _ hne).symm
    · intro henforced
      cases henforced
    · intro hon
      cases kind <;> exact absurd hon (by decide)
  have hcommit : EachStep Call.body (fun s i => ∃ t, Commits Call.body s i t)
      [⟨fun a => a = 0,.mintAsset 0 1 oneUnit⟩] underCap := ⟨⟨_,rfl⟩,trivial⟩
  apply (laxer_limits_simulate h _ hcommit).1
  intro i hi
  rw [List.mem_singleton.mp hi]
  exact not_false

/-! ## What the policy alone refuses -/

section
variable {l : Ledger Address} {caller admin : Address} {recipient : Option Address}
  {auth : Auth Address}

/-- What the roles alone say about an issuance. -/
def roleVerdict (caller : Address) (l : Ledger Address) : IssuanceGuard :=
  if !l.has .admin then
    .notInitialized
  else if !roleHasDuty (effectiveRole caller l) .issuance then
    .missingIssuanceDuty
  else
    .allowed

theorem roleVerdict_of_open (hopen : (getPolicy l).enforced = false) :
    evaluateIssuance caller recipient l = roleVerdict caller l := by
  unfold evaluateIssuance roleVerdict
  rw [hopen]
  rfl

/-- The policy is consulted where the roles are in order, and there either
agrees or is named as what refuses. -/
theorem evaluateIssuance_cases (caller : Address) (recipient : Option Address)
    (l : Ledger Address) :
    evaluateIssuance caller recipient l = roleVerdict caller l ∧
        (evaluateIssuance caller recipient l).isSeparationFailure = false ∨
      (evaluateIssuance caller recipient l).isSeparationFailure = true ∧
        roleVerdict caller l = .allowed := by
  unfold roleVerdict
  fun_cases evaluateIssuance caller recipient l <;>
    simp_all [IssuanceGuard.isSeparationFailure]

/-- The admin of a running contract lifts by one call whatever the policy alone
refuses, for every caller and every recipient, and nothing else changes its
verdict. -/
theorem separation_lifted (hgoverns : Governs auth admin env.ledger) :
    ∃ env', Commits Call.body env ⟨auth,.setIssuerSeparationPolicy admin defaultPolicy⟩ env' ∧
      ∀ caller recipient,
        (evaluateIssuance caller recipient env'.ledger).isSeparationFailure = false ∧
        ((evaluateIssuance caller recipient env.ledger).isSeparationFailure = true ↔
          evaluateIssuance caller recipient env'.ledger ≠
            evaluateIssuance caller recipient env.ledger) ∧
        ((evaluateIssuance caller recipient env.ledger).isSeparationFailure = true →
          evaluateIssuance caller recipient env'.ledger = .allowed) := by
  have hc : Commits Call.body env ⟨auth,.setIssuerSeparationPolicy admin defaultPolicy⟩ _ :=
    setIssuerSeparationPolicy_ok.mpr ⟨hgoverns,rfl⟩
  refine ⟨_,hc,fun caller recipient => ?_⟩
  have hroles : roleVerdict caller (env.ledger.set .issuerSeparationPolicy defaultPolicy) =
      roleVerdict caller env.ledger := by
    simp [roleVerdict, effectiveRole, getRole, Store.has]
  rw [roleVerdict_of_open (by simp [getPolicy, defaultPolicy]), hroles]
  rcases evaluateIssuance_cases caller recipient env.ledger with
    ⟨hsame, hpasses⟩ | ⟨hfails, hallowed⟩
  · rw [← hsame]
    simp [hpasses]
  · refine ⟨by rw [hallowed]; rfl,iff_of_true hfails fun hsame => ?_,fun _ => hallowed⟩
    rw [← hsame, hallowed] at hfails
    cases hfails

/-- The policy that keeps the admin from issuing to itself is lifted. -/
theorem separation_lifted_separation :
    ∃ env', Commits Call.body (run Call.body separation Env.fresh)
        ⟨fun a => a = 0,.setIssuerSeparationPolicy 0 defaultPolicy⟩ env' ∧
      evaluateIssuance 0 (some 0) env'.ledger = .allowed := by
  have hgoverns : Governs (fun a => a = 0) 0 (run Call.body separation Env.fresh).ledger :=
    ⟨rfl,rfl,rfl⟩
  obtain ⟨env', hc, hlifted⟩ := separation_lifted hgoverns
  exact ⟨env',hc,(hlifted 0 (some 0)).2.2 (by decide)⟩

end

end Aegis
