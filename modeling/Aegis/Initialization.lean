import Aegis.System

/-!
# Initialisation and renunciation

Initialisation detects an earlier one by the admin key alone, and
renunciation removes that key. A renounced contract therefore admits a
second initialisation by anybody. The key of a role, once written, stays, so
a ledger that was ever initialised is told from the empty one.
-/

set_option autoImplicit false

namespace Aegis
open HostKit

variable {Address : Type}

def Call.isInitialization : Call Address → Bool
  | .initializeContract _ => true
  | _ => false

/-- Some address has a stored role: the trace initialisation leaves. -/
def Initialized (l : Ledger Address) : Prop := ∃ a, l.get (.role a) ≠ none

/-- An authorised initialisation of a ledger that has no admin and is not
empty: one whose admin has renounced. -/
def Reopens (env : Env Address) (i : Signed Address) : Prop :=
  i.call.isInitialization = true ∧ i.context i.call.signer = true ∧
    env.ledger.get .admin = none ∧ env.ledger ≠ Store.empty

theorem Initialized.ne_empty {l : Ledger Address} (h : Initialized l) : l ≠ Store.empty := by
  rintro rfl
  obtain ⟨a, ha⟩ := h
  exact ha rfl

variable [DecidableEq Address] {env env' : Env Address} {i : Signed Address}

theorem isInitialization_commits (hi : i.call.isInitialization = true)
    (h : Commits Call.body env i env') :
    env.ledger.get .admin = none ∧ i.context i.call.signer = true ∧ Initialized env'.ledger := by
  obtain ⟨auth, c⟩ := i
  cases c with
  | initializeContract admin =>
    obtain ⟨hnone, hauth, rfl⟩ := initializeContract_ok.mp h
    exact ⟨hnone,hauth,admin,by simp⟩
  | _ => cases hi

/-- Without an admin only initialisation and transfers can write. The empty
batch is the one other call that commits. -/
theorem commits_without_admin (hnone : env.ledger.get .admin = none)
    (h : Commits Call.body env i env') :
    i.call.isInitialization = true ∨
      (∃ sender recipient amount, i.call = .transfer sender recipient amount) ∨
      (∃ caller, i.call = .batchSetComplianceStatus caller []) ∧ env'.ledger = env.ledger := by
  have hgoverns : ∀ {auth : Auth Address} {a : Address}, ¬Governs auth a env.ledger :=
    fun hg => by simp [Governs, IsAdmin, hnone] at hg
  have hacts : ∀ {a : Address} {allowed : Role → Prop}, ¬ActsAs a allowed env.ledger :=
    fun ha => by simp [ActsAs, IsAdmin, hnone] at ha
  obtain ⟨auth, c⟩ := i
  cases c with
  | initializeContract admin => exact Or.inl rfl
  | transfer sender recipient amount => exact Or.inr (Or.inl ⟨sender,recipient,amount,rfl⟩)
  | setRole admin target role => exact absurd (setRole_ok.mp h).1 hgoverns
  | removeRole admin target => exact absurd (removeRole_ok.mp h).1 hgoverns
  | transferAdmin admin candidate => exact absurd (transferAdmin_ok.mp h).1 hgoverns
  | acceptAdmin candidate =>
    obtain ⟨-, -, -, previous, hadmin, -⟩ := acceptAdmin_ok.mp h
    simp [IsAdmin, hnone] at hadmin
  | renounceAdmin admin => exact absurd (renounceAdmin_ok.mp h).1 hgoverns
  | pause caller => exact absurd (pause_ok.mp h).2.1 hacts
  | unpause caller =>
    have hadmin := (unpause_ok.mp h).2.1
    simp [IsAdmin, hnone] at hadmin
  | setComplianceStatus caller user newStatus =>
    exact absurd (evaluateTransition_allowed.mp (setComplianceStatus_ok.mp h).2.1).2.1 hacts
  | batchSetComplianceStatus caller updates =>
    obtain ⟨-, -, hvalid, rfl⟩ := batch_commits.mp h
    cases updates with
    | nil => exact Or.inr (Or.inr ⟨⟨caller,rfl⟩,rfl⟩)
    | cons update rest =>
      have hfirst := hvalid.2 update List.mem_cons_self
      exact absurd (evaluateTransition_allowed.mp hfirst).2.1 hacts
  | whitelistUser admin user => exact absurd (whitelistUser_ok.mp h).2.2.1 hacts
  | revokeWhitelist admin user => exact absurd (revokeWhitelist_ok.mp h).2.2.1 hacts
  | setAssetStatus admin newStatus =>
    have hadmin := (setAssetStatus_ok.mp h).2.2.1
    simp [IsAdmin, hnone] at hadmin
  | updateAssetMetadata caller name symbol uri =>
    exact absurd (updateAssetMetadata_ok.mp h).2.2.1 hacts
  | mintAsset admin recipient amount => exact absurd (mintAsset_ok.mp h).2.1.manages hacts
  | distributeYield admin amount => exact absurd (distributeYield_ok.mp h).2.2.1 hacts
  | proposeSupplyCap admin proposedCap => exact absurd (proposeCap_ok.mp h).1 hgoverns
  | acceptSupplyCap admin => exact absurd (acceptCap_ok.mp h).1 hgoverns
  | cancelSupplyCapProposal admin => exact absurd (cancelCapProposal_ok.mp h).1 hgoverns
  | proposeHoldingCap admin proposedCap => exact absurd (proposeCap_ok.mp h).1 hgoverns
  | acceptHoldingCap admin => exact absurd (acceptCap_ok.mp h).1 hgoverns
  | cancelHoldingCapProposal admin => exact absurd (cancelCapProposal_ok.mp h).1 hgoverns
  | proposeConfig admin proposedConfig => exact absurd (proposeConfig_ok.mp h).1 hgoverns
  | acceptConfig admin => exact absurd (acceptConfig_ok.mp h).1 hgoverns
  | cancelConfigProposal admin => exact absurd (cancelConfigProposal_ok.mp h).1 hgoverns
  | setIssuerSeparationPolicy admin policy =>
    exact absurd (setIssuerSeparationPolicy_ok.mp h).1 hgoverns

/-! ## What one committed call keeps -/

theorem admin_stays_absent (hnone : env.ledger.get .admin = none)
    (hi : i.call.isInitialization = false) (h : Commits Call.body env i env') :
    env'.ledger.get .admin = none := by
  rcases commits_without_admin hnone h with hinit | ⟨sender, recipient, amount, hcall⟩ | ⟨-, hsame⟩
  · rw [hi] at hinit
    cases hinit
  · rw [commits_unchanged h (by simp [hcall, Call.writes]), hnone]
  · rw [hsame, hnone]

theorem empty_or_initialized (hempty : env.ledger = Store.empty)
    (h : Commits Call.body env i env') :
    i.call.isInitialization = true ∨ env'.ledger = Store.empty := by
  have hnone : env.ledger.get .admin = none := by rw [hempty, Store.get_empty]
  rcases commits_without_admin hnone h with hinit | ⟨sender, recipient, amount, hcall⟩ | ⟨-, hsame⟩
  · exact Or.inl hinit
  · obtain ⟨auth, c⟩ := i
    cases hcall
    have hactive := (transfer_ok.mp h).2.1.active
    rw [hempty] at hactive
    cases hactive
  · exact Or.inr (hsame.trans hempty)

theorem initialized_kept (hi : Initialized env.ledger) (h : Commits Call.body env i env') :
    Initialized env'.ledger := by
  obtain ⟨a, ha⟩ := hi
  obtain ⟨auth, c⟩ := i
  cases c with
  | initializeContract admin =>
    obtain ⟨-, -, rfl⟩ := initializeContract_ok.mp h
    exact ⟨admin,by simp⟩
  | setRole admin target role =>
    obtain ⟨-, -, rfl⟩ := setRole_ok.mp h
    exact ⟨target,by simp⟩
  | removeRole admin target =>
    obtain ⟨-, -, rfl⟩ := removeRole_ok.mp h
    exact ⟨target,by simp⟩
  | acceptAdmin candidate =>
    obtain ⟨-, -, -, previous, -, rfl⟩ := acceptAdmin_ok.mp h
    exact ⟨candidate,by simp⟩
  | renounceAdmin admin =>
    obtain ⟨-, rfl⟩ := renounceAdmin_ok.mp h
    exact ⟨admin,by simp⟩
  | _ =>
    refine ⟨a,?_⟩
    rw [commits_unchanged h (by simp [Call.writes, statusKeys])]
    exact ha

/-! ## Runs -/

/-- The committed initialisations of a run. -/
def initializations (is : List (Signed Address)) (env : Env Address) :
    List (Transition (Auth Address) (Call Address) (Env Address)) :=
  occurrences Call.body Call.isInitialization is env

theorem reopens_of_commits (hc : Commits Call.body env i env')
    (hinit : i.call.isInitialization = true) (hi : Initialized env.ledger) : Reopens env i := by
  obtain ⟨hnone, hauth, -⟩ := isInitialization_commits hinit hc
  exact ⟨hinit,hauth,hnone,hi.ne_empty⟩

theorem commits_of_reopens (h : Reopens env i) : ∃ env', Commits Call.body env i env' := by
  obtain ⟨hinit, hauth, hnone, -⟩ := h
  obtain ⟨auth, c⟩ := i
  cases c with
  | initializeContract admin => exact ⟨_,initializeContract_ok.mpr ⟨hnone,hauth,rfl⟩⟩
  | _ => cases hinit

theorem no_further_initialization (is : List (Signed Address)) {env : Env Address}
    (hC : EachStep Call.body (fun env i => ¬Reopens env i) is env) (hi : Initialized env.ledger) :
    initializations is env = [] := by
  induction is generalizing env with
  | nil => rfl
  | cons i is ih =>
    obtain ⟨hfirst, hrest⟩ := hC
    rcases occurrences_cases Call.body Call.isInitialization i is env with
      ⟨hc, hinit, -⟩ | ⟨hc, -, h⟩ | ⟨hstay, h⟩
    · exact absurd (reopens_of_commits hc hinit hi) hfirst
    · exact h.trans (ih hrest (initialized_kept hi hc))
    · exact h.trans (ih hrest (hstay.symm ▸ hi))

theorem at_most_one_initialization (is : List (Signed Address)) {env : Env Address}
    (hC : EachStep Call.body (fun env i => ¬Reopens env i) is env)
    (hempty : env.ledger = Store.empty) :
    (initializations is env).length ≤ 1 := by
  induction is generalizing env with
  | nil => exact Nat.zero_le 1
  | cons i is ih =>
    obtain ⟨-, hrest⟩ := hC
    rcases occurrences_cases Call.body Call.isInitialization i is env with
      ⟨hc, hinit, h⟩ | ⟨hc, hinit, h⟩ | ⟨hstay, h⟩
    · have hlater := no_further_initialization is hrest (isInitialization_commits hinit hc).2.2
      rw [initializations] at hlater
      simp [initializations, h, hlater]
    · rw [initializations, h]
      exact ih hrest ((empty_or_initialized hempty hc).resolve_left (by simp [hinit]))
    · rw [initializations, h]
      exact ih hrest (by rw [hstay, hempty])

theorem uninitialized_empty (is : List (Signed Address)) {env : Env Address}
    (hempty : env.ledger = Store.empty) (hnone : initializations is env = []) :
    (run Call.body is env).ledger = Store.empty := by
  induction is generalizing env with
  | nil => exact hempty
  | cons i is ih =>
    rcases occurrences_cases Call.body Call.isInitialization i is env with
      ⟨-, -, h⟩ | ⟨hc, hinit, h⟩ | ⟨hstay, h⟩ <;> rw [initializations, h] at hnone
    · cases hnone
    · exact ih ((empty_or_initialized hempty hc).resolve_left (by simp [hinit])) hnone
    · exact ih (by rw [hstay, hempty]) hnone

/-! ## Initialising once -/

def InitializedOnce (is : List (Signed Address)) : Prop :=
  (initializations is Env.fresh).length ≤ 1

/-- After a committed renunciation no later state of the run has an admin. -/
def RenouncedForGood (is : List (Signed Address)) : Prop :=
  ∀ js i ks rest admin env', is = js++i::(ks++rest) → i.call = .renounceAdmin admin →
    Commits Call.body (run Call.body js Env.fresh) i env' →
    (run Call.body ks env').ledger.get .admin = none

theorem renounced_for_good {is : List (Signed Address)}
    (hC : EachStep Call.body (fun env i => ¬Reopens env i) is Env.fresh) :
    RenouncedForGood is := by
  rintro js ⟨auth, c⟩ ks rest admin env' rfl hcall hc
  cases hcall
  obtain ⟨-, hlater⟩ := (eachStep_append js _ _).mp hC
  have hks := ((eachStep_append ks rest _).mp hlater.2).1
  rw [settle_of_commits hc] at hks
  obtain ⟨-, rfl⟩ := renounceAdmin_ok.mp hc
  -- the renounced ledger keeps the role record that marks it as initialised
  have hkept := EachStep.preserves
    (P := fun s : Env Address => s.ledger.get .admin = none ∧ Initialized s.ledger)
    (fun s i t hnot hs hct => ?_) ks hks ⟨by simp,admin,by simp⟩
  · exact hkept.1
  · have hinit : i.call.isInitialization = false := by
      by_contra hinit
      exact hnot (reopens_of_commits hct (Bool.not_eq_false _ ▸ hinit) hs.2)
    exact ⟨admin_stays_absent hs.1 hinit hct,initialized_kept hs.2 hct⟩

theorem reopened_twice {js ks : List (Signed Address)} {i : Signed Address}
    (h : Reopens (run Call.body js Env.fresh) i) : ¬InitializedOnce (js++i::ks) := by
  obtain ⟨env', hc⟩ := commits_of_reopens h
  obtain ⟨hinit, -, -, hne⟩ := h
  have hearlier : initializations js Env.fresh ≠ [] :=
    fun hnone => hne (uninitialized_empty js rfl hnone)
  have hpos := List.length_pos_iff.mpr hearlier
  rw [initializations] at hpos
  rw [InitializedOnce, initializations, occurrences_append, occurrences_of_commits hc hinit,
    List.length_append, List.length_cons]
  omega

theorem initialized_once_iff (is : List (Signed Address)) :
    InitializedOnce is ∧ RenouncedForGood is ↔
      EachStep Call.body (fun env i => ¬Reopens env i) is Env.fresh := by
  constructor
  · rintro ⟨honce, -⟩
    by_contra hbroken
    obtain ⟨js, i, ks, rfl, hreopens⟩ := exists_breaking is hbroken
    exact reopened_twice (not_not.mp hreopens) honce
  · intro hC
    exact ⟨at_most_one_initialization is hC rfl,renounced_for_good hC⟩

/-- The admin of the deployment renounces, and a stranger initialises again. -/
def takeover : List (Signed ℕ) :=
  deployment++[⟨fun a => a = 0,.renounceAdmin 0⟩,⟨fun a => a = 7,.initializeContract 7⟩]

theorem takeover_reinitializes : ¬InitializedOnce takeover ∧ ¬RenouncedForGood takeover := by
  constructor
  · have htwice : (initializations takeover Env.fresh).length = 2 := by decide
    rw [InitializedOnce, htwice]
    decide
  · intro h
    have hnone := h deployment ⟨fun a => a = 0,.renounceAdmin 0⟩
      [⟨fun a => a = 7,.initializeContract 7⟩] [] 0 _ rfl rfl rfl
    cases hnone

end Aegis
