import Aegis.HostKit.Steering
import Aegis.PauseFreeze
import Aegis.Retirement

/-!
# Recovery

Short of retirement nothing keeps an asset from moving for good. The admin
alone can lift the pause, relax the separation policy, drop the caps,
activate the asset and clear an investor, whatever led there. Each stage has
its own keys, so a later one keeps what an earlier one achieved.
-/

set_option autoImplicit false

namespace Aegis
open HostKit

variable {Address : Type} [DecidableEq Address] {admin user : Address}
  {env env' env'' : Env Address} {W W' : Set (DataKey Address)}

/-- The authorisation of one address and of nobody else. -/
def sole (admin : Address) : Auth Address := fun a => a = admin

@[simp] theorem sole_self (admin : Address) : sole admin admin = true := by simp [sole]

def SignedBy (admin : Address) (i : Signed Address) : Prop :=
  i.context = sole admin ∧ i.call.signer = admin

/-- What the admin alone can make of a state by writing the keys in `W`. -/
structure Recovers (admin : Address) (W : Set (DataKey Address)) (env env' : Env Address) :
    Prop where
  steers : Steers Call.body (SignedBy admin) env env'
  frame : Store.AgreeOff W env.ledger env'.ledger

namespace Recovers

theorem refl (admin : Address) (W : Set (DataKey Address)) (env : Env Address) :
    Recovers admin W env env := ⟨Steers.refl env,Store.AgreeOff.refl W env.ledger⟩

theorem trans (h : Recovers admin W env env') (h' : Recovers admin W env' env'') :
    Recovers admin W env env'' := ⟨h.steers.trans h'.steers,h.frame.trans h'.frame⟩

theorem mono (h : Recovers admin W env env') (hsub : W ⊆ W') : Recovers admin W' env env' :=
  ⟨h.steers,h.frame.mono hsub⟩

theorem of_commits {call : Call Address} (h : Commits Call.body env ⟨sole admin,call⟩ env')
    (hsigner : call.signer = admin) (hsub : call.writes env.ledger ⊆ W) :
    Recovers admin W env env' :=
  ⟨Steers.single ⟨rfl,hsigner⟩ h,(commits_frame h).mono hsub⟩

theorem governs (h : Recovers admin W env env') (hpaused : .paused ∉ W) (hadmin : .admin ∉ W)
    (hgoverns : Governs (sole admin) admin env.ledger) :
    Governs (sole admin) admin env'.ledger := by
  obtain ⟨hrun, hauth, hstored⟩ := hgoverns
  refine ⟨?_,hauth,?_⟩
  · rw [isPaused, h.frame _ hpaused]
    exact hrun
  · rw [IsAdmin, h.frame _ hadmin]
    exact hstored

end Recovers

/-! ## The stages -/

theorem recovers_running (hadmin : IsAdmin admin env.ledger) :
    ∃ env', Recovers admin {.paused} env env' ∧ Governs (sole admin) admin env'.ledger := by
  cases hp : isPaused env.ledger with
  | false => exact ⟨env,Recovers.refl admin _ env,hp,sole_self admin,hadmin⟩
  | true =>
    have hc : Commits Call.body env ⟨sole admin,.unpause admin⟩ _ :=
      unpause_ok.mpr ⟨sole_self admin,hadmin,hp,rfl⟩
    refine ⟨_,Recovers.of_commits hc rfl (Set.Subset.refl _),by simp [isPaused],sole_self admin,?_⟩
    rw [IsAdmin, commits_unchanged hc (by simp [Call.writes])]
    exact hadmin

theorem recovers_policy (hgoverns : Governs (sole admin) admin env.ledger) :
    ∃ env', Recovers admin {.issuerSeparationPolicy} env env' ∧
      getPolicy env'.ledger = defaultPolicy := by
  have hc : Commits Call.body env ⟨sole admin,.setIssuerSeparationPolicy admin defaultPolicy⟩ _ :=
    setIssuerSeparationPolicy_ok.mpr ⟨hgoverns,rfl⟩
  exact ⟨_,Recovers.of_commits hc rfl (Set.Subset.refl _),by simp [getPolicy]⟩

theorem recovers_active (hgoverns : Governs (sole admin) admin env.ledger)
    (hret : getAssetStatus env.ledger ≠ .retired) :
    ∃ env', Recovers admin {.assetStatus} env env' ∧ getAssetStatus env'.ledger = .active := by
  by_cases hactive : getAssetStatus env.ledger = .active
  · exact ⟨env,Recovers.refl admin _ env,hactive⟩
  · obtain ⟨hrun, hauth, hadmin⟩ := hgoverns
    have hedge : isValidTransition (getAssetStatus env.ledger) .active = true := by
      cases hstatus : getAssetStatus env.ledger <;> simp_all [isValidTransition]
    have hc : Commits Call.body env ⟨sole admin,.setAssetStatus admin .active⟩ _ :=
      setAssetStatus_ok.mpr ⟨fun _ => hrun,hauth,hadmin,hedge,rfl⟩
    exact ⟨_,Recovers.of_commits hc rfl (Set.Subset.refl _),by simp [getAssetStatus]⟩

theorem recovers_proposed (hgoverns : Governs (sole admin) admin env.ledger) {kind : Cap}
    (hon : getCap kind env.ledger ≠ 0) :
    ∃ env', Recovers admin {.capCandidate kind, .cap kind} env env' ∧
      env'.ledger.get (.capCandidate kind) = some 0 := by
  have h := (proposeCap_ok (u := ())).mpr ⟨hgoverns,le_rfl,hon.symm,rfl⟩
  cases kind with
  | supply =>
    have hc : Commits Call.body env ⟨sole admin,.proposeSupplyCap admin 0⟩ _ := h
    exact ⟨_,Recovers.of_commits hc rfl (by simp [Call.writes]),by simp⟩
  | holding =>
    have hc : Commits Call.body env ⟨sole admin,.proposeHoldingCap admin 0⟩ _ := h
    exact ⟨_,Recovers.of_commits hc rfl (by simp [Call.writes]),by simp⟩

theorem recovers_accepted (hgoverns : Governs (sole admin) admin env.ledger) {kind : Cap}
    (hpending : env.ledger.get (.capCandidate kind) = some 0) :
    ∃ env', Recovers admin {.capCandidate kind, .cap kind} env env' ∧
      getCap kind env'.ledger = 0 := by
  have h := (acceptCap_ok (u := ())).mpr ⟨hgoverns,0,hpending,rfl⟩
  cases kind with
  | supply =>
    have hc : Commits Call.body env ⟨sole admin,.acceptSupplyCap admin⟩ _ := h
    exact ⟨_,Recovers.of_commits hc rfl (Set.Subset.refl _),by simp [getCap]⟩
  | holding =>
    have hc : Commits Call.body env ⟨sole admin,.acceptHoldingCap admin⟩ _ := h
    exact ⟨_,Recovers.of_commits hc rfl (Set.Subset.refl _),by simp [getCap]⟩

/-- A proposal must differ from the active cap, so a cap of zero is left alone. -/
theorem recovers_uncapped (hgoverns : Governs (sole admin) admin env.ledger) (kind : Cap) :
    ∃ env', Recovers admin {.capCandidate kind, .cap kind} env env' ∧
      getCap kind env'.ledger = 0 := by
  by_cases hoff : getCap kind env.ledger = 0
  · exact ⟨env,Recovers.refl admin _ env,hoff⟩
  · obtain ⟨env₁, hproposed, hpending⟩ := recovers_proposed hgoverns hoff
    have hstill := hproposed.governs (by simp) (by simp) hgoverns
    obtain ⟨env₂, haccepted, hdropped⟩ := recovers_accepted hstill hpending
    exact ⟨env₂,hproposed.trans haccepted,hdropped⟩

/-- One edge of the compliance lifecycle, taken by the admin. -/
theorem recovers_edge (hgoverns : Governs (sole admin) admin env.ledger) (user : Address)
    (next : ComplianceStatus)
    (hedge : transitionIsAllowed (getComplianceStatus user env.ledger) next = true) :
    ∃ env', Recovers admin (statusKeys user) env env' ∧
      getComplianceStatus user env'.ledger = next := by
  obtain ⟨hrun, hauth, hadmin⟩ := hgoverns
  have hc : Commits Call.body env ⟨sole admin,.setComplianceStatus admin user next⟩ _ :=
    setComplianceStatus_ok.mpr
      ⟨hauth,evaluateTransition_allowed.mpr ⟨hrun,⟨admin,hadmin,Or.inl rfl⟩,hedge⟩,rfl⟩
  refine ⟨_,Recovers.of_commits hc rfl (Set.Subset.refl _),?_⟩
  rw [getComplianceStatus_withStatus, if_pos rfl]

/-- A blocked investor is cleared in two steps, any other in one. -/
theorem recovers_cleared (hgoverns : Governs (sole admin) admin env.ledger) (user : Address) :
    ∃ env', Recovers admin (statusKeys user) env env' ∧
      getComplianceStatus user env'.ledger = .approved := by
  cases hstatus : getComplianceStatus user env.ledger with
  | approved => exact ⟨env,Recovers.refl admin _ env,hstatus⟩
  | unknown | pending | revoked => exact recovers_edge hgoverns user _ (by rw [hstatus]; rfl)
  | blocked =>
    obtain ⟨env₁, hpending, hmid⟩ := recovers_edge hgoverns user .pending
      (by rw [hstatus]; rfl)
    have hstill := hpending.governs (by simp [statusKeys]) (by simp [statusKeys]) hgoverns
    obtain ⟨env₂, happroved, hdone⟩ := recovers_edge hstill user .approved
      (by rw [hmid]; rfl)
    exact ⟨env₂,hpending.trans happroved,hdone⟩

/-! ## All stages -/

/-- What issuance needs beyond a cleared recipient and room in the supply. -/
structure Opened (admin : Address) (l : Ledger Address) : Prop where
  governs : Governs (sole admin) admin l
  policy : getPolicy l = defaultPolicy
  uncapped : ∀ kind, getCap kind l = 0
  active : getAssetStatus l = .active

def openingKeys : Set (DataKey Address) :=
  {.paused, .issuerSeparationPolicy, .assetStatus} ∪
    {k | ∃ kind, k = .cap kind ∨ k = .capCandidate kind}

omit [DecidableEq Address] in
theorem openingKeys_off_status {k : DataKey Address} (hk : k ∈ openingKeys) :
    k ∉ statusKeys user := by
  rcases hk with (rfl | rfl | rfl) | ⟨kind, rfl | rfl⟩ <;> simp [statusKeys]

theorem recovers_opened (hadmin : IsAdmin admin env.ledger)
    (hret : getAssetStatus env.ledger ≠ .retired) :
    ∃ env', Recovers admin openingKeys env env' ∧ Opened admin env'.ledger := by
  obtain ⟨env₁, h₁, hgov₁⟩ := recovers_running hadmin
  obtain ⟨env₂, h₂, hpolicy⟩ := recovers_policy hgov₁
  have hgov₂ := h₂.governs (by simp) (by simp) hgov₁
  obtain ⟨env₃, h₃, hsupply⟩ := recovers_uncapped hgov₂ .supply
  have hgov₃ := h₃.governs (by simp) (by simp) hgov₂
  obtain ⟨env₄, h₄, hholding⟩ := recovers_uncapped hgov₃ .holding
  have hgov₄ := h₄.governs (by simp) (by simp) hgov₃
  have hret₄ : getAssetStatus env₄.ledger ≠ .retired := by
    rwa [getAssetStatus, h₄.frame _ (by simp), h₃.frame _ (by simp), h₂.frame _ (by simp),
      h₁.frame _ (by simp)]
  obtain ⟨env₅, h₅, hactive⟩ := recovers_active hgov₄ hret₄
  refine ⟨env₅,?_,h₅.governs (by simp) (by simp) hgov₄,?_,fun kind => ?_,hactive⟩
  · refine (h₁.mono ?_).trans ((h₂.mono ?_).trans ((h₃.mono ?_).trans
      ((h₄.mono ?_).trans (h₅.mono ?_)))) <;>
      simp [openingKeys, Set.insert_subset_iff]
  · rwa [getPolicy, h₅.frame _ (by simp), h₄.frame _ (by simp), h₃.frame _ (by simp)]
  · cases kind with
    | supply => rwa [getCap, h₅.frame _ (by simp), h₄.frame _ (by simp)]
    | holding => rwa [getCap, h₅.frame _ (by simp)]

namespace Opened
variable {l l' : Ledger Address}

theorem of_agreeOff (h : Opened admin l) (hframe : Store.AgreeOff W l l')
    (hadmin : .admin ∉ W) (hW : ∀ k ∈ openingKeys, k ∉ W) : Opened admin l' := by
  obtain ⟨⟨hrun, hauth, hstored⟩, hpolicy, huncapped, hactive⟩ := h
  refine ⟨⟨?_,hauth,?_⟩,?_,fun kind => ?_,?_⟩
  · rwa [isPaused, hframe _ (hW _ (by simp [openingKeys]))]
  · rwa [IsAdmin, hframe _ hadmin]
  · rwa [getPolicy, hframe _ (hW _ (by simp [openingKeys]))]
  · have h := huncapped kind
    rwa [getCap, ← hframe _ (hW _ (by simp [openingKeys]))] at h
  · rwa [getAssetStatus, hframe _ (hW _ (by simp [openingKeys]))]

theorem uncapped_within (h : Opened admin l) (kind : Cap) (current incoming : I128) :
    WithinCap (getCap kind l) current incoming := by
  intro hon
  rw [h.uncapped kind] at hon
  exact absurd hon (lt_irrefl 0)

theorem mintable (h : Opened admin l) (hcleared : getComplianceStatus user l = .approved) :
    Mintable admin user oneUnit l := by
  obtain ⟨hrun, -, hadmin⟩ := h.governs
  have hseparated : evaluateIssuance admin (some user) l = .allowed := by
    rw [IsAdmin] at hadmin
    simp [evaluateIssuance, Store.has, effectiveRole, hadmin, roleHasDuty, h.policy, defaultPolicy]
  exact
    { running := hrun
      manages := ⟨admin,hadmin,Or.inl rfl⟩
      separated := hseparated
      positive := by decide
      active := h.active
      cleared := hcleared
      withinSupply := h.uncapped_within .supply _ _
      withinHolding := h.uncapped_within .holding _ _ }

end Opened

/-- Room in the supply is all that a mint to a cleared investor still needs. -/
theorem recovers_mint (hsound : (bookOf env.ledger).Sound) (hopened : Opened admin env.ledger)
    (hcleared : getComplianceStatus user env.ledger = .approved)
    (hroom : (getTotalSupply env.ledger).val < 2^127-1) :
    ∃ env', Commits Call.body env ⟨sole admin,.mintAsset admin user oneUnit⟩ env' := by
  apply (mint_commits_iff hsound (sole_self admin)).mpr
  refine ⟨hopened.mintable hcleared,?_⟩
  have hone : oneUnit.val = 1 := rfl
  omega

/-- The admin opens issuance and clears one investor. -/
theorem recovers_issuance (hadmin : IsAdmin admin env.ledger)
    (hret : getAssetStatus env.ledger ≠ .retired) (user : Address) :
    ∃ env', Steers Call.body (SignedBy admin) env env' ∧ Opened admin env'.ledger ∧
      getComplianceStatus user env'.ledger = .approved ∧
      getTotalSupply env'.ledger = getTotalSupply env.ledger := by
  obtain ⟨env₁, hopening, hopened⟩ := recovers_opened hadmin hret
  obtain ⟨env₂, hclearing, hcleared⟩ := recovers_cleared hopened.governs user
  refine ⟨env₂,hopening.steers.trans hclearing.steers,?_,hcleared,?_⟩
  · exact hopened.of_agreeOff hclearing.frame (by simp [statusKeys])
      fun k => openingKeys_off_status
  · rw [getTotalSupply, hclearing.frame _ (by simp [statusKeys]),
      hopening.frame _ (by simp [openingKeys]), getTotalSupply]

theorem recovers_funded (hsound : (bookOf env.ledger).Sound) (hopened : Opened admin env.ledger)
    (hcleared : getComplianceStatus user env.ledger = .approved)
    (hroom : (getTotalSupply env.ledger).val < 2^127-1) :
    ∃ env', Recovers admin {.balance user, .totalSupply} env env' ∧ Opened admin env'.ledger ∧
      1 ≤ (getBalanceOf user env'.ledger).val := by
  obtain ⟨env', hmint⟩ := recovers_mint hsound hopened hcleared hroom
  have hminted : Recovers admin {.balance user, .totalSupply} env env' :=
    Recovers.of_commits hmint rfl (Set.Subset.refl _)
  refine ⟨env',hminted,hopened.of_agreeOff hminted.frame (by simp) ?_,?_⟩
  · rintro k ((rfl | rfl | rfl) | ⟨kind, rfl | rfl⟩) <;> simp
  · have hheld : 0 ≤ (getBalanceOf user env.ledger).val := hsound.nonneg user
    rw [(mint_effect hmint).1]
    exact le_add_of_nonneg_left hheld

/-- A funded sender and a cleared recipient make the way free for a transfer. -/
theorem recovers_recipient {sender : Address} (hopened : Opened admin env.ledger)
    (hsender : getComplianceStatus sender env.ledger = .approved)
    (hfunded : 1 ≤ (getBalanceOf sender env.ledger).val) (recipient : Address) :
    ∃ env', Recovers admin (statusKeys recipient) env env' ∧
      Transferable sender recipient oneUnit env'.ledger := by
  obtain ⟨env', hclearing, hrecipient⟩ := recovers_cleared hopened.governs recipient
  have hstill : Opened admin env'.ledger :=
    hopened.of_agreeOff hclearing.frame (by simp [statusKeys]) fun k => openingKeys_off_status
  refine ⟨env',hclearing,?_⟩
  exact
    { running := hstill.governs.1
      positive := by decide
      active := hstill.active
      senderCleared := by
        by_cases hself : sender = recipient
        · rw [hself, hrecipient]
        · rw [getComplianceStatus, hclearing.frame _ (by simp [statusKeys, hself])]
          exact hsender
      recipientCleared := hrecipient
      withinHolding := hstill.uncapped_within .holding _ _
      covered := by
        rw [getBalanceOf, hclearing.frame _ (by simp [statusKeys])]
        exact hfunded }

/-- The admin makes the way free for a transfer too: it funds the sender with
one unit and clears both parties. -/
theorem recovers_transfer (h : Reachable Call.body Env.fresh env)
    (hadmin : IsAdmin admin env.ledger) (hret : getAssetStatus env.ledger ≠ .retired)
    (hroom : (getTotalSupply env.ledger).val < 2^127-1) (sender recipient : Address) :
    ∃ env', Steers Call.body (SignedBy admin) env env' ∧
      Transferable sender recipient oneUnit env'.ledger := by
  obtain ⟨env₁, hissuance, hopened, hsender, hsame⟩ := recovers_issuance hadmin hret sender
  have hsound := reachable_sound (hissuance.reachable h)
  obtain ⟨env₂, hfunding, hstill, hfunded⟩ :=
    recovers_funded hsound hopened hsender (hsame ▸ hroom)
  have hcleared : getComplianceStatus sender env₂.ledger = .approved := by
    rw [getComplianceStatus, hfunding.frame _ (by simp)]
    exact hsender
  obtain ⟨env₃, hclearing, htransferable⟩ := recovers_recipient hstill hcleared hfunded recipient
  exact ⟨env₃,hissuance.trans (hfunding.steers.trans hclearing.steers),htransferable⟩

/-! ## No lockout -/

/-- The admin alone has a run of committed calls that ends as required. -/
def AdminReaches (admin : Address) (env : Env Address) (goal : Env Address → Prop) : Prop :=
  ∃ is, (∀ i ∈ is, SignedBy admin i) ∧
    EachStep Call.body (fun s i => ∃ t, Commits Call.body s i t) is env ∧
    goal (run Call.body is env)

theorem AdminReaches.of_steers {goal : Env Address → Prop}
    (h : Steers Call.body (SignedBy admin) env env') (hgoal : goal env') :
    AdminReaches admin env goal := by
  obtain ⟨is, hsigned, hcommit, rfl⟩ := h.exists_run
  exact ⟨is,hsigned,hcommit,hgoal⟩

/-- No reason but retirement keeps the admin from making a mint or a transfer
of one unit go through. -/
theorem no_lockout (h : Reachable Call.body Env.fresh env) (hadmin : IsAdmin admin env.ledger)
    (hret : getAssetStatus env.ledger ≠ .retired)
    (hroom : (getTotalSupply env.ledger).val < 2^127-1) :
    (∀ user, AdminReaches admin env fun env' =>
      checkMintRestriction admin user oneUnit env'.ledger = .ok .none ∧
        ∃ env'', Commits Call.body env' ⟨sole admin,.mintAsset admin user oneUnit⟩ env'') ∧
    ∀ sender recipient, AdminReaches admin env fun env' =>
      checkTransferRestriction sender recipient oneUnit env'.ledger = .ok .none := by
  constructor
  · intro user
    obtain ⟨env', hissuance, hopened, hcleared, hsame⟩ := recovers_issuance hadmin hret user
    have hsound := reachable_sound (hissuance.reachable h)
    apply AdminReaches.of_steers hissuance
    exact ⟨(mintable_iff_verdicts.mp (hopened.mintable hcleared)).1,
      recovers_mint hsound hopened hcleared (hsame ▸ hroom)⟩
  · intro sender recipient
    obtain ⟨env', hsteers, htransferable⟩ := recovers_transfer h hadmin hret hroom sender recipient
    exact AdminReaches.of_steers hsteers (evaluateTransfer_none.mpr htransferable)

theorem no_lockout_suspended : AdminReaches 0 suspended fun env' =>
    checkMintRestriction 0 7 oneUnit env'.ledger = .ok .none ∧
      ∃ env'', Commits Call.body env' ⟨sole 0,.mintAsset 0 7 oneUnit⟩ env'' := by
  have h : Reachable Call.body Env.fresh suspended :=
    ⟨deployment++[⟨fun a => a = 0,.pause 0⟩],rfl⟩
  exact (no_lockout h rfl (by decide) (by decide)).1 7

end Aegis
