import Aegis.Movement
import Aegis.MovementAlgebra
import Aegis.Recovery

/-!
# Attainable movements

Whether a movement can go through at any later time, with everybody's help.
A transfer waits for nothing but a positive amount and an asset that is not
retired: the parties can be cleared, the caps dropped, and the sender funded
by mints and, where the supply is exhausted, by the other holders. A mint
also needs its room in the supply, which only shrinks.
-/

set_option autoImplicit false

namespace Aegis
open HostKit

variable {Address : Type} [DecidableEq Address] {admin holder : Address}
  {env env' env'' : Env Address} {W : Set (DataKey Address)}

/-- Calls of anybody that all commit lead from one state to the other. -/
def Leads (env env' : Env Address) : Prop :=
  Steers Call.body (fun _ : Signed Address => True) env env'

theorem Leads.trans (h : Leads env env') (h' : Leads env' env'') : Leads env env'' :=
  Steers.trans h h'

theorem Leads.of_commits {i : Signed Address} (h : Commits Call.body env i env') :
    Leads env env' := Steers.single trivial h

theorem Leads.of_admin (h : Steers Call.body (SignedBy admin) env env') : Leads env env' :=
  h.mono fun _ _ => trivial

theorem Leads.exists_run (h : Leads env env') : ∃ is, run Call.body is env = env' := by
  obtain ⟨is, -, -, hrun⟩ := Steers.exists_run h
  exact ⟨is,hrun⟩

/-- Whoever initialises a contract without an admin is its admin. -/
theorem leads_admin (env : Env Address) (a : Address) :
    ∃ admin env', Leads env env' ∧ IsAdmin admin env'.ledger ∧
      Store.AgreeOff {.admin, .role a} env.ledger env'.ledger := by
  cases hadmin : env.ledger.get .admin with
  | some admin => exact ⟨admin,env,Steers.refl env,hadmin,Store.AgreeOff.refl _ _⟩
  | none =>
    have hc : Commits Call.body env ⟨sole a,.initializeContract a⟩ _ :=
      initializeContract_ok.mpr ⟨hadmin,sole_self a,rfl⟩
    exact ⟨a,_,Leads.of_commits hc,by simp [IsAdmin],commits_frame hc⟩

/-! ## Funding a holder -/

/-- Everything about a holder is in order, but for what it holds. -/
structure Poised (admin holder : Address) (env : Env Address) : Prop where
  reached : Reachable Call.body Env.fresh env
  opened : Opened admin env.ledger
  cleared : getComplianceStatus holder env.ledger = .approved

/-- The holder has one unit more. -/
def Gains (holder : Address) (env env' : Env Address) : Prop :=
  (getBalanceOf holder env'.ledger).val = (getBalanceOf holder env.ledger).val+1

namespace Poised

theorem of_leads (h : Poised admin holder env) (hleads : Leads env env')
    (hframe : Store.AgreeOff W env.ledger env'.ledger) (hadmin : .admin ∉ W)
    (hW : ∀ k ∈ openingKeys, k ∉ W) (hstatus : .complianceStatus holder ∉ W) :
    Poised admin holder env' where
  reached := hleads.reachable h.reached
  opened := h.opened.of_agreeOff hframe hadmin hW
  cleared := by
    rw [getComplianceStatus, hframe _ hstatus]
    exact h.cleared

/-- While there is room in the supply the admin issues the unit. -/
theorem mints (h : Poised admin holder env) (hroom : (getTotalSupply env.ledger).val < 2^127-1) :
    ∃ env', Leads env env' ∧ Poised admin holder env' ∧ Gains holder env env' := by
  obtain ⟨env', hc⟩ := recovers_mint (reachable_sound h.reached) h.opened h.cleared hroom
  have hleads := Leads.of_commits hc
  refine ⟨env',hleads,h.of_leads hleads (commits_frame hc) ?_ ?_ ?_,(mint_effect hc).1⟩
  · simp [Call.writes]
  · rintro k ((rfl | rfl | rfl) | ⟨kind, rfl | rfl⟩) <;> simp [Call.writes]
  · simp [Call.writes]

/-- A cleared holder passes on one of its units. -/
theorem receives {giver : Address} (h : Poised admin holder env) (hne : giver ≠ holder)
    (hgiver : getComplianceStatus giver env.ledger = .approved)
    (hheld : 0 < (getBalanceOf giver env.ledger).val) :
    ∃ env', Leads env env' ∧ Poised admin holder env' ∧ Gains holder env env' := by
  have hmovable : Transferable giver holder oneUnit env.ledger :=
    { running := h.opened.governs.1
      positive := by decide
      active := h.opened.active
      senderCleared := hgiver
      recipientCleared := h.cleared
      withinHolding := h.opened.uncapped_within .holding _ _
      covered := hheld }
  obtain ⟨env', hc⟩ := (transfer_commits_iff (reachable_sound h.reached)
    (sole_self giver)).mpr hmovable
  have hleads := Leads.of_commits hc
  refine ⟨env',hleads,h.of_leads hleads (commits_frame hc) ?_ ?_ ?_,(transfer_effect hne hc).2⟩
  · simp [Call.writes]
  · rintro k ((rfl | rfl | rfl) | ⟨kind, rfl | rfl⟩) <;> simp [Call.writes]
  · simp [Call.writes]

/-- Where the supply is exhausted some other holder is cleared and passes one
of its units on. -/
theorem collects (h : Poised admin holder env)
    (hlt : (getBalanceOf holder env.ledger).val < (getTotalSupply env.ledger).val) :
    ∃ env', Leads env env' ∧ Poised admin holder env' ∧ Gains holder env env' := by
  obtain ⟨giver, hne, hheld⟩ := (reachable_sound h.reached).exists_other hlt
  obtain ⟨env₁, hclearing, hgiver⟩ := recovers_cleared h.opened.governs giver
  have hleads := Leads.of_admin hclearing.steers
  have hpoised : Poised admin holder env₁ :=
    h.of_leads hleads hclearing.frame (by simp [statusKeys])
      (fun k => openingKeys_off_status) (by simp [statusKeys, hne.symm])
  have hbalance : ∀ a, getBalanceOf a env₁.ledger = getBalanceOf a env.ledger := by
    intro a
    rw [getBalanceOf, hclearing.frame _ (by simp [statusKeys]), getBalanceOf]
  obtain ⟨env₂, hmoving, hdone, hgain⟩ :=
    hpoised.receives hne hgiver (by rw [hbalance]; exact hheld)
  rw [Gains, hbalance] at hgain
  exact ⟨env₂,hleads.trans hmoving,hdone,hgain⟩

theorem gains (h : Poised admin holder env)
    (hlt : (getBalanceOf holder env.ledger).val < 2^127-1) :
    ∃ env', Leads env env' ∧ Poised admin holder env' ∧ Gains holder env env' := by
  by_cases hroom : (getTotalSupply env.ledger).val < 2^127-1
  · exact h.mints hroom
  · exact h.collects (hlt.trans_le (not_lt.mp hroom))

/-- Unit by unit the holder comes to any amount. -/
theorem funded (amount : I128) (n : ℕ) (h : Poised admin holder env)
    (hn : amount.val-(getBalanceOf holder env.ledger).val ≤ n) :
    ∃ env', Leads env env' ∧ Poised admin holder env' ∧
      amount.val ≤ (getBalanceOf holder env'.ledger).val := by
  induction n generalizing env with
  | zero => exact ⟨env,Steers.refl env,h,by omega⟩
  | succ n ih =>
    by_cases hdone : amount.val ≤ (getBalanceOf holder env.ledger).val
    · exact ⟨env,Steers.refl env,h,hdone⟩
    · have htop := amount.le_hi
      obtain ⟨env₁, hfirst, hpoised, hgain⟩ := h.gains (by omega)
      rw [Gains] at hgain
      obtain ⟨env₂, hrest, hlast, hcovered⟩ := ih hpoised (by omega)
      exact ⟨env₂,hfirst.trans hrest,hlast,hcovered⟩

end Poised

/-! ## The two movements -/

/-- The asset is opened and one investor cleared, with the supply as it was. -/
theorem leads_poised (h : Reachable Call.body Env.fresh env)
    (hret : getAssetStatus env.ledger ≠ .retired) (holder : Address) :
    ∃ admin env', Leads env env' ∧ Poised admin holder env' ∧
      getTotalSupply env'.ledger = getTotalSupply env.ledger := by
  obtain ⟨admin, env₁, hseating, hadmin, hframe⟩ := leads_admin env holder
  have hret₁ : getAssetStatus env₁.ledger ≠ .retired := by
    rwa [getAssetStatus, hframe _ (by simp)]
  obtain ⟨env₂, hissuance, hopened, hcleared, hsame⟩ := recovers_issuance hadmin hret₁ holder
  have hleads := hseating.trans (Leads.of_admin hissuance)
  refine ⟨admin,env₂,hleads,⟨hleads.reachable h,hopened,hcleared⟩,?_⟩
  rw [hsame, getTotalSupply, hframe _ (by simp), getTotalSupply]

variable {sender caller recipient : Address} {amount : I128}

theorem leads_transferable (h : Reachable Call.body Env.fresh env)
    (hret : getAssetStatus env.ledger ≠ .retired) (hpos : 0 < amount.val) :
    ∃ env', Leads env env' ∧ Transferable sender recipient amount env'.ledger := by
  obtain ⟨admin, env₁, hopening, hpoised, -⟩ := leads_poised h hret sender
  obtain ⟨env₂, hfunding, hfunded, hcovered⟩ :=
    hpoised.funded amount (amount.val-(getBalanceOf sender env₁.ledger).val).toNat (by omega)
  have hone : 1 ≤ (getBalanceOf sender env₂.ledger).val := by omega
  obtain ⟨env₃, hclearing, hunit⟩ :=
    recovers_recipient hfunded.opened hfunded.cleared hone recipient
  refine ⟨env₃,hopening.trans (hfunding.trans (Leads.of_admin hclearing.steers)),?_⟩
  exact
    { hunit with
      positive := hpos
      withinHolding := by
        rw [getHoldingCap, getCap, hclearing.frame _ (by simp [statusKeys])]
        exact hfunded.opened.uncapped_within .holding _ _
      covered := by
        rw [getBalanceOf, hclearing.frame _ (by simp [statusKeys])]
        exact hcovered }

/-- The admin makes the caller an asset manager, unless it is the caller. -/
theorem Poised.appoints (h : Poised admin recipient env) (caller : Address) :
    ∃ env', Leads env env' ∧ Poised admin recipient env' ∧
      (caller = admin ∨ getRole caller env'.ledger = .assetManager) ∧
      getTotalSupply env'.ledger = getTotalSupply env.ledger := by
  by_cases hself : caller = admin
  · exact ⟨env,Steers.refl env,h,Or.inl hself,rfl⟩
  · have hc : Commits Call.body env ⟨sole admin,.setRole admin caller .assetManager⟩ _ :=
      setRole_ok.mpr ⟨h.opened.governs,by simp,rfl⟩
    have hleads := Leads.of_commits hc
    refine ⟨_,hleads,h.of_leads hleads (commits_frame hc) ?_ ?_ ?_,Or.inr ?_,?_⟩
    · simp [Call.writes]
    · rintro k ((rfl | rfl | rfl) | ⟨kind, rfl | rfl⟩) <;> simp [Call.writes]
    · simp [Call.writes]
    · simp [getRole]
    · simp [getTotalSupply]

theorem Poised.mintable (h : Poised admin recipient env) (hpos : 0 < amount.val)
    (hmanager : caller = admin ∨ getRole caller env.ledger = .assetManager) :
    Mintable caller recipient amount env.ledger := by
  have hadmin : env.ledger.get .admin = some admin := h.opened.governs.2.2
  have hduty : roleHasDuty (effectiveRole caller env.ledger) .issuance = true := by
    rw [effectiveRole, hadmin]
    by_cases hself : admin = caller
    · simp [hself, roleHasDuty]
    · simp [hself, hmanager.resolve_left (Ne.symm hself), roleHasDuty]
  have hseparated : evaluateIssuance caller (some recipient) env.ledger = .allowed := by
    simp [evaluateIssuance, Store.has, hadmin, hduty, h.opened.policy, defaultPolicy]
  exact
    { running := h.opened.governs.1
      manages := ⟨admin,hadmin,hmanager⟩
      separated := hseparated
      positive := hpos
      active := h.opened.active
      cleared := h.cleared
      withinSupply := h.opened.uncapped_within .supply _ _
      withinHolding := h.opened.uncapped_within .holding _ _ }

theorem leads_mintable (h : Reachable Call.body Env.fresh env)
    (hret : getAssetStatus env.ledger ≠ .retired) (hpos : 0 < amount.val) :
    ∃ env', Leads env env' ∧ Mintable caller recipient amount env'.ledger ∧
      getTotalSupply env'.ledger = getTotalSupply env.ledger := by
  obtain ⟨admin, env₁, hopening, hpoised, hsame⟩ := leads_poised h hret recipient
  obtain ⟨env₂, happointing, hready, hmanager, hsame'⟩ := hpoised.appoints caller
  exact ⟨env₂,hopening.trans happointing,hready.mintable hpos hmanager,hsame'.trans hsame⟩

/-! ## What no waiting brings about -/

/-- Some run of calls by anybody lets the movement commit. -/
def Attainable (env : Env Address) (i : Signed Address) : Prop :=
  ∃ is env', Commits Call.body (run Call.body is env) i env'

/-- A retired asset never moves again, whatever is done. -/
theorem Attainable.not_retired {i : Signed Address} (h : Attainable env i)
    (hmoves : i.call.entry ≠ none) : getAssetStatus env.ledger ≠ .retired := by
  obtain ⟨is, env', hc⟩ := h
  obtain ⟨e, he⟩ := Option.ne_none_iff_exists'.mp hmoves
  intro hret
  have hactive := (entry_gated hc he).active
  rw [(retired_run is hret).1] at hactive
  cases hactive

/-- Exactly the amount, the retirement of the asset and, for a mint, the
supply decide whether a movement can ever go through. -/
theorem movement_attainable_iff (h : Reachable Call.body Env.fresh env)
    (signer recipient : Address) (amount : I128) :
    (Attainable env ⟨sole signer,.transfer signer recipient amount⟩ ↔
      0 < amount.val ∧ getAssetStatus env.ledger ≠ .retired) ∧
    (Attainable env ⟨sole signer,.mintAsset signer recipient amount⟩ ↔
      0 < amount.val ∧ getAssetStatus env.ledger ≠ .retired ∧
        (getTotalSupply env.ledger).val+amount.val ≤ 2^127-1) := by
  refine ⟨⟨fun hatt => ?_,?_⟩,⟨fun hatt => ?_,?_⟩⟩
  · obtain ⟨is, env', hc⟩ := id hatt
    exact ⟨(transfer_ok.mp hc).2.1.positive,hatt.not_retired (by simp [Call.entry])⟩
  · rintro ⟨hpos, hret⟩
    obtain ⟨env₁, hleads, hmovable⟩ :
        ∃ t, Leads env t ∧ Transferable signer recipient amount t.ledger :=
      leads_transferable h hret hpos
    have hsound := reachable_sound (hleads.reachable h)
    obtain ⟨env₂, hc⟩ := (transfer_commits_iff hsound (sole_self signer)).mpr hmovable
    obtain ⟨is, rfl⟩ := hleads.exists_run
    exact ⟨is,env₂,hc⟩
  · obtain ⟨is, env', hc⟩ := id hatt
    have hgrown := totalSupply_le_run is env
    have htop := (getTotalSupply env'.ledger).le_hi
    have hissued := (mint_effect hc).2.1
    refine ⟨(mintAsset_ok.mp hc).2.1.positive,hatt.not_retired (by simp [Call.entry]),?_⟩
    omega
  · rintro ⟨hpos, hret, hroom⟩
    obtain ⟨env₁, hleads, hmintable, hsame⟩ :
        ∃ t, Leads env t ∧ Mintable signer recipient amount t.ledger ∧
          getTotalSupply t.ledger = getTotalSupply env.ledger :=
      leads_mintable h hret hpos
    have hsound := reachable_sound (hleads.reachable h)
    rw [← hsame] at hroom
    obtain ⟨env₂, hc⟩ :=
      (mint_commits_iff hsound (sole_self signer)).mpr ⟨hmintable,hroom⟩
    obtain ⟨is, rfl⟩ := hleads.exists_run
    exact ⟨is,env₂,hc⟩

/-- With the contract suspended and nothing to send, an unknown investor can
still come to send two units to another. -/
theorem movement_attainable_suspended :
    Attainable suspended ⟨sole 8,.transfer 8 9 ⟨2,by decide,by decide⟩⟩ := by
  have h : Reachable Call.body Env.fresh suspended :=
    ⟨deployment++[⟨fun a => a = 0,.pause 0⟩],rfl⟩
  exact (movement_attainable_iff h 8 9 ⟨2,by decide,by decide⟩).1.mpr (by decide)

/-! ## The terminal reason -/

omit [DecidableEq Address] in
/-- The stage of the asset is reached by a positive amount while the contract
runs, and there a retired asset is named. -/
theorem terminal_iff_retired {l : Ledger Address} {reason : RestrictionReason}
    (hreason : checkTransferRestriction sender recipient amount l = .ok reason) :
    reason.isTerminal = true ↔
      isPaused l = false ∧ 0 < amount.val ∧ getAssetStatus l = .retired := by
  constructor
  · intro hterminal
    have hretired := terminal_transfer hterminal hreason
    rw [checkTransferRestriction, evaluateTransfer] at hreason
    split_ifs at hreason with hp hle
    · cases hreason
      cases hterminal
    · cases hreason
      cases hterminal
    · exact ⟨by simpa using hp,not_le.mp hle,hretired⟩
    all_goals simp_all [assetStatusReason, RestrictionReason.isBlocked]
  · rintro ⟨hrun, hpos, hretired⟩
    rw [checkTransferRestriction, evaluateTransfer, if_neg (by simp [hrun]),
      if_neg (not_le.mpr hpos), hretired] at hreason
    cases hreason
    rfl

/-- The reason given for a transfer is terminal exactly if no later ledger
lets it through, except that the reasons reported before the asset is looked
at, the pause and an amount that is not positive, hide what follows. -/
theorem terminal_reason_exact (h : Reachable Call.body Env.fresh env)
    {sender recipient : Address} {amount : I128} {reason : RestrictionReason}
    (hreason : checkTransferRestriction sender recipient amount env.ledger = .ok reason) :
    reason.isTerminal = true ↔
      isPaused env.ledger = false ∧ 0 < amount.val ∧
        ∀ is, checkTransferRestriction sender recipient amount
          (run Call.body is env).ledger ≠ .ok .none := by
  rw [terminal_iff_retired hreason]
  constructor
  · rintro ⟨hrun, hpos, hret⟩
    refine ⟨hrun,hpos,fun is => ?_⟩
    exact retired_no_transfer (retired_run is hret).1 sender recipient amount
  · rintro ⟨hrun, hpos, hnever⟩
    refine ⟨hrun,hpos,?_⟩
    by_contra hret
    obtain ⟨env', hleads, hmovable⟩ :
        ∃ t, Leads env t ∧ Transferable sender recipient amount t.ledger :=
      leads_transferable h hret hpos
    obtain ⟨is, rfl⟩ := hleads.exists_run
    exact hnever is (evaluateTransfer_none.mpr hmovable)

/-- What an investor cannot cover today it can cover some day. -/
theorem terminal_reason_deployed :
    ∃ is, checkTransferRestriction 1 1 ⟨9,by decide,by decide⟩ (run Call.body is deployed).ledger =
      .ok .none := by
  by_contra hnone
  have hreason : checkTransferRestriction 1 1 ⟨9,by decide,by decide⟩ deployed.ledger =
      .ok .insufficientBalance := by decide
  have hterminal := (terminal_reason_exact ⟨deployment,rfl⟩ hreason).mpr
    ⟨by decide,by decide,not_exists.mp hnone⟩
  cases hterminal

end Aegis
