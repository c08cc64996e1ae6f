import Aegis.Authorization
import Mathlib.Algebra.Order.BigOperators.Group.Finset

/-!
# Coalitions

What a group of addresses can do by itself, in any number of calls. While the
admin key is held outside the group and no member can accept a nomination, it
never comes to hold the key, and changes no more than the roles of its members
allow. Whoever its members are, it becomes richer by issuance alone.
-/

set_option autoImplicit false

namespace Aegis
open HostKit

variable {Address : Type} {S : Set Address} {l l' l'' : Ledger Address}

/-- Nobody outside the group has authorised the call. -/
def Within (S : Set Address) (i : Signed Address) : Prop := ∀ a, i.context a = true → a ∈ S

/-- The admin key is held outside the group, and no member can accept a
nomination: nobody of the group is nominated, or the pause is in the way. -/
structure Excluded (S : Set Address) (l : Ledger Address) : Prop where
  seated : ∃ admin, IsAdmin admin l ∧ admin ∉ S
  barred : isPaused l = true ∨ ∀ c, l.get .adminCandidate = some c → c ∉ S

/-- Some member has a role of the given kind. -/
def Staffed (S : Set Address) (kind : Role → Prop) (l : Ledger Address) : Prop :=
  ∃ a ∈ S, kind (getRole a l)

/-- The keys no role is entitled to. -/
def governanceKeys : Set (DataKey Address) :=
  {.admin, .adminCandidate, .assetStatus, .protocolConfig, .protocolConfigCandidate,
      .issuerSeparationPolicy} ∪
    {k | (∃ a, k = .role a) ∨ ∃ kind, k = .cap kind ∨ k = .capCandidate kind}

/-- The keys an asset manager is entitled to. -/
def managedKeys : Set (DataKey Address) :=
  {.totalSupply, .assetName, .assetSymbol, .assetMetadataUri}

/-- What an excluded group can have made of a ledger. -/
structure Contained (S : Set Address) (l l' : Ledger Address) : Prop where
  governance : ∀ k ∈ governanceKeys, l'.get k = l.get k
  pause : l'.get .paused = l.get .paused ∨
    isPaused l' = true ∧ Staffed S (· = .emergencyOfficer) l
  clearance : ∀ user, ∀ k ∈ statusKeys user, l'.get k = l.get k ∨
    getComplianceStatus user l ≠ .blocked ∧ Staffed S isComplianceRole l
  management : ∀ k ∈ managedKeys, l'.get k = l.get k ∨ Staffed S (· = .assetManager) l
  outsiders : ∀ a ∉ S, (getBalanceOf a l).val ≤ (getBalanceOf a l').val

namespace Contained

theorem refl (S : Set Address) (l : Ledger Address) : Contained S l l where
  governance _ _ := rfl
  pause := Or.inl rfl
  clearance _ _ _ := Or.inl rfl
  management _ _ := Or.inl rfl
  outsiders _ _ := le_rfl

theorem staffed_iff (h : Contained S l l') (kind : Role → Prop) :
    Staffed S kind l' ↔ Staffed S kind l := by
  have hrole : ∀ a, getRole a l' = getRole a l := by
    intro a
    rw [getRole, h.governance (.role a) (by simp [governanceKeys]), getRole]
  simp only [Staffed, hrole]

theorem paused_of_paused (h : Contained S l l') (hp : isPaused l = true) : isPaused l' = true := by
  rcases h.pause with hsame | ⟨hpaused, -⟩
  · rwa [isPaused, hsame]
  · exact hpaused

/-- The group stays excluded. -/
theorem excluded (h : Contained S l l') (hl : Excluded S l) : Excluded S l' := by
  obtain ⟨⟨admin, hadmin, hout⟩, hbarred⟩ := hl
  refine ⟨⟨admin,?_,hout⟩,hbarred.imp h.paused_of_paused fun hnone => ?_⟩
  · rw [IsAdmin, h.governance .admin (by simp [governanceKeys])]
    exact hadmin
  · rwa [h.governance .adminCandidate (by simp [governanceKeys])]

theorem trans (h : Contained S l l') (h' : Contained S l' l'') : Contained S l l'' where
  governance k hk := (h'.governance k hk).trans (h.governance k hk)
  pause := by
    rcases h'.pause with hsame | ⟨hpaused, hstaffed⟩
    · rw [hsame]
      exact h.pause.imp_right fun hboth => ⟨by rw [isPaused, hsame]; exact hboth.1,hboth.2⟩
    · exact Or.inr ⟨hpaused,(h.staffed_iff _).mp hstaffed⟩
  clearance user k hk := by
    rcases h.clearance user k hk with hsame | hchanged
    swap
    · exact Or.inr hchanged
    rcases h'.clearance user k hk with hsame' | ⟨hfree, hstaffed⟩
    · exact Or.inl (hsame'.trans hsame)
    -- the status may have changed first, which takes the same role
    rcases h.clearance user (.complianceStatus user) (Or.inl rfl) with hstatus | hchanged
    · rw [getComplianceStatus, hstatus] at hfree
      exact Or.inr ⟨hfree,(h.staffed_iff _).mp hstaffed⟩
    · exact Or.inr hchanged
  management k hk := by
    rcases h'.management k hk with hsame | hstaffed
    · rw [hsame]
      exact h.management k hk
    · exact Or.inr ((h.staffed_iff _).mp hstaffed)
  outsiders a ha := (h.outsiders a ha).trans (h'.outsiders a ha)

end Contained

variable [DecidableEq Address] {env env' : Env Address} {i : Signed Address}
  {is : List (Signed Address)}

/-! ## One call -/

theorem signer_within (hi : Within S i) (h : Commits Call.body env i env') : i.call.signer ∈ S :=
  hi _ (signer_authorised h)

theorem entitled_of_changed (h : Commits Call.body env i env') {k : DataKey Address}
    (hk : env'.ledger.get k ≠ env.ledger.get k) (hb : ∀ a, k ≠ .balance a) :
    Entitled i.call env.ledger env'.ledger k :=
  changed_entitled h ((commits_frame h).mem_of_changed hk) hb

namespace Excluded
variable {caller : Address}

omit [DecidableEq Address] in
theorem not_admin (h : Excluded S l) (hcaller : caller ∈ S) : ¬IsAdmin caller l := by
  intro hadmin
  obtain ⟨admin, hseated, hout⟩ := h.seated
  rw [IsAdmin, hseated] at hadmin
  cases hadmin
  exact hout hcaller

omit [DecidableEq Address] in
/-- Without the admin key a member acts on its role alone. -/
theorem staffed (h : Excluded S l) (hcaller : caller ∈ S) {kind : Role → Prop}
    (hacts : ActsAs caller kind l) : Staffed S kind l := by
  obtain ⟨admin, hadmin, rfl | hrole⟩ := hacts
  · exact absurd hadmin (h.not_admin hcaller)
  · exact ⟨caller,hcaller,hrole⟩

/-- A member accepts nothing. -/
theorem not_accepts (h : Excluded S env.ledger) (hcaller : i.call.signer ∈ S)
    (hc : Commits Call.body env i env') : i.call ≠ .acceptAdmin i.call.signer := by
  obtain ⟨auth, c⟩ := i
  intro hcall
  cases c with
  | acceptAdmin candidate =>
    obtain ⟨hrun, -, hstored, -⟩ := acceptAdmin_ok.mp hc
    rcases h.barred with hp | hnone
    · rw [hrun] at hp
      cases hp
    · exact hnone candidate hstored hcaller
  | _ => cases hcall

/-- Nobody of the group is entitled to a governance key. -/
theorem governance_kept (h : Excluded S env.ledger) (hcaller : i.call.signer ∈ S)
    (hc : Commits Call.body env i env') {k : DataKey Address} (hk : k ∈ governanceKeys) :
    env'.ledger.get k = env.ledger.get k := by
  by_contra hne
  have hno : ¬IsAdmin i.call.signer env.ledger := h.not_admin hcaller
  have hseat : env.ledger.get .admin ≠ none := by
    obtain ⟨admin, hadmin, -⟩ := h.seated
    rw [show env.ledger.get .admin = some admin from hadmin]
    exact Option.some_ne_none admin
  have haccepts := h.not_accepts hcaller hc
  have hentitled := entitled_of_changed hc hne (by rintro a rfl; simp [governanceKeys] at hk)
  rcases hk with (rfl | rfl | rfl | rfl | rfl | rfl) | ⟨a, rfl⟩ | ⟨kind, rfl | rfl⟩ <;>
    simp only [Entitled, hno, hseat, haccepts, false_and, and_false, or_false] at hentitled

end Excluded

theorem commits_contained (h : Excluded S env.ledger) (hi : Within S i)
    (hc : Commits Call.body env i env') : Contained S env.ledger env'.ledger := by
  have hcaller := signer_within hi hc
  have hunlessStaffed : ∀ {kind : Role → Prop} {k : DataKey Address}, (∀ a, k ≠ .balance a) →
      (Entitled i.call env.ledger env'.ledger k → ActsAs i.call.signer kind env.ledger) →
      env'.ledger.get k = env.ledger.get k ∨ Staffed S kind env.ledger := by
    intro kind k hb hacts
    by_cases hne : env'.ledger.get k = env.ledger.get k
    · exact Or.inl hne
    · exact Or.inr (h.staffed hcaller (hacts (entitled_of_changed hc hne hb)))
  constructor
  · intro k hk
    exact h.governance_kept hcaller hc hk
  · by_cases hne : env'.ledger.get .paused = env.ledger.get .paused
    · exact Or.inl hne
    · obtain ⟨hpauses, hresumes⟩ := entitled_of_changed hc hne (by simp)
      cases hp : isPaused env'.ledger with
      | true => exact Or.inr ⟨rfl,h.staffed hcaller (hpauses hp)⟩
      | false => exact absurd (hresumes hp) (h.not_admin hcaller)
  · intro user k hk
    have hcleared : env'.ledger.get k = env.ledger.get k ∨ Staffed S (fun role =>
        isComplianceRole role ∧ getComplianceStatus user env.ledger ≠ .blocked) env.ledger :=
      hunlessStaffed (by rcases hk with rfl | rfl | rfl <;> simp)
        (fun hentitled => by rcases hk with rfl | rfl | rfl <;> exact hentitled)
    refine hcleared.imp_right ?_
    rintro ⟨a, ha, hrole, hfree⟩
    exact ⟨hfree,a,ha,hrole⟩
  · intro k hk
    apply hunlessStaffed
    · rcases hk with rfl | rfl | rfl | rfl <;> simp
    · intro hentitled
      rcases hk with rfl | rfl | rfl | rfl <;> exact hentitled
  · intro a ha
    by_contra hlt
    rw [← debited_by_signer hc (not_le.mp hlt)] at ha
    exact ha hcaller

/-! ## Any number of calls -/

theorem run_contained (h : Excluded S env.ledger) (his : ∀ i ∈ is, Within S i) :
    Contained S env.ledger (run Call.body is env).ledger := by
  apply EachStep.preserves (C := fun _ i => Within S i)
    (P := fun s : Env Address => Contained S env.ledger s.ledger) _ is
    (eachStep_of_mem his env) (Contained.refl S env.ledger)
  intro s i t hi hs hc
  exact hs.trans (commits_contained (hs.excluded h) hi hc)

/-- An excluded group stays excluded, and no sequence of its calls changes more
than one of its members could have been entitled to from the start. -/
theorem coalition_contained (h : Excluded S env.ledger) (his : ∀ i ∈ is, Within S i) :
    Excluded S (run Call.body is env).ledger ∧
      Contained S env.ledger (run Call.body is env).ledger := by
  have hcontained := run_contained h his
  exact ⟨hcontained.excluded h,hcontained⟩

/-- Two strangers of the deployment, one of whom tries to become the admin. -/
theorem coalition_contained_deployed :
    Contained {2, 3} deployed.ledger
      (run Call.body [⟨fun a => a = 2,.acceptAdmin 2⟩, ⟨fun a => a = 3,.pause 3⟩]
        deployed).ledger := by
  have hexcluded : Excluded {2, 3} deployed.ledger := by
    refine ⟨⟨0,rfl,by simp⟩,Or.inr ?_⟩
    intro c hc
    cases hc
  apply (coalition_contained hexcluded _).2
  intro i hi a ha
  rcases List.mem_pair.mp hi with rfl | rfl
  · exact Or.inl (of_decide_eq_true ha)
  · exact Or.inr (of_decide_eq_true ha)

/-! ## Seizing the admin key -/

theorem seizes_vacant {a : Address} (ha : a ∈ S) (hnone : env.ledger.get .admin = none) :
    ∃ is, (∀ i ∈ is, Within S i) ∧ ∃ a ∈ S, IsAdmin a (run Call.body is env).ledger := by
  have hc : Commits Call.body env ⟨fun b => b = a,.initializeContract a⟩ _ :=
    initializeContract_ok.mpr ⟨hnone,by simp,rfl⟩
  refine ⟨[⟨fun b => b = a,.initializeContract a⟩],?_,a,ha,?_⟩
  · simp [Within, ha]
  · rw [run, run, settle_of_commits hc]
    simp [IsAdmin]

theorem seizes_nominated {a admin : Address} (ha : a ∈ S) (hadmin : IsAdmin admin env.ledger)
    (hnominated : env.ledger.get .adminCandidate = some a) (hrun : isPaused env.ledger = false) :
    ∃ is, (∀ i ∈ is, Within S i) ∧ ∃ a ∈ S, IsAdmin a (run Call.body is env).ledger := by
  have hc : Commits Call.body env ⟨fun b => b = a,.acceptAdmin a⟩ _ :=
    acceptAdmin_ok.mpr ⟨hrun,by simp,hnominated,admin,hadmin,rfl⟩
  refine ⟨[⟨fun b => b = a,.acceptAdmin a⟩],?_,a,ha,?_⟩
  · simp [Within, ha]
  · rw [run, run, settle_of_commits hc]
    simp [IsAdmin]

/-- A group can come to hold the admin key by itself exactly if it holds it
already, if nobody holds it, or if a member is nominated and the contract runs. -/
theorem seizable_iff (S : Set Address) (env : Env Address) :
    (∃ is, (∀ i ∈ is, Within S i) ∧ ∃ a ∈ S, IsAdmin a (run Call.body is env).ledger) ↔
      (∃ a ∈ S, IsAdmin a env.ledger) ∨
      (env.ledger.get .admin = none ∧ S.Nonempty) ∨
      (isPaused env.ledger = false ∧ ∃ a ∈ S, env.ledger.get .adminCandidate = some a) := by
  constructor
  · rintro ⟨is, his, a, ha, hseized⟩
    by_contra hnot
    obtain ⟨hout, hrest⟩ := not_or.mp hnot
    obtain ⟨hvacant, hnominated⟩ := not_or.mp hrest
    have hexcluded : Excluded S env.ledger := by
      constructor
      · cases hadmin : env.ledger.get .admin with
        | none => exact absurd ⟨hadmin,a,ha⟩ hvacant
        | some admin => exact ⟨admin,hadmin,fun hin => hout ⟨admin,hin,hadmin⟩⟩
      · cases hp : isPaused env.ledger with
        | true => exact Or.inl rfl
        | false => exact Or.inr fun c hc hin => hnominated ⟨hp,c,hin,hc⟩
    exact ((run_contained hexcluded his).excluded hexcluded).not_admin ha hseized
  · rintro (⟨a, ha, hadmin⟩ | ⟨hnone, a, ha⟩ | ⟨hrun, a, ha, hnominated⟩)
    · exact ⟨[],by simp,a,ha,hadmin⟩
    · exact seizes_vacant ha hnone
    · cases hadmin : env.ledger.get .admin with
      | none => exact seizes_vacant ha hadmin
      | some admin => exact seizes_nominated ha hadmin hnominated hrun

/-! ## Enrichment -/

section
variable {G : Finset Address}

/-- What the group holds together. -/
def jointly (G : Finset Address) (l : Ledger Address) : ℤ := ∑ a ∈ G, (getBalanceOf a l).val

theorem commits_enriched (hsender : ∀ sender recipient amount,
      i.call = .transfer sender recipient amount → sender ∈ G)
    (hc : Commits Call.body env i env') :
    jointly G env'.ledger+(getTotalSupply env.ledger).val ≤
      jointly G env.ledger+(getTotalSupply env'.ledger).val := by
  apply (commits_book hc).joint_gain (G := G)
  intro sender recipient n hentry
  obtain ⟨auth, c⟩ := i
  cases c with
  | transfer payer payee amount =>
    cases hentry
    exact hsender sender recipient amount rfl
  | _ => cases hentry

theorem run_enriched (his : ∀ i ∈ is, Within G i) :
    jointly G (run Call.body is env).ledger+(getTotalSupply env.ledger).val ≤
      jointly G env.ledger+(getTotalSupply (run Call.body is env).ledger).val := by
  apply EachStep.preserves (C := fun _ i => Within (G : Set Address) i)
    (P := fun s : Env Address => jointly G s.ledger+(getTotalSupply env.ledger).val ≤
      jointly G env.ledger+(getTotalSupply s.ledger).val) _ is (eachStep_of_mem his env) le_rfl
  intro s i t hi hs hc
  have hstep : jointly G t.ledger+(getTotalSupply s.ledger).val ≤
      jointly G s.ledger+(getTotalSupply t.ledger).val := by
    apply commits_enriched _ hc
    intro sender recipient amount hcall
    have hcaller := signer_within hi hc
    rwa [hcall] at hcaller
  omega

theorem run_not_enriched (hexcluded : Excluded G env.ledger)
    (hunstaffed : ¬Staffed G (· = .assetManager) env.ledger) (his : ∀ i ∈ is, Within G i) :
    jointly G (run Call.body is env).ledger ≤ jointly G env.ledger := by
  have henriched : jointly G (run Call.body is env).ledger+(getTotalSupply env.ledger).val ≤
      jointly G env.ledger+(getTotalSupply (run Call.body is env).ledger).val := run_enriched his
  have hcontained := run_contained hexcluded his
  have hsupply : getTotalSupply (run Call.body is env).ledger = getTotalSupply env.ledger := by
    have hkept := (hcontained.management .totalSupply (Or.inl rfl)).resolve_right hunstaffed
    rw [getTotalSupply, hkept, getTotalSupply]
  rw [hsupply] at henriched
  omega

/-- Whoever its members are, the calls of a group alone raise its joint
holdings by no more than the supply; those of an excluded group without an
asset manager do not raise them at all. -/
theorem coalition_enrichment (his : ∀ i ∈ is, Within G i) :
    (jointly G (run Call.body is env).ledger-jointly G env.ledger ≤
      (getTotalSupply (run Call.body is env).ledger).val-(getTotalSupply env.ledger).val) ∧
    (Excluded G env.ledger → ¬Staffed G (· = .assetManager) env.ledger →
      jointly G (run Call.body is env).ledger ≤ jointly G env.ledger) := by
  have henriched : jointly G (run Call.body is env).ledger+(getTotalSupply env.ledger).val ≤
      jointly G env.ledger+(getTotalSupply (run Call.body is env).ledger).val := run_enriched his
  exact ⟨by omega,fun hexcluded hunstaffed => run_not_enriched hexcluded hunstaffed his⟩

/-- An approved holder who sends to itself stays as rich as it was. -/
theorem coalition_enrichment_deployed :
    jointly {1} (run Call.body [⟨fun a => a = 1,.transfer 1 1 oneUnit⟩] deployed).ledger ≤
      jointly {1} deployed.ledger := by
  have hwithin : ∀ i ∈ [(⟨fun a => a = 1,.transfer 1 1 oneUnit⟩ : Signed ℕ)],
      Within (({1} : Finset ℕ) : Set ℕ) i := by
    intro i hi a ha
    rw [List.mem_singleton.mp hi] at ha
    simpa using ha
  apply (coalition_enrichment hwithin).2
  · refine ⟨⟨0,rfl,by simp⟩,Or.inr ?_⟩
    intro c hc
    cases hc
  · rintro ⟨a, ha, hrole⟩
    rw [show a = 1 by simpa using ha] at hrole
    cases hrole

end

end Aegis
