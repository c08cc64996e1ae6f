import Aegis.Holders
import Aegis.MovementAlgebra
import Aegis.Recovery

/-!
# Interference

What a plain group, of addresses without a role while somebody else is the
admin, can do to the calls of others. All it changes is balances, and only
downwards its own. That can stop a call in one way: by filling up the balance
it adds to, where a holding cap is active. Without one the others' calls commit
alike in every interleaving.
-/

set_option autoImplicit false

namespace Aegis
open HostKit

variable {Address : Type} {S : Set Address}

/-! ## One call on two ledgers -/

/-- The second ledger has the rules of the first, and outside the group nobody
holds less on it. -/
structure Ahead (S : Set Address) (l l' : Ledger Address) : Prop where
  rules : Store.AgreeOn ruleKeys l l'
  outsiders : ∀ a ∉ S, (getBalanceOf a l).val ≤ (getBalanceOf a l').val

theorem Ahead.refl (S : Set Address) (l : Ledger Address) : Ahead S l l :=
  ⟨Store.AgreeOn.refl _ _,fun _ _ => le_rfl⟩

theorem Ahead.trans {l l' l'' : Ledger Address} (h : Ahead S l l') (h' : Ahead S l' l'') :
    Ahead S l l'' :=
  ⟨h.rules.trans h'.rules,fun a ha => (h.outsiders a ha).trans (h'.outsiders a ha)⟩

/-- The balance a call adds to, and what it adds. -/
def Call.credit : Call Address → Option (Address × I128)
  | .mintAsset _ recipient amount => some (recipient,amount)
  | .transfer _ recipient amount => some (recipient,amount)
  | _ => none

/-- The holding cap of the first ledger leaves room on the second for what the
call adds. -/
def HasRoom (call : Call Address) (l l' : Ledger Address) : Prop :=
  ∀ recipient amount, call.credit = some (recipient,amount) →
    WithinCap (getHoldingCap l) (getBalanceOf recipient l') amount

theorem Call.reads_rules {call : Call Address} (h : call.entry = none) :
    call.reads ⊆ ruleKeys := by
  intro k hk a hbalance
  subst hbalance
  cases call <;> simp [Call.reads, Call.entry] at h hk

variable [DecidableEq Address] {env env' t t' : Env Address} {i : Signed Address}
  {is js cs : List (Signed Address)}

namespace Ahead

omit [DecidableEq Address] in
theorem plain {l l' : Ledger Address} (h : Ahead S l l') (hplain : Plain S l) : Plain S l' := by
  obtain ⟨⟨⟨admin, hadmin, hout⟩, hbarred⟩, hroleless⟩ := hplain
  have hpaused : isPaused l = isPaused l' := reads_isPaused (by simp [ruleKeys]) _ _ h.rules
  have hcandidate : l.get .adminCandidate = l'.get .adminCandidate :=
    h.rules _ (by simp [ruleKeys])
  refine ⟨⟨⟨admin,?_,hout⟩,?_⟩,fun a ha => ?_⟩
  · rwa [IsAdmin, ← h.rules .admin (by simp [ruleKeys])]
  · rwa [← hpaused, ← hcandidate]
  · rw [← reads_getRole (by simp [ruleKeys]) _ _ h.rules]
    exact hroleless a ha

omit [DecidableEq Address] in
theorem offBook {l l' : Ledger Address} (h : Ahead S l l') : Store.AgreeOff bookKeys l l' :=
  fun k hk => (h.rules k fun a ha => hk (Or.inr ⟨a,ha⟩)).symm

omit [DecidableEq Address] in
theorem supply {l l' : Ledger Address} (h : Ahead S l l') :
    getTotalSupply l = getTotalSupply l' := reads_getTotalSupply (by simp [ruleKeys]) _ _ h.rules

omit [DecidableEq Address] in
theorem gated {l l' : Ledger Address} (h : Ahead S l l') {e : Book.Entry Address}
    (hgated : Gated e l) : Gated e l' where
  running := (isPaused_offBook h.offBook).trans hgated.running
  active := (getAssetStatus_offBook h.offBook).trans hgated.active
  cleared a ha := (getComplianceStatus_offBook h.offBook a).trans (hgated.cleared a ha)

/-- A call that moves nothing does the same on both ledgers. -/
theorem idle (h : Ahead S env.ledger env'.ledger) (hentry : i.call.entry = none)
    (hc : Commits Call.body env i t) :
    ∃ t', Commits Call.body env' i t' ∧ Ahead S t.ledger t'.ledger := by
  obtain ⟨t', hc', hrelated⟩ := Commits.respected (R := Alike ruleKeys env.events env'.events)
    (body_decided (Call.reads_rules hentry) _ _)
    ⟨h.rules,[],(List.append_nil _).symm,(List.append_nil _).symm⟩ hc
  refine ⟨t',hc',hrelated.ledger,fun a ha => ?_⟩
  have hheld := congrFun (congrArg Book.holding (unmoved hc hentry)) a
  have hheld' := congrFun (congrArg Book.holding (unmoved hc' hentry)) a
  exact hheld.le.trans ((h.outsiders a ha).trans hheld'.ge)

/-- A movement that commits on both ledgers leaves the second one ahead. -/
theorem moved (h : Ahead S env.ledger env'.ledger) {e : Book.Entry Address}
    (hentry : i.call.entry = some e) (hc : Commits Call.body env i t)
    (hc' : Commits Call.body env' i t') : Ahead S t.ledger t'.ledger := by
  have hposted := commits_posted hc hentry
  have hposted' := commits_posted hc' hentry
  have hsupply : (bookOf env.ledger).total = (bookOf env'.ledger).total :=
    congrArg CheckedInt.val h.supply
  constructor
  · intro k hk
    by_cases hin : k ∈ entryKeys e
    · -- of what is no balance, an entry is recorded under the supply alone
      obtain rfl : k = .totalSupply :=
        (entryKeys_subset e hin).resolve_right fun ⟨a, ha⟩ => hk a ha
      have htotal : (getTotalSupply t.ledger).val = (getTotalSupply t'.ledger).val :=
        calc (bookOf t.ledger).total
          _ = (Book.post e (bookOf env.ledger)).total := congrArg Book.total hposted.replayed
          _ = (Book.post e (bookOf env'.ledger)).total := Book.post_total_congr e hsupply
          _ = (bookOf t'.ledger).total := (congrArg Book.total hposted'.replayed).symm
      obtain ⟨v, hv⟩ := Option.isSome_iff_exists.mp (hposted.present e (by simp) _ hin)
      obtain ⟨v', hv'⟩ := Option.isSome_iff_exists.mp (hposted'.present e (by simp) _ hin)
      simp only [getTotalSupply, hv, hv', Option.getD_some] at htotal
      rw [hv, hv', CheckedInt.ext htotal]
    · have hout : k ∉ {k | ∃ e' ∈ [e], k ∈ entryKeys e'} := by simpa using hin
      rw [hposted.frame k hout, hposted'.frame k hout]
      exact h.rules k hk
  · intro a ha
    calc (bookOf t.ledger).holding a
      _ = (Book.post e (bookOf env.ledger)).holding a :=
        congrFun (congrArg Book.holding hposted.replayed) a
      _ ≤ (Book.post e (bookOf env'.ledger)).holding a :=
        Book.post_holding_le e (h.outsiders a ha)
      _ = (bookOf t'.ledger).holding a :=
        (congrFun (congrArg Book.holding hposted'.replayed) a).symm

/-- A movement signed outside the group goes through where there is room. -/
theorem movable (h : Ahead S env.ledger env'.ledger) (hsound : (bookOf env'.ledger).Sound)
    (hout : i.call.signer ∉ S) (hroom : HasRoom i.call env.ledger env'.ledger)
    {e : Book.Entry Address} (hentry : i.call.entry = some e) (hc : Commits Call.body env i t) :
    ∃ t', Commits Call.body env' i t' := by
  obtain ⟨auth, c⟩ := i
  cases c with
  | mintAsset caller recipient amount =>
    obtain ⟨hauth, hmintable, balance, supply, -, hissued, -⟩ := mintAsset_ok.mp hc
    obtain ⟨hopens, hsupply, -⟩ := mintable_iff_opens.mp hmintable
    rw [h.supply] at hsupply hissued
    exact (mint_commits_iff hsound hauth).mpr
      ⟨(mintable_offBook h.offBook).mpr ⟨hopens,hsupply,hroom recipient amount rfl⟩,
        hissued.trans_le supply.le_hi⟩
  | transfer sender recipient amount =>
    obtain ⟨hauth, hmovable, -⟩ := transfer_ok.mp hc
    exact (transfer_commits_iff hsound hauth).mpr ((transferable_offBook h.offBook).mpr
      ⟨hmovable.running,hmovable.positive,hmovable.active,hmovable.senderCleared,
        hmovable.recipientCleared,hroom recipient amount rfl,
        hmovable.covered.trans (h.outsiders sender hout)⟩)
  | _ => cases hentry

theorem answers (h : Ahead S env.ledger env'.ledger) (hsound : (bookOf env'.ledger).Sound)
    (hout : i.call.signer ∉ S) (hroom : HasRoom i.call env.ledger env'.ledger)
    (hc : Commits Call.body env i t) :
    ∃ t', Commits Call.body env' i t' ∧ Ahead S t.ledger t'.ledger := by
  cases hentry : i.call.entry with
  | none => exact h.idle hentry hc
  | some e =>
    obtain ⟨t', hc'⟩ := h.movable hsound hout hroom hentry hc
    exact ⟨t',hc',h.moved hentry hc hc'⟩

/-- What commits on the first ledger commits on the second exactly if there is
room for it. -/
theorem commits_iff (h : Ahead S env.ledger env'.ledger) (hsound : (bookOf env'.ledger).Sound)
    (hout : i.call.signer ∉ S) (hc : Commits Call.body env i t) :
    (∃ t', Commits Call.body env' i t') ↔ HasRoom i.call env.ledger env'.ledger := by
  constructor
  · rintro ⟨t', hc'⟩ recipient amount hcredit
    rw [getHoldingCap, ← getCap_offBook h.offBook]
    obtain ⟨auth, c⟩ := i
    cases c with
    | mintAsset =>
      cases hcredit
      exact (mintAsset_ok.mp hc').2.1.withinHolding
    | transfer =>
      cases hcredit
      exact (transfer_ok.mp hc').2.1.withinHolding
    | _ => cases hcredit
  · intro hroom
    obtain ⟨t', hc', -⟩ := h.answers hsound hout hroom hc
    exact ⟨t',hc'⟩

end Ahead

omit [DecidableEq Address] in
theorem Plain.ahead {l l' : Ledger Address} (h : Plain S l) (hcontained : Contained S l l') :
    Ahead S l l' := ⟨h.rules_kept hcontained,hcontained.outsiders⟩

theorem commits_ahead (h : Plain S env.ledger) (hi : Within S i)
    (hc : Commits Call.body env i env') : Ahead S env.ledger env'.ledger :=
  h.ahead (commits_contained h.excluded hi hc)

theorem run_ahead (h : Plain S env.ledger) (his : ∀ i ∈ is, Within S i) :
    Ahead S env.ledger (run Call.body is env).ledger := h.ahead (run_contained h.excluded his)

theorem steers_ahead (h : Plain S env.ledger) (hsteers : Steers Call.body (Within S) env env') :
    Ahead S env.ledger env'.ledger := by
  obtain ⟨is, his, -, rfl⟩ := hsteers.exists_run
  exact run_ahead h his

/-! ## Crowding out -/

section
variable {G : Finset Address} {recipient : Address} {amount : I128}

/-- The members who may send to somebody else. -/
def donors (G : Finset Address) (recipient : Address) (l : Ledger Address) : Finset Address :=
  G.filter fun a => a ≠ recipient ∧ getComplianceStatus a l = .approved

/-- What the recipient gains the donors lose. -/
theorem gift_bounded (recipient : Address) (h : Plain G env.ledger)
    (his : ∀ i ∈ is, Within G i) :
    (getBalanceOf recipient (run Call.body is env).ledger).val+
        jointly (donors G recipient env.ledger) (run Call.body is env).ledger ≤
      (getBalanceOf recipient env.ledger).val+
        jointly (donors G recipient env.ledger) env.ledger := by
  have hjoint : ∀ l : Ledger Address,
      jointly (insert recipient (donors G recipient env.ledger)) l =
        (getBalanceOf recipient l).val+jointly (donors G recipient env.ledger) l :=
    fun l => Finset.sum_insert (by simp [donors])
  rw [← hjoint, ← hjoint]
  suffices hboth : Ahead G env.ledger (run Call.body is env).ledger ∧
      jointly (insert recipient (donors G recipient env.ledger)) (run Call.body is env).ledger ≤
        jointly (insert recipient (donors G recipient env.ledger)) env.ledger from hboth.2
  apply EachStep.preserves (C := fun _ i => Within (G : Set Address) i)
    (P := fun s : Env Address => Ahead G env.ledger s.ledger ∧
      jointly (insert recipient (donors G recipient env.ledger)) s.ledger ≤
        jointly (insert recipient (donors G recipient env.ledger)) env.ledger) _ is
    (eachStep_of_mem his env) ⟨Ahead.refl _ _,le_rfl⟩
  rintro s i t hi ⟨hahead, hle⟩ hc
  have hnext := commits_ahead (hahead.plain h) hi hc
  have hstep : jointly (insert recipient (donors G recipient env.ledger)) t.ledger+
      (getTotalSupply s.ledger).val ≤
      jointly (insert recipient (donors G recipient env.ledger)) s.ledger+
        (getTotalSupply t.ledger).val := by
    apply commits_enriched _ hc
    intro sender payee n hcall
    have hcaller := signer_within hi hc
    obtain ⟨auth, c⟩ := i
    cases hcall
    have hcleared := (transfer_ok.mp hc).2.1.senderCleared
    rw [getComplianceStatus_offBook hahead.offBook] at hcleared
    by_cases hself : sender = recipient
    · exact Finset.mem_insert.mpr (Or.inl hself)
    · exact Finset.mem_insert_of_mem (Finset.mem_filter.mpr ⟨hcaller,hself,hcleared⟩)
  rw [hnext.supply] at hstep
  exact ⟨hahead.trans hnext,by omega⟩

/-- A donor hands over all it holds, or else fills up the other balance. -/
theorem hands_over (hsound : (bookOf env.ledger).Sound) {donor : Address}
    (hne : donor ≠ recipient) (hgated : Gated (.move donor recipient 0) env.ledger)
    (hroom : (getBalanceOf recipient env.ledger).val < (getHoldingCap env.ledger).val) :
    ∃ env', Steers Call.body (Within {donor}) env env' ∧
      (∀ a, a ≠ donor → a ≠ recipient →
        getBalanceOf a env'.ledger = getBalanceOf a env.ledger) ∧
      ((getBalanceOf recipient env'.ledger).val =
          (getBalanceOf recipient env.ledger).val+(getBalanceOf donor env.ledger).val ∨
        (getBalanceOf recipient env'.ledger).val = (getHoldingCap env.ledger).val) := by
  have hheld : 0 ≤ (getBalanceOf donor env.ledger).val := hsound.nonneg donor
  by_cases hnothing : (getBalanceOf donor env.ledger).val = 0
  · exact ⟨env,Steers.refl env,fun _ _ _ => rfl,Or.inl (by omega)⟩
  have hhigh := (getBalanceOf donor env.ledger).le_hi
  obtain ⟨part, hpart⟩ : ∃ part : I128, part.val = min (getBalanceOf donor env.ledger).val
      ((getHoldingCap env.ledger).val-(getBalanceOf recipient env.ledger).val) :=
    CheckedInt.exists_val (by omega) (by omega)
  have hmovable : Transferable donor recipient part env.ledger :=
    { running := hgated.running
      positive := by omega
      active := hgated.active
      senderCleared := hgated.cleared _ (Or.inl rfl)
      recipientCleared := hgated.cleared _ (Or.inr rfl)
      withinHolding := fun _ => by omega
      covered := by omega }
  obtain ⟨env', hc⟩ := (transfer_commits_iff hsound (sole_self donor)).mpr hmovable
  have hgain := (transfer_effect hne hc).2
  refine ⟨env',Steers.single ?_ hc,fun a hd hr => ?_,by omega⟩
  · intro a ha
    exact of_decide_eq_true ha
  · have hkept : env'.ledger.get (.balance a) = env.ledger.get (.balance a) := by
      apply commits_unchanged hc
      simp [Call.writes, hd, hr]
    rw [getBalanceOf, hkept, getBalanceOf]

/-- Unless they fill up the balance on the way, the donors hand over all they hold. -/
theorem donors_drained (h : Reachable Call.body Env.fresh env) (hplain : Plain G env.ledger)
    (hgated : ∀ donor ∈ donors G recipient env.ledger, Gated (.move donor recipient 0) env.ledger)
    (hroom : ∀ s, Steers Call.body (Within (G : Set Address)) env s →
      (getBalanceOf recipient s.ledger).val < (getHoldingCap env.ledger).val)
    {H : Finset Address} (hH : H ⊆ donors G recipient env.ledger) :
    ∃ s, Steers Call.body (Within (G : Set Address)) env s ∧
      (getBalanceOf recipient s.ledger).val =
        (getBalanceOf recipient env.ledger).val+jointly H env.ledger ∧
      ∀ a ∈ donors G recipient env.ledger, a ∉ H →
        getBalanceOf a s.ledger = getBalanceOf a env.ledger := by
  induction H using Finset.induction_on with
  | empty => exact ⟨env,Steers.refl env,by simp [jointly],fun _ _ _ => rfl⟩
  | @insert donor H hnot ih =>
    obtain ⟨hdonor, hrest⟩ := Finset.insert_subset_iff.mp hH
    obtain ⟨s, hsteers, hheld, hkept⟩ := ih hrest
    obtain ⟨hmember, hne, -⟩ := Finset.mem_filter.mp hdonor
    have hahead := steers_ahead hplain hsteers
    have hcap : getHoldingCap s.ledger = getHoldingCap env.ledger :=
      getCap_offBook hahead.offBook .holding
    obtain ⟨t, hgives, hothers, hgain⟩ := hands_over (reachable_sound (hsteers.reachable h)) hne
      (hahead.gated (hgated donor hdonor)) (by rw [hcap]; exact hroom s hsteers)
    have hnext : Steers Call.body (Within (G : Set Address)) env t := by
      refine hsteers.trans (hgives.mono fun j hj a ha => ?_)
      rw [hj a ha]
      exact hmember
    refine ⟨t,hnext,?_,fun a ha hnotin => ?_⟩
    · have hlimit := hroom t hnext
      rw [jointly, Finset.sum_insert hnot, ← jointly]
      rw [hcap, hkept donor hdonor hnot] at hgain
      omega
    · rw [Finset.mem_insert, not_or] at hnotin
      rw [hothers a hnotin.1 (Finset.mem_filter.mp ha).2.1]
      exact hkept a ha hnotin.2

theorem credit_gated (hc : Commits Call.body env i t)
    (hcredit : i.call.credit = some (recipient,amount)) :
    0 < amount.val ∧ Gated (.issue recipient amount.val) env.ledger := by
  obtain ⟨auth, c⟩ := i
  cases c with
  | mintAsset =>
    cases hcredit
    exact ⟨(mintAsset_ok.mp hc).2.1.positive,entry_gated hc rfl⟩
  | transfer sender =>
    cases hcredit
    have hgated := entry_gated hc (e := .move sender recipient amount.val) rfl
    refine ⟨(transfer_ok.mp hc).2.1.positive,hgated.running,hgated.active,fun a ha => ?_⟩
    exact hgated.cleared a (Or.inr ha)
  | _ => cases hcredit

/-- A plain group can stop a call of somebody else exactly if the call adds to a
balance under a holding cap, and what the cleared members hold is more than the
room the call leaves there. -/
theorem deniable_iff (h : Reachable Call.body Env.fresh env) (hplain : Plain G env.ledger)
    (hout : i.call.signer ∉ G) (hc : Commits Call.body env i t) :
    (∃ is, (∀ j ∈ is, Within G j) ∧ ∀ t', ¬Commits Call.body (run Call.body is env) i t') ↔
      ∃ recipient amount, i.call.credit = some (recipient,amount) ∧
        0 < (getHoldingCap env.ledger).val ∧
        (getHoldingCap env.ledger).val < (getBalanceOf recipient env.ledger).val+amount.val+
          jointly (donors G recipient env.ledger) env.ledger := by
  constructor
  · rintro ⟨is, his, hdenied⟩
    have hsound := reachable_sound (h.run is)
    have hfull : ¬HasRoom i.call env.ledger (run Call.body is env).ledger := by
      intro hroom
      obtain ⟨t', hc', -⟩ := (run_ahead hplain his).answers hsound hout hroom hc
      exact hdenied t' hc'
    simp only [HasRoom, WithinCap, not_forall, not_le] at hfull
    obtain ⟨recipient, amount, hcredit, hon, hover⟩ := hfull
    have hgift := gift_bounded recipient hplain his
    have hleft : 0 ≤ jointly (donors G recipient env.ledger) (run Call.body is env).ledger :=
      Finset.sum_nonneg fun a _ => hsound.nonneg a
    exact ⟨recipient,amount,hcredit,hon,by omega⟩
  · rintro ⟨recipient, amount, hcredit, hon, hlt⟩
    by_contra hnever
    obtain ⟨hpos, hgated⟩ := credit_gated hc hcredit
    have hroom : ∀ s, Steers Call.body (Within (G : Set Address)) env s →
        (getBalanceOf recipient s.ledger).val+amount.val ≤ (getHoldingCap env.ledger).val := by
      intro s hsteers
      obtain ⟨is, his, -, rfl⟩ := hsteers.exists_run
      by_contra hover
      refine hnever ⟨is,his,fun t' hc' => hover ?_⟩
      exact ((run_ahead hplain his).commits_iff (reachable_sound (h.run is)) hout hc).mp
        ⟨t',hc'⟩ recipient amount hcredit hon
    have hmoves : ∀ donor ∈ donors G recipient env.ledger,
        Gated (.move donor recipient 0) env.ledger := by
      intro donor hdonor
      refine ⟨hgated.running,hgated.active,?_⟩
      rintro a (rfl | rfl)
      · exact (Finset.mem_filter.mp hdonor).2.2
      · exact hgated.cleared _ rfl
    obtain ⟨s, hsteers, hheld, -⟩ := donors_drained h hplain hmoves
      (fun s hs => by have hbelow := hroom s hs; omega) (Finset.Subset.refl _)
    have hlimit := hroom s hsteers
    omega

/-- The deployment with another cleared account and a holding cap of seven units. -/
def crowded : Env ℕ := run Call.body (deployment++[⟨fun a => a = 0,.whitelistUser 0 5⟩,
  ⟨fun a => a = 0,.proposeHoldingCap 0 ⟨7,by decide,by decide⟩⟩,
  ⟨fun a => a = 0,.acceptHoldingCap 0⟩]) Env.fresh

/-- The holder of five units can be in the way of a mint of three to the other. -/
theorem deniable_crowded :
    ∃ is, (∀ j ∈ is, Within ({1} : Finset ℕ) j) ∧ ∀ t', ¬Commits Call.body
      (run Call.body is crowded) ⟨fun a => a = 0,.mintAsset 0 5 ⟨3,by decide,by decide⟩⟩ t' := by
  have hplain : Plain ({1} : Finset ℕ) crowded.ledger := by
    rw [Finset.coe_singleton]
    exact .of_single (show IsAdmin 0 crowded.ledger from rfl) (by decide) rfl rfl
  have hc : Commits Call.body crowded ⟨fun a => a = 0,.mintAsset 0 5 ⟨3,by decide,by decide⟩⟩
      (settle Call.body crowded ⟨fun a => a = 0,.mintAsset 0 5 ⟨3,by decide,by decide⟩⟩) := rfl
  exact (deniable_iff ⟨_,rfl⟩ hplain (by decide) hc).mpr
    ⟨5,⟨3,by decide,by decide⟩,rfl,by decide,by decide⟩

end

/-! ## In every interleaving -/

/-- Where no holding cap is active, what others commit they commit in every
interleaving with the calls of a plain group, and end with no less. -/
theorem undisturbed (h : Reachable Call.body Env.fresh env) (hinter : Interleaves is js cs)
    (his : ∀ i ∈ is, Within S i) (hjs : ∀ j ∈ js, j.call.signer ∉ S)
    (hplain : Throughout Call.body
      (fun s : Env Address => Plain S s.ledger ∧ (getHoldingCap s.ledger).val ≤ 0) js env)
    (hcommit : EachStep Call.body (fun s j => ∃ t, Commits Call.body s j t) js env) :
    (∃ ks, ks.Sublist is ∧
        Interleaves ks js ((trace Call.body cs env).map Transition.via)) ∧
      Ahead S (run Call.body js env).ledger (run Call.body cs env).ledger := by
  have hsimulated := hinter.simulates
    (R := fun s t : Env Address => Reachable Call.body Env.fresh t ∧ Ahead S s.ledger t.ledger)
    ?_ ?_ his hjs hplain hcommit ⟨h,Ahead.refl _ _⟩
  · exact ⟨hsimulated.1,hsimulated.2.2⟩
  · rintro s t i t' ⟨hgroup, -⟩ ⟨ht, hahead⟩ hi hc
    exact ⟨ht.commits hc,hahead.trans (commits_ahead (hahead.plain hgroup) hi hc)⟩
  · rintro s t j s' ⟨-, hoff⟩ ⟨ht, hahead⟩ hj hc
    obtain ⟨t', hc', hnext⟩ := hahead.answers (reachable_sound ht) hj
      (fun _ _ _ hon => absurd hon hoff.not_gt) hc
    exact ⟨t',hc',ht.commits hc',hnext⟩

/-- The holder's own transfers are not in the way of another clearing and a mint. -/
theorem undisturbed_deployed :
    Ahead {1} (run Call.body [⟨fun a => a = 0,.whitelistUser 0 5⟩,
        ⟨fun a => a = 0,.mintAsset 0 5 oneUnit⟩] deployed).ledger
      (run Call.body [⟨fun a => a = 0,.whitelistUser 0 5⟩, ⟨fun a => a = 1,.transfer 1 5 oneUnit⟩,
        ⟨fun a => a = 0,.mintAsset 0 5 oneUnit⟩] deployed).ledger := by
  have hinter : Interleaves [(⟨fun a => a = 1,.transfer 1 5 oneUnit⟩ : Signed ℕ)]
      [⟨fun a => a = 0,.whitelistUser 0 5⟩, ⟨fun a => a = 0,.mintAsset 0 5 oneUnit⟩]
      [⟨fun a => a = 0,.whitelistUser 0 5⟩, ⟨fun a => a = 1,.transfer 1 5 oneUnit⟩,
        ⟨fun a => a = 0,.mintAsset 0 5 oneUnit⟩] := .right (.left (.right .nil))
  refine (undisturbed ⟨deployment,rfl⟩ hinter ?_ ?_ ?_ ?_).2
  · simp [Within]
  · simp [Call.signer]
  · have hplain : ∀ s : Env ℕ, IsAdmin 0 s.ledger → s.ledger.get .adminCandidate = none →
        getRole 1 s.ledger = .none → Plain {1} s.ledger := fun s hadmin =>
      .of_single hadmin (by decide)
    exact ⟨⟨hplain _ rfl rfl rfl,by decide⟩,⟨hplain _ rfl rfl rfl,by decide⟩,
      ⟨hplain _ rfl rfl rfl,by decide⟩⟩
  · exact ⟨⟨_,rfl⟩,⟨_,rfl⟩,trivial⟩

end Aegis
