import Aegis.TypedRefusals

/-!
# Movements compose

A movement is known by the entries it posts: they fix the balances and the
supply, and no other key changes. Two ways to post the same book therefore
reach the same ledger, and what a movement requires afterwards it requires
of sums.
-/

set_option autoImplicit false

namespace Aegis
open HostKit

variable {Address : Type}

/-! ## Posting entries to a ledger -/

/-- The keys an entry is recorded under. -/
def entryKeys : Book.Entry Address → Set (DataKey Address)
  | .issue recipient _ => {.balance recipient, .totalSupply}
  | .move sender recipient _ => {.balance sender, .balance recipient}

/-- The keys the book is read from. -/
def bookKeys : Set (DataKey Address) := {k | k = .totalSupply ∨ ∃ a, k = .balance a}

theorem entryKeys_subset (e : Book.Entry Address) : entryKeys e ⊆ bookKeys := by
  cases e with
  | issue recipient n =>
    rintro k (rfl | rfl)
    · exact Or.inr ⟨recipient,rfl⟩
    · exact Or.inl rfl
  | move sender recipient n =>
    rintro k (rfl | rfl)
    · exact Or.inr ⟨sender,rfl⟩
    · exact Or.inr ⟨recipient,rfl⟩

theorem get_eq_of_book {l l' : Ledger Address} (hbook : bookOf l = bookOf l')
    {k : DataKey Address} (hk : k ∈ bookKeys) (h : l.has k = true) (h' : l'.has k = true) :
    l.get k = l'.get k := by
  obtain ⟨v, hv⟩ := Option.isSome_iff_exists.mp h
  obtain ⟨v', hv'⟩ := Option.isSome_iff_exists.mp h'
  rw [hv, hv']
  rcases hk with rfl | ⟨a, rfl⟩
  · have htotal := congrArg Book.total hbook
    simp only [bookOf, getTotalSupply, hv, hv', Option.getD_some] at htotal
    exact congrArg some (CheckedInt.ext htotal)
  · have hheld := congrFun (congrArg Book.holding hbook) a
    simp only [bookOf, getBalanceOf, hv, hv', Option.getD_some] at hheld
    exact congrArg some (CheckedInt.ext hheld)

variable [DecidableEq Address] {auth : Auth Address} {env env' : Env Address} {i : Signed Address}
  {es fs : List (Book.Entry Address)} {l l' l'' : Ledger Address}

/-- The ledger after some entries: their book, their keys written, and nothing
else changed. -/
structure Posted (es : List (Book.Entry Address)) (l l' : Ledger Address) : Prop where
  replayed : bookOf l' = Book.replay es (bookOf l)
  frame : Store.AgreeOff {k | ∃ e ∈ es, k ∈ entryKeys e} l l'
  present : ∀ e ∈ es, ∀ k ∈ entryKeys e, l'.has k = true

theorem commits_posted (h : Commits Call.body env i env') {e : Book.Entry Address}
    (he : i.call.entry = some e) : Posted [e] env.ledger env'.ledger := by
  have hadvance := commits_book h
  rw [he] at hadvance
  have hframe := commits_frame h
  obtain ⟨auth, c⟩ := i
  cases c with
  | mintAsset admin recipient amount =>
    cases he
    obtain ⟨-, -, balance, supply, -, -, rfl⟩ := mintAsset_ok.mp h
    refine ⟨hadvance.2,hframe.mono fun k hk => ⟨_,List.mem_singleton_self _,hk⟩,?_⟩
    simp [entryKeys, Store.has]
  | transfer sender recipient amount =>
    cases he
    obtain ⟨-, -, debited, credited, -, -, rfl⟩ := transfer_ok.mp h
    refine ⟨hadvance.2,hframe.mono fun k hk => ⟨_,List.mem_singleton_self _,hk⟩,?_⟩
    by_cases hself : sender = recipient
    · simp [entryKeys, Store.has, hself]
    · simp [entryKeys, Store.has, hself]
  | _ => cases he

theorem Posted.trans (h : Posted es l l') (h' : Posted fs l' l'') : Posted (es++fs) l l'' where
  replayed := by rw [Book.replay_append, ← h.replayed, h'.replayed]
  frame := by
    refine (h.frame.mono ?_).trans (h'.frame.mono ?_)
    · rintro k ⟨e, he, hk⟩
      exact ⟨e,List.mem_append_left _ he,hk⟩
    · rintro k ⟨e, he, hk⟩
      exact ⟨e,List.mem_append_right _ he,hk⟩
  present := by
    intro e he k hk
    by_cases hlater : ∃ e' ∈ fs, k ∈ entryKeys e'
    · obtain ⟨e', he', hk'⟩ := hlater
      exact h'.present e' he' k hk'
    · have hfirst : e ∈ es :=
        (List.mem_append.mp he).resolve_right fun hin => hlater ⟨e,hin,hk⟩
      rw [Store.has, h'.frame k hlater]
      exact h.present e hfirst k hk

/-- The same book posted under the same keys is the same ledger. -/
theorem Posted.unique (h : Posted es l l') (h' : Posted fs l l'')
    (hreplay : Book.replay es (bookOf l) = Book.replay fs (bookOf l))
    (hkeys : ∀ k, (∃ e ∈ es, k ∈ entryKeys e) ↔ ∃ e ∈ fs, k ∈ entryKeys e) : l' = l'' := by
  ext1
  funext k
  by_cases hk : ∃ e ∈ es, k ∈ entryKeys e
  · obtain ⟨e', he', hk'⟩ := (hkeys k).mp hk
    obtain ⟨e, he, hk⟩ := hk
    apply get_eq_of_book _ (entryKeys_subset e hk) (h.present e he k hk) (h'.present e' he' k hk')
    rw [h.replayed, h'.replayed, hreplay]
  · rw [h.frame k hk, h'.frame k fun hin => hk ((hkeys k).mpr hin)]

theorem Posted.offBook (h : Posted es l l') : Store.AgreeOff bookKeys l l' := by
  apply h.frame.mono
  rintro k ⟨e, -, hk⟩
  exact entryKeys_subset e hk

theorem Posted.balance (h : Posted es l l') (a : Address) :
    (getBalanceOf a l').val = (Book.replay es (bookOf l)).holding a :=
  congrFun (congrArg Book.holding h.replayed) a

/-! ## What a movement requires of a posted ledger -/

section
variable {caller sender recipient : Address} {amount : I128}

omit [DecidableEq Address] in
theorem getCap_offBook (h : Store.AgreeOff bookKeys l l') (kind : Cap) :
    getCap kind l' = getCap kind l := h.getD (.cap kind) (by simp [bookKeys]) 0

omit [DecidableEq Address] in
theorem isPaused_offBook (h : Store.AgreeOff bookKeys l l') : isPaused l' = isPaused l :=
  h.getD .paused (by simp [bookKeys]) false

omit [DecidableEq Address] in
theorem getAssetStatus_offBook (h : Store.AgreeOff bookKeys l l') :
    getAssetStatus l' = getAssetStatus l := h.getD .assetStatus (by simp [bookKeys]) .draft

omit [DecidableEq Address] in
theorem getComplianceStatus_offBook (h : Store.AgreeOff bookKeys l l') (user : Address) :
    getComplianceStatus user l' = getComplianceStatus user l :=
  h.getD (.complianceStatus user) (by simp [bookKeys]) .unknown

omit [DecidableEq Address] in
theorem transferable_offBook (h : Store.AgreeOff bookKeys l l') :
    Transferable sender recipient amount l' ↔
      isPaused l = false ∧ 0 < amount.val ∧ getAssetStatus l = .active ∧
        getComplianceStatus sender l = .approved ∧ getComplianceStatus recipient l = .approved ∧
        WithinCap (getHoldingCap l) (getBalanceOf recipient l') amount ∧
        amount.val ≤ (getBalanceOf sender l').val := by
  rw [transferable_iff, getHoldingCap, getCap_offBook h, isPaused_offBook h,
    getAssetStatus_offBook h, getComplianceStatus_offBook h, getComplianceStatus_offBook h,
    getHoldingCap]

theorem evaluateIssuance_offBook (h : Store.AgreeOff bookKeys l l') :
    evaluateIssuance caller (some recipient) l' = evaluateIssuance caller (some recipient) l := by
  have hadmin : l'.get .admin = l.get .admin := h _ (by simp [bookKeys])
  have hrole : effectiveRole caller l' = effectiveRole caller l := by
    rw [effectiveRole, hadmin, getRole, h _ (by simp [bookKeys])]
    rfl
  have hpolicy : getPolicy l' = getPolicy l :=
    h.getD .issuerSeparationPolicy (by simp [bookKeys]) defaultPolicy
  have happrover : getComplianceApprover recipient l' = getComplianceApprover recipient l :=
    h _ (by simp [bookKeys])
  simp only [evaluateIssuance, Store.has, hadmin, hrole, hpolicy, happrover]

/-- Nothing a mint checks before its caps is recorded in the book. -/
theorem mintOpens_offBook (h : Store.AgreeOff bookKeys l l') :
    MintOpens caller recipient amount l' ↔ MintOpens caller recipient amount l := by
  have hacts : ActsAs caller (· = .assetManager) l' ↔ ActsAs caller (· = .assetManager) l := by
    rw [ActsAs, getRole, h _ (by simp [bookKeys])]
    simp only [IsAdmin, h .admin (by simp [bookKeys])]
    rfl
  rw [mintOpens_iff, mintOpens_iff, hacts, evaluateIssuance_offBook h, isPaused_offBook h,
    getAssetStatus_offBook h, getComplianceStatus_offBook h]

theorem mintable_offBook (h : Store.AgreeOff bookKeys l l') :
    Mintable caller recipient amount l' ↔ MintOpens caller recipient amount l ∧
      WithinCap (getSupplyCap l) (getTotalSupply l') amount ∧
      WithinCap (getHoldingCap l) (getBalanceOf recipient l') amount := by
  rw [mintable_iff_opens, mintOpens_offBook h, getSupplyCap, getCap_offBook h, getHoldingCap,
    getCap_offBook h]
  rfl

end

/-! ## One movement split in two -/

/-- The whole call commits if and only if the two parts do, one after the
other, and either way the same ledger is reached. -/
def SplitsInto (auth : Auth Address) (env : Env Address) (whole first second : Call Address) :
    Prop :=
  ((∃ env', Commits Call.body env ⟨auth,whole⟩ env') ↔
      ∃ env₁ env₂, Commits Call.body env ⟨auth,first⟩ env₁ ∧
        Commits Call.body env₁ ⟨auth,second⟩ env₂) ∧
    ∀ env' env₁ env₂, Commits Call.body env ⟨auth,whole⟩ env' →
      Commits Call.body env ⟨auth,first⟩ env₁ → Commits Call.body env₁ ⟨auth,second⟩ env₂ →
      env₂.ledger = env'.ledger

section
variable {x y z : I128}

theorem MintOpens.of_positive {caller recipient : Address} (h : MintOpens caller recipient x l)
    (hy : 0 < y.val) : MintOpens caller recipient y l := { h with positive := hy }

theorem WithinCap.mono {cap current : I128} (h : WithinCap cap current z) (hle : x.val ≤ z.val) :
    WithinCap cap current x :=
  fun hon => (add_le_add_right hle _).trans (h hon)

/-- A cap admits a sum if and only if it admits both parts, each on what it finds. -/
theorem withinCap_split {cap current later : I128} (hlater : later.val = current.val+x.val)
    (hy : 0 < y.val) (hz : x.val+y.val = z.val) :
    WithinCap cap current z ↔ WithinCap cap current x ∧ WithinCap cap later y := by
  have hsum : later.val+y.val = current.val+z.val := by omega
  rw [WithinCap, WithinCap, WithinCap, hsum]
  refine ⟨fun h => ⟨fun hon => ?_,h⟩,And.right⟩
  have hbound := h hon
  omega

/-- What a mint requires after another one, on what that one left. -/
theorem mint_after_iff (h : Reachable Call.body Env.fresh env) {caller recipient : Address}
    {env₁ : Env Address}
    (hfirst : Commits Call.body env ⟨auth,.mintAsset caller recipient x⟩ env₁) :
    (∃ env₂, Commits Call.body env₁ ⟨auth,.mintAsset caller recipient y⟩ env₂) ↔
      (MintOpens caller recipient y env.ledger ∧
        WithinCap (getSupplyCap env.ledger) (getTotalSupply env₁.ledger) y ∧
        WithinCap (getHoldingCap env.ledger) (getBalanceOf recipient env₁.ledger) y) ∧
      (getTotalSupply env₁.ledger).val+y.val ≤ 2^127-1 := by
  rw [← mintable_offBook (commits_posted hfirst rfl).offBook]
  exact mint_commits_iff (reachable_sound (h.commits hfirst)) (signer_authorised hfirst)

theorem mint_splits (h : Reachable Call.body Env.fresh env) (hx : 0 < x.val) (hy : 0 < y.val)
    (hz : x.val+y.val = z.val) (caller recipient : Address) :
    SplitsInto auth env (.mintAsset caller recipient z) (.mintAsset caller recipient x)
      (.mintAsset caller recipient y) := by
  have hsound := reachable_sound h
  -- where the first part leads
  have hlater : ∀ env₁, Commits Call.body env ⟨auth,.mintAsset caller recipient x⟩ env₁ →
      (getTotalSupply env₁.ledger).val = (getTotalSupply env.ledger).val+x.val ∧
        (getBalanceOf recipient env₁.ledger).val = (getBalanceOf recipient env.ledger).val+x.val :=
    fun env₁ hfirst => ⟨(mint_effect hfirst).2.1,(mint_effect hfirst).1⟩
  refine ⟨⟨?_,?_⟩,fun env' env₁ env₂ hwhole hfirst hsecond => ?_⟩
  · rintro ⟨env', hwhole⟩
    have hauth : auth caller = true := signer_authorised hwhole
    obtain ⟨hmintable, hfits⟩ := (mint_commits_iff hsound hauth).mp ⟨env',hwhole⟩
    obtain ⟨hopens, hsupply, hholding⟩ := mintable_iff_opens.mp hmintable
    obtain ⟨env₁, hfirst⟩ :
        ∃ env₁, Commits Call.body env ⟨auth,.mintAsset caller recipient x⟩ env₁ :=
      (mint_commits_iff hsound hauth).mpr ⟨mintable_iff_opens.mpr ⟨hopens.of_positive hx,
        hsupply.mono (by omega),hholding.mono (by omega)⟩,by omega⟩
    obtain ⟨htotal, hheld⟩ := hlater env₁ hfirst
    obtain ⟨env₂, hsecond⟩ := (mint_after_iff h hfirst).mpr ⟨⟨hopens.of_positive hy,
      ((withinCap_split htotal hy hz).mp hsupply).2,
      ((withinCap_split hheld hy hz).mp hholding).2⟩,by omega⟩
    exact ⟨env₁,env₂,hfirst,hsecond⟩
  · rintro ⟨env₁, env₂, hfirst, hsecond⟩
    have hauth : auth caller = true := signer_authorised hfirst
    obtain ⟨htotal, hheld⟩ := hlater env₁ hfirst
    obtain ⟨hmintable, -⟩ := (mint_commits_iff hsound hauth).mp ⟨env₁,hfirst⟩
    obtain ⟨hopens, hsupply, hholding⟩ := mintable_iff_opens.mp hmintable
    obtain ⟨⟨-, hsupply', hholding'⟩, hfits⟩ := (mint_after_iff h hfirst).mp ⟨env₂,hsecond⟩
    exact (mint_commits_iff hsound hauth).mpr ⟨mintable_iff_opens.mpr
      ⟨hopens.of_positive (by omega),(withinCap_split htotal hy hz).mpr ⟨hsupply,hsupply'⟩,
        (withinCap_split hheld hy hz).mpr ⟨hholding,hholding'⟩⟩,by omega⟩
  · have htwo := (commits_posted hfirst rfl).trans (commits_posted hsecond rfl)
    apply htwo.unique (commits_posted hwhole rfl)
    · simp only [List.singleton_append, Book.replay, Book.post_issue_add, hz]
    · simp [entryKeys]

theorem transfer_effect {sender recipient : Address} (hne : sender ≠ recipient)
    (h : Commits Call.body env ⟨auth,.transfer sender recipient x⟩ env') :
    (getBalanceOf sender env'.ledger).val = (getBalanceOf sender env.ledger).val-x.val ∧
      (getBalanceOf recipient env'.ledger).val =
        (getBalanceOf recipient env.ledger).val+x.val := by
  have hposted := commits_posted h rfl
  constructor
  · rw [hposted.balance]
    simp [Book.replay, Book.post, hne, bookOf, sub_eq_add_neg]
  · rw [hposted.balance]
    simp [Book.replay, Book.post, hne.symm, bookOf]

/-- What a transfer requires after another one between the same parties. -/
theorem transfer_after_iff (h : Reachable Call.body Env.fresh env) {sender recipient : Address}
    {env₁ : Env Address}
    (hfirst : Commits Call.body env ⟨auth,.transfer sender recipient x⟩ env₁) :
    (∃ env₂, Commits Call.body env₁ ⟨auth,.transfer sender recipient y⟩ env₂) ↔ 0 < y.val ∧
      WithinCap (getHoldingCap env.ledger) (getBalanceOf recipient env₁.ledger) y ∧
      y.val ≤ (getBalanceOf sender env₁.ledger).val := by
  have hmovable := (transfer_ok.mp hfirst).2.1
  have hcommits : (∃ env₂, Commits Call.body env₁ ⟨auth,.transfer sender recipient y⟩ env₂) ↔
      Transferable sender recipient y env₁.ledger :=
    transfer_commits_iff (reachable_sound (h.commits hfirst)) (signer_authorised hfirst)
  rw [hcommits, transferable_offBook (commits_posted hfirst rfl).offBook]
  simp only [hmovable.running, hmovable.active, hmovable.senderCleared, hmovable.recipientCleared,
    true_and]

theorem transfer_splits (h : Reachable Call.body Env.fresh env) (hx : 0 < x.val) (hy : 0 < y.val)
    (hz : x.val+y.val = z.val) {sender recipient : Address} (hne : sender ≠ recipient) :
    SplitsInto auth env (.transfer sender recipient z) (.transfer sender recipient x)
      (.transfer sender recipient y) := by
  have hsound := reachable_sound h
  refine ⟨⟨?_,?_⟩,fun env' env₁ env₂ hwhole hfirst hsecond => ?_⟩
  · rintro ⟨env', hwhole⟩
    have hauth : auth sender = true := signer_authorised hwhole
    have hmovable := (transfer_ok.mp hwhole).2.1
    have hcover := hmovable.covered
    obtain ⟨env₁, hfirst⟩ :
        ∃ env₁, Commits Call.body env ⟨auth,.transfer sender recipient x⟩ env₁ :=
      (transfer_commits_iff hsound hauth).mpr { hmovable with
        positive := hx
        withinHolding := hmovable.withinHolding.mono (by omega)
        covered := by omega }
    obtain ⟨hdebit, hcredit⟩ := transfer_effect hne hfirst
    obtain ⟨env₂, hsecond⟩ := (transfer_after_iff h hfirst).mpr
      ⟨hy,((withinCap_split hcredit hy hz).mp hmovable.withinHolding).2,by omega⟩
    exact ⟨env₁,env₂,hfirst,hsecond⟩
  · rintro ⟨env₁, env₂, hfirst, hsecond⟩
    have hauth : auth sender = true := signer_authorised hfirst
    obtain ⟨hdebit, hcredit⟩ := transfer_effect hne hfirst
    have hmovable := (transfer_ok.mp hfirst).2.1
    obtain ⟨-, hwithin, hcover⟩ := (transfer_after_iff h hfirst).mp ⟨env₂,hsecond⟩
    exact (transfer_commits_iff hsound hauth).mpr { hmovable with
      positive := by omega
      withinHolding := (withinCap_split hcredit hy hz).mpr ⟨hmovable.withinHolding,hwithin⟩
      covered := by omega }
  · have htwo := (commits_posted hfirst rfl).trans (commits_posted hsecond rfl)
    apply htwo.unique (commits_posted hwhole rfl)
    · simp only [List.singleton_append, Book.replay, Book.post_move_add, hz]
    · simp [entryKeys]

theorem movements_split (h : Reachable Call.body Env.fresh env) (hx : 0 < x.val) (hy : 0 < y.val)
    (hz : x.val+y.val = z.val) (auth : Auth Address) :
    (∀ caller recipient, SplitsInto auth env (.mintAsset caller recipient z)
      (.mintAsset caller recipient x) (.mintAsset caller recipient y)) ∧
    ∀ sender recipient, sender ≠ recipient → SplitsInto auth env (.transfer sender recipient z)
      (.transfer sender recipient x) (.transfer sender recipient y) :=
  ⟨mint_splits h hx hy hz,fun _ _ hne => transfer_splits h hx hy hz hne⟩

end

/-- Five units are issued at once or as two and three, to the same end. -/
theorem movements_split_deployed :
    ∃ env' env₁ env₂,
      Commits Call.body deployed
          ⟨fun a => a = 0,.mintAsset 0 1 ⟨5,by decide,by decide⟩⟩ env' ∧
        Commits Call.body deployed
          ⟨fun a => a = 0,.mintAsset 0 1 ⟨2,by decide,by decide⟩⟩ env₁ ∧
        Commits Call.body env₁ ⟨fun a => a = 0,.mintAsset 0 1 ⟨3,by decide,by decide⟩⟩ env₂ ∧
        env₂.ledger = env'.ledger := by
  have hsplit : SplitsInto (fun a => a = 0) deployed (.mintAsset 0 1 ⟨5,by decide,by decide⟩)
      (.mintAsset 0 1 ⟨2,by decide,by decide⟩) (.mintAsset 0 1 ⟨3,by decide,by decide⟩) :=
    (movements_split ⟨deployment,rfl⟩ (by decide) (by decide) (by decide) _).1 0 1
  have hwhole : Commits Call.body deployed
      ⟨fun a => a = 0,.mintAsset 0 1 ⟨5,by decide,by decide⟩⟩ _ := rfl
  obtain ⟨env₁, env₂, hfirst, hsecond⟩ := hsplit.1.mp ⟨_,hwhole⟩
  exact ⟨_,env₁,env₂,hwhole,hfirst,hsecond,hsplit.2 _ _ _ hwhole hfirst hsecond⟩

/-! ## Two transfers in either order -/

/-- Both invocations commit, the second where the first one ends. -/
def InTurn (i j : Signed Address) (env env' : Env Address) : Prop :=
  ∃ mid, Commits Call.body env i mid ∧ Commits Call.body mid j env'

section
variable {auth₁ auth₂ : Auth Address} {s₁ r₁ s₂ r₂ : Address} {a₁ a₂ : I128}

theorem swapped_same_ledger {env'' : Env Address}
    (h : InTurn ⟨auth₁,.transfer s₁ r₁ a₁⟩ ⟨auth₂,.transfer s₂ r₂ a₂⟩ env env')
    (h' : InTurn ⟨auth₂,.transfer s₂ r₂ a₂⟩ ⟨auth₁,.transfer s₁ r₁ a₁⟩ env env'') :
    env'.ledger = env''.ledger := by
  obtain ⟨mid, hfirst, hsecond⟩ := h
  obtain ⟨mid', hfirst', hsecond'⟩ := h'
  apply ((commits_posted hfirst rfl).trans (commits_posted hsecond rfl)).unique
    ((commits_posted hfirst' rfl).trans (commits_posted hsecond' rfl))
  · simp only [List.singleton_append, Book.replay]
    rw [Book.post_comm]
  · simp [or_comm]

/-- No address is a party of both transfers. -/
def Apart (s₁ r₁ s₂ r₂ : Address) : Prop := s₁ ≠ s₂ ∧ s₁ ≠ r₂ ∧ r₁ ≠ s₂ ∧ r₁ ≠ r₂

omit [DecidableEq Address] in
theorem Apart.symm (h : Apart s₁ r₁ s₂ r₂) : Apart s₂ r₂ s₁ r₁ :=
  ⟨h.1.symm,h.2.2.1.symm,h.2.1.symm,h.2.2.2.symm⟩

/-- A transfer changes nothing another one between strangers depends on. -/
theorem transferable_apart (hapart : Apart s₁ r₁ s₂ r₂)
    (h : Commits Call.body env ⟨auth₁,.transfer s₁ r₁ a₁⟩ env') :
    Transferable s₂ r₂ a₂ env'.ledger ↔ Transferable s₂ r₂ a₂ env.ledger := by
  obtain ⟨hss, hsr, hrs, hrr⟩ := hapart
  have hsender : getBalanceOf s₂ env'.ledger = getBalanceOf s₂ env.ledger := by
    rw [getBalanceOf, commits_unchanged h (by simp [Call.writes, hss.symm, hrs.symm]), getBalanceOf]
  have hrecipient : getBalanceOf r₂ env'.ledger = getBalanceOf r₂ env.ledger := by
    rw [getBalanceOf, commits_unchanged h (by simp [Call.writes, hsr.symm, hrr.symm]), getBalanceOf]
  rw [transferable_offBook (commits_posted h rfl).offBook, hsender, hrecipient, transferable_iff]

theorem swapped_commits (h : Reachable Call.body Env.fresh env) (hapart : Apart s₁ r₁ s₂ r₂)
    (hturn : InTurn ⟨auth₁,.transfer s₁ r₁ a₁⟩ ⟨auth₂,.transfer s₂ r₂ a₂⟩ env env') :
    ∃ env'', InTurn ⟨auth₂,.transfer s₂ r₂ a₂⟩ ⟨auth₁,.transfer s₁ r₁ a₁⟩ env env'' := by
  obtain ⟨mid, hfirst, hsecond⟩ := hturn
  have hmovable := (transfer_ok.mp hfirst).2.1
  have hmovable' := (transferable_apart hapart hfirst).mp (transfer_ok.mp hsecond).2.1
  obtain ⟨mid', hfirst'⟩ :=
    (transfer_commits_iff (reachable_sound h) (signer_authorised hsecond)).mpr hmovable'
  obtain ⟨env'', hsecond'⟩ :=
    (transfer_commits_iff (reachable_sound (h.commits hfirst')) (signer_authorised hfirst)).mpr
      ((transferable_apart hapart.symm hfirst').mpr hmovable)
  exact ⟨env'',mid',hfirst',hsecond'⟩

theorem transfers_order_insensitive (h : Reachable Call.body Env.fresh env)
    (auth₁ auth₂ : Auth Address) (s₁ r₁ s₂ r₂ : Address) (a₁ a₂ : I128) :
    (∀ env' env'', InTurn ⟨auth₁,.transfer s₁ r₁ a₁⟩ ⟨auth₂,.transfer s₂ r₂ a₂⟩ env env' →
      InTurn ⟨auth₂,.transfer s₂ r₂ a₂⟩ ⟨auth₁,.transfer s₁ r₁ a₁⟩ env env'' →
      env'.ledger = env''.ledger) ∧
    (Apart s₁ r₁ s₂ r₂ →
      ((∃ env', InTurn ⟨auth₁,.transfer s₁ r₁ a₁⟩ ⟨auth₂,.transfer s₂ r₂ a₂⟩ env env') ↔
        ∃ env'', InTurn ⟨auth₂,.transfer s₂ r₂ a₂⟩ ⟨auth₁,.transfer s₁ r₁ a₁⟩ env env'')) := by
  refine ⟨fun env' env'' => swapped_same_ledger,fun hapart => ⟨?_,?_⟩⟩
  · rintro ⟨env', hturn⟩
    exact swapped_commits h hapart hturn
  · rintro ⟨env'', hturn⟩
    exact swapped_commits h hapart.symm hturn

end

/-! Four cleared addresses, of whom three hold something. -/

def syndicate : List (Signed ℕ) :=
  deployment++[⟨fun a => a = 0,.whitelistUser 0 2⟩, ⟨fun a => a = 0,.whitelistUser 0 3⟩,
    ⟨fun a => a = 0,.whitelistUser 0 4⟩, ⟨fun a => a = 0,.mintAsset 0 2 oneUnit⟩,
    ⟨fun a => a = 0,.mintAsset 0 3 oneUnit⟩]

def holders : Env ℕ := run Call.body syndicate Env.fresh

def sends (sender recipient : ℕ) : Signed ℕ :=
  ⟨fun a => a = sender,.transfer sender recipient oneUnit⟩

/-- The second sends on while the first sends to it, in either order; and what
the third sends to the fourth may come before or after. -/
theorem transfers_order_deployed :
    (∃ env' env'', InTurn (sends 1 2) (sends 2 3) holders env' ∧
      InTurn (sends 2 3) (sends 1 2) holders env'' ∧ env'.ledger = env''.ledger ∧
      (getBalanceOf 1 env'.ledger).val = 4 ∧ (getBalanceOf 3 env'.ledger).val = 2) ∧
    ∃ env'', InTurn (sends 3 4) (sends 1 2) holders env'' := by
  have hreached : Reachable Call.body Env.fresh holders := ⟨syndicate,rfl⟩
  constructor
  · have hturn : InTurn (sends 1 2) (sends 2 3) holders
        (run Call.body [sends 1 2,sends 2 3] holders) := ⟨run Call.body [sends 1 2] holders,rfl,rfl⟩
    have hturn' : InTurn (sends 2 3) (sends 1 2) holders
        (run Call.body [sends 2 3,sends 1 2] holders) := ⟨run Call.body [sends 2 3] holders,rfl,rfl⟩
    exact ⟨_,_,hturn,hturn',
      (transfers_order_insensitive hreached _ _ 1 2 2 3 _ _).1 _ _ hturn hturn',rfl,rfl⟩
  · have hturn : InTurn (sends 1 2) (sends 3 4) holders
        (run Call.body [sends 1 2,sends 3 4] holders) := ⟨run Call.body [sends 1 2] holders,rfl,rfl⟩
    have hapart : Apart 1 2 3 4 := ⟨by decide,by decide,by decide,by decide⟩
    exact ((transfers_order_insensitive hreached _ _ 1 2 3 4 _ _).2 hapart).mp ⟨_,hturn⟩

end Aegis
