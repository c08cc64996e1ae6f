import Aegis.Conservation

/-!
# What moves balances

The conditions under which a committed call moves units, read off the entry
it posts. Every party of an entry was cleared before the call, and every
credit was within the caps then active; both give facts about whole segments
of a run.
-/

set_option autoImplicit false

namespace Aegis
open HostKit

variable {Address : Type} [DecidableEq Address] {env env' : Env Address} {i : Signed Address}

/-- What an entry of the book needs of the ledger it is posted to. -/
structure Gated (e : Book.Entry Address) (l : Ledger Address) : Prop where
  running : isPaused l = false
  active : getAssetStatus l = .active
  cleared : ∀ a ∈ e.parties, getComplianceStatus a l = .approved

theorem entry_gated (h : Commits Call.body env i env') {e : Book.Entry Address}
    (he : i.call.entry = some e) : Gated e env.ledger := by
  obtain ⟨auth, c⟩ := i
  cases c with
  | mintAsset admin recipient amount =>
    cases he
    have hmintable := (mintAsset_ok.mp h).2.1
    refine ⟨hmintable.running,hmintable.active,fun a ha => ?_⟩
    rw [show a = recipient from ha]
    exact hmintable.cleared
  | transfer sender recipient amount =>
    cases he
    have hmovable := (transfer_ok.mp h).2.1
    refine ⟨hmovable.running,hmovable.active,fun a ha => ?_⟩
    rcases ha with hs | hr
    · rw [hs]
      exact hmovable.senderCleared
    · rw [show a = recipient from hr]
      exact hmovable.recipientCleared
  | _ => cases he

/-- A change of anything read off the book is the posting of one admissible
entry. -/
theorem posted_of_changed {γ : Type} (q : Book Address → γ) (h : Commits Call.body env i env')
    (hne : q (bookOf env'.ledger) ≠ q (bookOf env.ledger)) :
    ∃ e, i.call.entry = some e ∧ Book.Admissible e (bookOf env.ledger) ∧
      bookOf env'.ledger = Book.post e (bookOf env.ledger) := by
  have hadvance := commits_book h
  cases he : i.call.entry with
  | none => exact absurd (congrArg q (unmoved h he)) hne
  | some e =>
    rw [he] at hadvance
    exact ⟨e,rfl,hadvance⟩

/-- An account whose balance changes was a cleared party of the movement. -/
theorem changed_cleared (h : Commits Call.body env i env') {a : Address}
    (hne : getBalanceOf a env'.ledger ≠ getBalanceOf a env.ledger) :
    getComplianceStatus a env.ledger = .approved := by
  have hheld : (bookOf env'.ledger).holding a ≠ (bookOf env.ledger).holding a :=
    fun heq => hne (CheckedInt.ext heq)
  obtain ⟨e, he, -, hpost⟩ := posted_of_changed (fun b => b.holding a) h hheld
  have hparty : a ∈ e.parties := by
    by_contra hout
    apply hheld
    rw [hpost, Book.post_of_not_party hout]
  exact (entry_gated h he).cleared a hparty

/-! ## The movement gate -/

theorem frozen_while_not_cleared (is : List (Signed Address)) {env : Env Address} {a : Address}
    (h : Throughout Call.body (fun s => getComplianceStatus a s.ledger ≠ .approved) is env) :
    getBalanceOf a (run Call.body is env).ledger = getBalanceOf a env.ledger := by
  apply Throughout.relates
    (R := fun s t : Env Address => getBalanceOf a t.ledger = getBalanceOf a s.ledger)
    (fun _ => rfl) (fun s t u hst htu => htu.trans hst) _ is h
  intro s i t hs hc
  by_contra hne
  exact hs (changed_cleared hc hne)

theorem movement_gate (env : Env Address) :
    (∀ i env', Commits Call.body env i env' →
      ((∃ a, getBalanceOf a env'.ledger ≠ getBalanceOf a env.ledger) ∨
          getTotalSupply env'.ledger ≠ getTotalSupply env.ledger →
        isPaused env.ledger = false ∧ getAssetStatus env.ledger = .active ∧
          ∀ a, getBalanceOf a env'.ledger ≠ getBalanceOf a env.ledger →
            getComplianceStatus a env.ledger = .approved) ∧
      ∀ sender recipient amount, i.call = .transfer sender recipient amount →
        getComplianceStatus sender env.ledger = .approved ∧
          getComplianceStatus recipient env.ledger = .approved) ∧
    ∀ is a, Throughout Call.body (fun s => getComplianceStatus a s.ledger ≠ .approved) is env →
      getBalanceOf a (run Call.body is env).ledger = getBalanceOf a env.ledger := by
  refine ⟨fun i env' hc => ⟨fun hmoved => ?_,fun sender recipient amount hcall => ?_⟩,
    fun is a h => frozen_while_not_cleared is h⟩
  · have hbook : bookOf env'.ledger ≠ bookOf env.ledger := by
      intro heq
      rcases hmoved with ⟨a, ha⟩ | hsupply
      · exact ha (CheckedInt.ext (congrFun (congrArg Book.holding heq) a))
      · exact hsupply (CheckedInt.ext (congrArg Book.total heq))
    obtain ⟨e, he, -⟩ := posted_of_changed id hc hbook
    have hgated := entry_gated hc he
    exact ⟨hgated.running,hgated.active,fun a ha => changed_cleared hc ha⟩
  · have hgated := entry_gated hc (show i.call.entry = some _ by rw [hcall]; rfl)
    exact ⟨hgated.cleared sender (Or.inl rfl),hgated.cleared recipient (Or.inr rfl)⟩

/-! ## Caps bind every credit -/

theorem credit_within_cap (h : Commits Call.body env i env') {a : Address}
    (hlt : (getBalanceOf a env.ledger).val < (getBalanceOf a env'.ledger).val)
    (hcap : 0 < (getHoldingCap env.ledger).val) :
    (getBalanceOf a env'.ledger).val ≤ (getHoldingCap env.ledger).val := by
  have hheld : (bookOf env.ledger).holding a < (bookOf env'.ledger).holding a := hlt
  obtain ⟨e, he, hadmissible, hpost⟩ := posted_of_changed (fun b => b.holding a) h hheld.ne'
  rw [hpost] at hheld
  obtain ⟨n, hcredit, hnew⟩ := Book.credited hadmissible hheld
  rw [← hpost] at hnew
  have hbound : (getBalanceOf a env.ledger).val+n ≤ (getHoldingCap env.ledger).val := by
    obtain ⟨auth, c⟩ := i
    cases c with
    | mintAsset admin recipient amount =>
      cases he
      rcases hcredit with hissue | ⟨sender, hmove⟩
      · cases hissue
        exact (mintAsset_ok.mp h).2.1.withinHolding hcap
      · cases hmove
    | transfer sender recipient amount =>
      cases he
      rcases hcredit with hissue | ⟨sender, hmove⟩
      · cases hissue
      · cases hmove
        exact (transfer_ok.mp h).2.1.withinHolding hcap
    | _ => cases he
  exact hnew.le.trans hbound

theorem issue_within_cap (h : Commits Call.body env i env')
    (hlt : (getTotalSupply env.ledger).val < (getTotalSupply env'.ledger).val)
    (hcap : 0 < (getSupplyCap env.ledger).val) :
    (getTotalSupply env'.ledger).val ≤ (getSupplyCap env.ledger).val := by
  have htotal : (bookOf env.ledger).total < (bookOf env'.ledger).total := hlt
  obtain ⟨e, he, -, hpost⟩ := posted_of_changed Book.total h htotal.ne'
  rw [hpost] at htotal
  obtain ⟨recipient, n, hissue, hnew⟩ := Book.issued htotal
  rw [← hpost] at hnew
  have hbound : (getTotalSupply env.ledger).val+n ≤ (getSupplyCap env.ledger).val := by
    obtain ⟨auth, c⟩ := i
    cases c with
    | mintAsset admin recipient amount =>
      cases he
      cases hissue
      exact (mintAsset_ok.mp h).2.1.withinSupply hcap
    | transfer sender recipient amount =>
      cases he
      cases hissue
    | _ => cases he
  exact hnew.le.trans hbound

/-- While a bound on every rise stays in force, a quantity ends below the
bound or where it started. -/
theorem bounded_segment {q : Env Address → ℤ} {cap : ℤ} {P : Env Address → Prop}
    (hstep : ∀ s i t, P s → Commits Call.body s i t → q s < q t → q t ≤ cap)
    (is : List (Signed Address)) {env : Env Address} (h : Throughout Call.body P is env) :
    q (run Call.body is env) ≤ max cap (q env) := by
  apply Throughout.relates (R := fun s t => q t ≤ max cap (q s)) _ _ _ is h
  · intro s
    exact le_max_right cap (q s)
  · intro s t u hst htu
    omega
  · intro s i t hs hc
    have hrise := hstep s i t hs hc
    omega

def Call.isCapGovernance : Call Address → Bool
  | .proposeSupplyCap _ _ | .acceptSupplyCap _ | .cancelSupplyCapProposal _ => true
  | .proposeHoldingCap _ _ | .acceptHoldingCap _ | .cancelHoldingCapProposal _ => true
  | _ => false

theorem caps_bind_credits (env : Env Address) :
    (∀ i env', Commits Call.body env i env' →
      (∀ a, (getBalanceOf a env.ledger).val < (getBalanceOf a env'.ledger).val →
        0 < (getHoldingCap env.ledger).val →
        (getBalanceOf a env'.ledger).val ≤ (getHoldingCap env.ledger).val) ∧
      ((getTotalSupply env.ledger).val < (getTotalSupply env'.ledger).val →
        0 < (getSupplyCap env.ledger).val →
        (getTotalSupply env'.ledger).val ≤ (getSupplyCap env.ledger).val) ∧
      (i.call.isCapGovernance = true →
        (∀ a, getBalanceOf a env'.ledger = getBalanceOf a env.ledger) ∧
          getTotalSupply env'.ledger = getTotalSupply env.ledger)) ∧
    ∀ is (cap : I128), 0 < cap.val →
      (Throughout Call.body (fun s => getHoldingCap s.ledger = cap) is env →
        ∀ a, (getBalanceOf a (run Call.body is env).ledger).val ≤
          max cap.val (getBalanceOf a env.ledger).val) ∧
      (Throughout Call.body (fun s => getSupplyCap s.ledger = cap) is env →
        (getTotalSupply (run Call.body is env).ledger).val ≤
          max cap.val (getTotalSupply env.ledger).val) := by
  constructor
  · intro i env' hc
    refine ⟨fun a => credit_within_cap hc,issue_within_cap hc,fun hgovern => ?_⟩
    have hentry : i.call.entry = none := by
      revert hgovern
      cases i.call <;> simp [Call.isCapGovernance, Call.entry]
    have hbook := unmoved hc hentry
    constructor
    · intro a
      exact CheckedInt.ext (congrFun (congrArg Book.holding hbook) a)
    · exact CheckedInt.ext (congrArg Book.total hbook)
  · intro is cap hpos
    constructor
    · intro hactive a
      apply bounded_segment (q := fun s => (getBalanceOf a s.ledger).val) _ is hactive
      intro s i t hs hc hlt
      have hbound := credit_within_cap hc hlt
      rw [hs] at hbound
      exact hbound hpos
    · intro hactive
      apply bounded_segment (q := fun s => (getTotalSupply s.ledger).val) _ is hactive
      intro s i t hs hc hlt
      have hbound := issue_within_cap hc hlt
      rw [hs] at hbound
      exact hbound hpos

end Aegis
