import Aegis.Conservation
import Aegis.Emission
import Aegis.HostKit.Journal

/-!
# Holdings read off the event log

Every committed mint and every committed transfer publishes one event, and
nothing else publishes one of the two. An indexer that posts them to an empty book
keeps the balances and the supply of the ledger.
-/

set_option autoImplicit false

namespace Aegis
open HostKit

variable {Address : Type}

def Event.entry : Event Address → Option (Book.Entry Address)
  | .assetMinted _ recipient amount _ => some (.issue recipient amount.val)
  | .transfer sender recipient amount => some (.move sender recipient amount.val)
  | _ => none

/-- The running supply a mint reports is the one after it. -/
def Event.Tallies : Event Address → Book Address → Prop
  | .assetMinted _ _ amount totalSupply, b => totalSupply.val = b.total+amount.val
  | _, _ => True

/-- The amount and the reported supply of a mint. -/
def Event.minted : Event Address → Option (I128 × I128)
  | .assetMinted _ _ amount totalSupply => some (amount,totalSupply)
  | _ => none

def mints (events : List (Event Address)) : List (I128 × I128) := events.filterMap Event.minted

def amountOf (ms : List (I128 × I128)) : ℤ := (ms.map fun m => m.1.val).sum

variable [DecidableEq Address]

def holdings : Machine (Event Address) (Book Address) where
  Admissible := Event.Tallies
  perform e b := match e.entry with
    | some entry => Book.post entry b
    | none => b

/-! ## Sums over the log -/

def Event.mintedTo (a : Address) : Event Address → ℤ
  | .assetMinted _ recipient amount _ => if recipient = a then amount.val else 0
  | _ => 0

def Event.movedTo (a : Address) : Event Address → ℤ
  | .transfer _ recipient amount => if recipient = a then amount.val else 0
  | _ => 0

def Event.movedFrom (a : Address) : Event Address → ℤ
  | .transfer sender _ amount => if sender = a then amount.val else 0
  | _ => 0

omit [DecidableEq Address] in
def tally (f : Event Address → ℤ) (events : List (Event Address)) : ℤ := (events.map f).sum

theorem replay_holding (a : Address) (events : List (Event Address)) (b : Book Address) :
    (holdings.replay events b).holding a =
      b.holding a+tally (Event.mintedTo a) events+tally (Event.movedTo a) events-
        tally (Event.movedFrom a) events := by
  induction events generalizing b with
  | nil => simp [Machine.replay, tally]
  | cons e events ih =>
    have hpost : (holdings.perform e b).holding a =
        b.holding a+e.mintedTo a+e.movedTo a-e.movedFrom a := by
      cases e with
      | assetMinted caller recipient amount totalSupply =>
        simp [holdings, Event.entry, Event.mintedTo, Event.movedTo, Event.movedFrom, Book.post,
          Book.adjust, eq_comm]
      | transfer sender recipient amount =>
        simp only [holdings, Event.entry, Event.mintedTo, Event.movedTo, Event.movedFrom,
          Book.post, Book.adjust, eq_comm (a := a)]
        split_ifs <;> omega
      | _ => simp [holdings, Event.entry, Event.mintedTo, Event.movedTo, Event.movedFrom]
    rw [Machine.replay, ih, hpost]
    simp only [tally, List.map_cons, List.sum_cons]
    omega

theorem replay_total (events : List (Event Address)) (b : Book Address) :
    (holdings.replay events b).total = b.total+amountOf (mints events) := by
  induction events generalizing b with
  | nil => simp [Machine.replay, mints, amountOf]
  | cons e events ih =>
    rw [Machine.replay, ih]
    cases e with
    | assetMinted caller recipient amount totalSupply =>
      simp only [holdings, Event.entry, Book.post, mints, Event.minted, amountOf,
        List.filterMap_cons, List.map_cons, List.sum_cons]
      omega
    | _ => rfl

/-- The supply a mint of an accepted log reports is what the mints up to it
issued. -/
theorem reported_supply {events : List (Event Address)} {b : Book Address}
    (h : holdings.Accepts events b) {k : ℕ} {m : I128 × I128} (hk : (mints events)[k]? = some m) :
    m.2.val = b.total+amountOf ((mints events).take (k+1)) := by
  induction events generalizing b k with
  | nil => simp [mints] at hk
  | cons e events ih =>
    obtain ⟨htally, hrest⟩ := h
    cases e with
    | assetMinted caller recipient amount totalSupply =>
      have hreport : totalSupply.val = b.total+amount.val := htally
      cases k with
      | zero =>
        cases hk
        simpa [mints, Event.minted, amountOf] using hreport
      | succ k =>
        have hlater := ih hrest (k := k) hk
        simp only [holdings, Event.entry, Book.post, mints, amountOf] at hlater
        simp only [mints, Event.minted, amountOf, List.filterMap_cons, List.take_succ_cons,
          List.map_cons, List.sum_cons]
        omega
    | _ => exact ih hrest hk

/-! ## The contract keeps the log -/

/-- An event without an entry says nothing of the book and leaves it alone. -/
theorem idle_of_entry {e : Event Address} (h : e.entry = none) (b : Book Address) :
    holdings.Admissible e b ∧ holdings.perform e b = b := by
  cases e with
  | assetMinted caller recipient amount totalSupply => cases h
  | transfer sender recipient amount => cases h
  | _ => exact ⟨trivial,rfl⟩

omit [DecidableEq Address] in
theorem emitted_entry {l : Ledger Address} {call : Call Address} (h : call.entry = none)
    {e : Event Address} (he : e ∈ call.emitted l) : e.entry = none := by
  cases e with
  | assetMinted caller recipient amount totalSupply =>
    revert h he
    cases call <;> simp [Call.emitted, Call.entry]
  | transfer sender recipient amount =>
    revert h he
    cases call <;> simp [Call.emitted, Call.entry]
  | _ => rfl

theorem commits_holdings {env env' : Env Address} {i : Signed Address}
    (h : Commits Call.body env i env') :
    holdings.Leads (i.call.emitted env.ledger) (bookOf env.ledger) (bookOf env'.ledger) := by
  have hadvance := commits_book h
  obtain ⟨auth, c⟩ := i
  cases hentry : c.entry with
  | none =>
    rw [unmoved h hentry]
    exact Machine.leads_idle fun e he => idle_of_entry (emitted_entry hentry he) _
  | some entry =>
    rw [hentry] at hadvance
    cases c with
    | mintAsset admin recipient amount =>
      obtain ⟨-, -, balance, supply, -, hsupply, -⟩ := mintAsset_ok.mp h
      cases hentry
      rw [Call.emitted, CheckedInt.checkedAdd_eq_some.mpr hsupply, hadvance.2]
      exact Machine.leads_single (m := holdings) hsupply.symm
    | transfer sender recipient amount =>
      cases hentry
      rw [Call.emitted, hadvance.2]
      exact Machine.leads_single (m := holdings) trivial
    | _ => cases hentry

theorem journaled_holdings : Machine.Journaled Call.body holdings Env.events
    fun env : Env Address => bookOf env.ledger :=
  fun env i _ h => ⟨i.call.emitted env.ledger,commits_emit h,commits_holdings h⟩

theorem holdings_from_events (is : List (Signed Address)) :
    (∀ a, (getBalanceOf a (run Call.body is Env.fresh).ledger).val =
      tally (Event.mintedTo a) (run Call.body is Env.fresh).events+
          tally (Event.movedTo a) (run Call.body is Env.fresh).events-
        tally (Event.movedFrom a) (run Call.body is Env.fresh).events) ∧
    (getTotalSupply (run Call.body is Env.fresh).ledger).val =
      amountOf (mints (run Call.body is Env.fresh).events) ∧
    (∀ k m, (mints (run Call.body is Env.fresh).events)[k]? = some m →
      m.2.val = amountOf ((mints (run Call.body is Env.fresh).events).take (k+1))) ∧
    (run Call.body is Env.fresh).events =
      ((trace Call.body is Env.fresh).flatMap fun t => t.via.call.emitted t.pre.ledger) ∧
    ∀ (i : Signed Address) (f : Failure) (t : Env Address),
      i.call.body.exec i.context (run Call.body is Env.fresh) = (.error f, t) →
      (settle Call.body (run Call.body is Env.fresh) i).events =
        (run Call.body is Env.fresh).events := by
  have hlog : holdings.Leads (run Call.body is Env.fresh).events Book.blank
      (bookOf (run Call.body is Env.fresh).ledger) :=
    journaled_holdings.run is (s := Env.fresh) (Machine.leads_nil (m := holdings) Book.blank)
  obtain ⟨haccepts, hbook⟩ := hlog
  refine ⟨fun a => ?_,?_,fun k m hk => ?_,events_of_run is Env.fresh,fun i f t hfail => ?_⟩
  · have hheld := replay_holding a (run Call.body is Env.fresh).events Book.blank
    rw [← hbook] at hheld
    simpa [Book.blank, bookOf] using hheld
  · have htotal := replay_total (run Call.body is Env.fresh).events Book.blank
    rw [← hbook] at htotal
    simpa [Book.blank, bookOf] using htotal
  · simpa [Book.blank] using reported_supply haccepts hk
  · rw [settle_of_error hfail]

end Aegis
