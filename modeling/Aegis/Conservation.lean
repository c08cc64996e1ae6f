import Aegis.HostKit.Book
import Aegis.System

/-!
# Conservation

The balances and the supply of a ledger form a book. A mint issues units, a
transfer moves them, and no other call posts anything, so a run of the
contract is the replay of the entries of its committed movements.
-/

set_option autoImplicit false

namespace Aegis
open HostKit

variable {Address : Type}

def bookOf (l : Ledger Address) : Book Address :=
  ⟨fun a => (getBalanceOf a l).val,(getTotalSupply l).val⟩

def Call.entry : Call Address → Option (Book.Entry Address)
  | .mintAsset _ recipient amount => some (.issue recipient amount.val)
  | .transfer sender recipient amount => some (.move sender recipient amount.val)
  | _ => none

variable [DecidableEq Address] {env env' : Env Address} {i : Signed Address}

/-- Writing one balance adjusts one account, whichever account it is. -/
theorem bookOf_set_balance {l : Ledger Address} {a : Address} {d : ℤ} {v : I128}
    (h : (getBalanceOf a l).val+d = v.val) :
    bookOf (l.set (.balance a) v) = ⟨Book.adjust (bookOf l).holding a d,(bookOf l).total⟩ := by
  ext x
  · simp only [bookOf, getBalanceOf, get_set_balance, Book.adjust]
    split_ifs with hx
    · subst hx
      exact h.symm
    · exact (add_zero _).symm
  · simp [bookOf, getTotalSupply]

theorem bookOf_set_totalSupply {l : Ledger Address} {d : ℤ} {v : I128}
    (h : (getTotalSupply l).val+d = v.val) :
    bookOf (l.set .totalSupply v) = ⟨(bookOf l).holding,(bookOf l).total+d⟩ := by
  ext x
  · simp [bookOf, getBalanceOf]
  · simp only [bookOf, getTotalSupply, Store.get_set_self, Option.getD_some]
    exact h.symm

omit [DecidableEq Address] in
theorem bookOf_congr {l l' : Ledger Address}
    (hbalance : ∀ a, l'.get (.balance a) = l.get (.balance a))
    (hsupply : l'.get .totalSupply = l.get .totalSupply) : bookOf l' = bookOf l := by
  ext x
  · simp [bookOf, getBalanceOf, hbalance]
  · simp [bookOf, getTotalSupply, hsupply]

theorem unmoved (h : Commits Call.body env i env') (hentry : i.call.entry = none) :
    bookOf env'.ledger = bookOf env.ledger := by
  apply bookOf_congr
  · intro a
    apply commits_unchanged h
    revert hentry
    cases i.call <;> simp [Call.entry, Call.writes, statusKeys]
  · apply commits_unchanged h
    revert hentry
    cases i.call <;> simp [Call.entry, Call.writes, statusKeys]

/-- The contract refines the book: each committed call posts its own entry. -/
theorem commits_book (h : Commits Call.body env i env') :
    Book.Advances i.call.entry (bookOf env.ledger) (bookOf env'.ledger) := by
  obtain ⟨auth, c⟩ := i
  cases c with
  | mintAsset admin recipient amount =>
    obtain ⟨-, hmintable, balance, supply, hbalance, hsupply, rfl⟩ := mintAsset_ok.mp h
    refine ⟨hmintable.positive.le,?_⟩
    have hissued : (getTotalSupply (env.ledger.set (.balance recipient) balance)).val+amount.val =
        supply.val := by
      rw [← hsupply]
      simp [getTotalSupply]
    rw [bookOf_set_totalSupply hissued, bookOf_set_balance hbalance]
    rfl
  | transfer sender recipient amount =>
    obtain ⟨-, hmovable, debited, credited, hdebit, hcredit, rfl⟩ := transfer_ok.mp h
    refine ⟨⟨hmovable.positive.le,hmovable.covered⟩,?_⟩
    rw [bookOf_set_balance hcredit, bookOf_set_balance (d := -amount.val) hdebit]
    rfl
  | _ => exact unmoved h rfl

theorem reachable_sound (h : Reachable Call.body Env.fresh env) : (bookOf env.ledger).Sound := by
  refine h.induct (P := fun s : Env Address => (bookOf s.ledger).Sound) ?_ ?_
  · exact Book.blank_sound
  · intro s i t _ hs hc
    exact (commits_book hc).sound hs

theorem totalSupply_le_run (is : List (Signed Address)) (env : Env Address) :
    (getTotalSupply env.ledger).val ≤ (getTotalSupply (run Call.body is env).ledger).val :=
  run_preserves (P := fun s : Env Address => (bookOf env.ledger).total ≤ (bookOf s.ledger).total)
    (fun _ _ _ hs hc => hs.trans (commits_book hc).total_le) is le_rfl

theorem conservation (h : Reachable Call.body Env.fresh env) :
    (∀ a, 0 ≤ (getBalanceOf a env.ledger).val) ∧
      {a | (getBalanceOf a env.ledger).val ≠ 0}.Finite ∧
      ∑ᶠ a, (getBalanceOf a env.ledger).val = (getTotalSupply env.ledger).val ∧
      ∀ is, (getTotalSupply env.ledger).val ≤
        (getTotalSupply (run Call.body is env).ledger).val := by
  have hsound := reachable_sound h
  exact ⟨hsound.nonneg,hsound.finite,hsound.balanced,fun is => totalSupply_le_run is env⟩

theorem conservation_deployed : ∑ᶠ a, (getBalanceOf a deployed.ledger).val = 5 :=
  (conservation ⟨deployment,rfl⟩).2.2.1.trans (by decide)

end Aegis
