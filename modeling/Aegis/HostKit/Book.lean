import Mathlib.Algebra.BigOperators.Finprod
import Mathlib.Algebra.Order.Group.Int

/-!
# Account books

A book records a signed holding for every account of an arbitrary type and
a separately kept total. Entries either issue new units or move units
between two accounts, which may be the same account. A sound book has no
debtor, finitely many holders, and a total equal to the sum it abbreviates.
-/

set_option autoImplicit false

namespace HostKit

@[ext]
structure Book (A : Type) where
  holding : A → ℤ
  total : ℤ

namespace Book
variable {A : Type}

structure Sound (b : Book A) : Prop where
  nonneg : ∀ a, 0 ≤ b.holding a
  finite : b.holding.HasFiniteSupport
  balanced : ∑ᶠ a, b.holding a = b.total

def blank : Book A := ⟨fun _ => 0,0⟩

theorem blank_sound : (blank : Book A).Sound where
  nonneg _ := le_refl 0
  finite := by simp [blank, Function.HasFiniteSupport, Function.support]
  balanced := finsum_zero

variable [DecidableEq A]

def adjust (f : A → ℤ) (a : A) (d : ℤ) : A → ℤ := fun x => f x+if x = a then d else 0

@[simp] theorem adjust_self (f : A → ℤ) (a : A) (d : ℤ) : adjust f a d a = f a+d := by
  simp [adjust]

@[simp] theorem adjust_of_ne (f : A → ℤ) {a x : A} (d : ℤ) (h : x ≠ a) : adjust f a d x = f x := by
  simp [adjust, h]

theorem spike_finite (a : A) (d : ℤ) :
    (fun x => if x = a then d else 0 : A → ℤ).HasFiniteSupport := by
  apply (Set.finite_singleton a).subset
  intro x hx
  by_contra hne
  exact hx (if_neg hne)

theorem spike_sum (a : A) (d : ℤ) : ∑ᶠ x, (if x = a then d else 0) = d := by
  rw [finsum_eq_single _ a (fun x hx => if_neg hx), if_pos rfl]

theorem adjust_finite {f : A → ℤ} (hf : f.HasFiniteSupport) (a : A) (d : ℤ) :
    (adjust f a d).HasFiniteSupport := hf.add (spike_finite a d)

theorem adjust_sum {f : A → ℤ} (hf : f.HasFiniteSupport) (a : A) (d : ℤ) :
    ∑ᶠ x, adjust f a d x = ∑ᶠ x, f x+d := by
  unfold adjust
  rw [finsum_add_distrib hf (spike_finite a d), spike_sum]

theorem Sound.holding_le_total {b : Book A} (h : b.Sound) (a : A) : b.holding a ≤ b.total := by
  rw [← h.balanced, ← spike_sum a (b.holding a)]
  apply finsum_le_finsum' (spike_finite a _) h.finite
  intro x
  by_cases hx : x = a
  · simp [hx]
  · simpa [hx] using h.nonneg x

omit [DecidableEq A] in
/-- What one account lacks of the total is held by others. -/
theorem Sound.exists_other {b : Book A} (h : b.Sound) {a : A} (hlt : b.holding a < b.total) :
    ∃ c, c ≠ a ∧ 0 < b.holding c := by
  by_contra hnone
  apply hlt.ne
  rw [← h.balanced, finsum_eq_single _ a]
  intro c hc
  by_contra hne
  exact hnone ⟨c,hc,lt_of_le_of_ne (h.nonneg c) (Ne.symm hne)⟩

inductive Entry (A : Type) where
  | issue (recipient : A) (amount : ℤ)
  | move (sender recipient : A) (amount : ℤ)
  deriving DecidableEq

def post : Entry A → Book A → Book A
  | .issue recipient n, b => ⟨adjust b.holding recipient n,b.total+n⟩
  | .move sender recipient n, b => ⟨adjust (adjust b.holding sender (-n)) recipient n,b.total⟩

def Admissible : Entry A → Book A → Prop
  | .issue _ n, _ => 0 ≤ n
  | .move sender _ n, b => 0 ≤ n ∧ n ≤ b.holding sender

theorem post_sound {b : Book A} (h : b.Sound) {e : Entry A} (he : Admissible e b) :
    (post e b).Sound := by
  cases e with
  | issue recipient n =>
    refine ⟨fun a => ?_,adjust_finite h.finite recipient n,?_⟩
    · have ha := h.nonneg a
      have hn : 0 ≤ n := he
      by_cases hat : a = recipient
      · subst hat
        simp only [post, adjust_self]
        omega
      · simpa [post, hat] using ha
    · rw [post, adjust_sum h.finite, h.balanced]
  | move sender recipient n =>
    obtain ⟨hn, hcover⟩ := he
    have hdebit := adjust_finite h.finite sender (-n)
    refine ⟨fun a => ?_,adjust_finite hdebit recipient n,?_⟩
    · have ha := h.nonneg a
      simp only [post, adjust]
      split_ifs <;> subst_vars <;> omega
    · rw [post, adjust_sum hdebit, adjust_sum h.finite, h.balanced]
      exact neg_add_cancel_right b.total n

/-- Two different accounts hold at most the total together. -/
theorem Sound.pair_le_total {b : Book A} (h : b.Sound) {a c : A} (hne : a ≠ c) :
    b.holding a+b.holding c ≤ b.total := by
  have hmoved := post_sound h (e := .move a c (b.holding a)) ⟨h.nonneg a,le_refl _⟩
  have hc := hmoved.holding_le_total c
  simp only [post, adjust_self, adjust_of_ne _ _ hne.symm] at hc
  omega

def Entry.parties : Entry A → Set A
  | .issue recipient _ => {recipient}
  | .move sender recipient _ => {sender, recipient}

theorem post_of_not_party {e : Entry A} {b : Book A} {a : A} (h : a ∉ e.parties) :
    (post e b).holding a = b.holding a := by
  cases e with
  | issue recipient n =>
    have hne : a ≠ recipient := h
    simp [post, hne]
  | move sender recipient n =>
    have hs : a ≠ sender := fun hs => h (Or.inl hs)
    have hr : a ≠ recipient := fun hr => h (Or.inr hr)
    simp [post, hs, hr]

/-- Who holds no less before an entry holds no less after it. -/
theorem post_holding_le (e : Entry A) {b b' : Book A} {a : A} (h : b.holding a ≤ b'.holding a) :
    (post e b).holding a ≤ (post e b').holding a := by
  cases e <;> simp only [post, adjust] <;> omega

theorem post_total_congr (e : Entry A) {b b' : Book A} (h : b.total = b'.total) :
    (post e b).total = (post e b').total := by
  cases e <;> simp only [post, h]

/-- Only the sender of a move is ever debited. -/
theorem debited {e : Entry A} {b : Book A} (he : Admissible e b) {a : A}
    (h : (post e b).holding a < b.holding a) :
    ∃ recipient n, e = .move a recipient n ∧ recipient ≠ a := by
  cases e with
  | issue recipient n =>
    have hn : 0 ≤ n := he
    simp only [post, adjust] at h
    split_ifs at h <;> omega
  | move sender recipient n =>
    obtain ⟨hn, -⟩ := he
    simp only [post, adjust] at h
    have hs : a = sender := by
      by_contra hs
      rw [if_neg hs] at h
      split_ifs at h <;> omega
    subst hs
    refine ⟨recipient,n,rfl,fun ht => ?_⟩
    rw [if_pos rfl, if_pos ht.symm] at h
    omega

/-- Only the receiver of an entry is ever credited, with exactly its amount. -/
theorem credited {e : Entry A} {b : Book A} (he : Admissible e b) {a : A}
    (h : b.holding a < (post e b).holding a) :
    ∃ n, (e = .issue a n ∨ ∃ sender, e = .move sender a n) ∧
      (post e b).holding a = b.holding a+n := by
  cases e with
  | issue recipient n =>
    have ha : a = recipient := by
      by_contra hne
      exact h.ne (post_of_not_party (e := .issue recipient n) hne).symm
    subst ha
    exact ⟨n,Or.inl rfl,adjust_self _ _ _⟩
  | move sender recipient n =>
    obtain ⟨hn, -⟩ := he
    simp only [post, adjust] at h
    have ha : a = recipient := by
      by_contra hr
      rw [if_neg hr] at h
      split_ifs at h <;> omega
    subst ha
    have hs : a ≠ sender := by
      intro hs
      rw [if_pos hs, if_pos rfl] at h
      omega
    refine ⟨n,Or.inr ⟨sender,rfl⟩,?_⟩
    simp [post, hs]

/-- Only an issue raises the total, by exactly its amount. -/
theorem issued {e : Entry A} {b : Book A} (h : b.total < (post e b).total) :
    ∃ recipient n, e = .issue recipient n ∧ (post e b).total = b.total+n := by
  cases e with
  | issue recipient n => exact ⟨recipient,n,rfl,rfl⟩
  | move sender recipient n => exact absurd h (lt_irrefl _)

theorem total_le_post {e : Entry A} {b : Book A} (he : Admissible e b) :
    b.total ≤ (post e b).total := by
  cases e with
  | issue recipient n => exact le_add_of_nonneg_right he
  | move sender recipient n => exact le_refl _

/-! A step of a system either posts one admissible entry or leaves the book
alone. -/

def Advances : Option (Entry A) → Book A → Book A → Prop
  | none, b, b' => b' = b
  | some e, b, b' => Admissible e b ∧ b' = post e b

theorem Advances.sound {e : Option (Entry A)} {b b' : Book A} (h : Advances e b b')
    (hb : b.Sound) : b'.Sound := by
  cases e with
  | none =>
    rw [show b' = b from h]
    exact hb
  | some e =>
    rw [h.2]
    exact post_sound hb h.1

theorem Advances.total_le {e : Option (Entry A)} {b b' : Book A} (h : Advances e b b') :
    b.total ≤ b'.total := by
  cases e with
  | none => rw [show b' = b from h]
  | some e =>
    rw [h.2]
    exact total_le_post h.1

/-! A group that sends every move gains no more than is issued. -/

theorem sum_adjust (G : Finset A) (f : A → ℤ) (a : A) (d : ℤ) :
    ∑ x ∈ G, adjust f a d x = ∑ x ∈ G, f x+if a ∈ G then d else 0 := by
  simp only [adjust, Finset.sum_add_distrib, Finset.sum_ite_eq']

theorem Advances.joint_gain {G : Finset A} {e : Option (Entry A)} {b b' : Book A}
    (h : Advances e b b') (hsender : ∀ s r n, e = some (.move s r n) → s ∈ G) :
    ∑ x ∈ G, b'.holding x+b.total ≤ ∑ x ∈ G, b.holding x+b'.total := by
  rcases e with - | ⟨recipient, n⟩ | ⟨sender, recipient, n⟩
  · rw [show b' = b from h]
  · obtain ⟨hn, rfl⟩ := h
    have hn : 0 ≤ n := hn
    simp only [post, sum_adjust]
    split_ifs <;> omega
  · obtain ⟨⟨hn, -⟩, rfl⟩ := h
    simp only [post, sum_adjust, if_pos (hsender sender recipient n rfl)]
    split_ifs <;> omega

/-! Entries adjust holdings by fixed amounts, so their order does not matter
and two of one kind between the same parties add up. -/

theorem adjust_comm (f : A → ℤ) (a c : A) (m n : ℤ) :
    adjust (adjust f a m) c n = adjust (adjust f c n) a m := by
  funext x
  exact add_right_comm _ _ _

theorem adjust_adjust (f : A → ℤ) (a : A) (m n : ℤ) :
    adjust (adjust f a m) a n = adjust f a (m+n) := by
  funext x
  simp only [adjust]
  split_ifs <;> omega

theorem post_comm (e e' : Entry A) (b : Book A) : post e (post e' b) = post e' (post e b) := by
  ext x
  · cases e <;> cases e' <;> simp only [post, adjust] <;> omega
  · cases e <;> cases e' <;> simp only [post]
    exact add_right_comm _ _ _

theorem post_issue_add (recipient : A) (m n : ℤ) (b : Book A) :
    post (.issue recipient n) (post (.issue recipient m) b) = post (.issue recipient (m+n)) b := by
  simp only [post, adjust_adjust, add_assoc]

theorem post_move_add (sender recipient : A) (m n : ℤ) (b : Book A) :
    post (.move sender recipient n) (post (.move sender recipient m) b) =
      post (.move sender recipient (m+n)) b := by
  simp only [post, adjust_comm _ recipient sender, adjust_adjust, neg_add]

def replay : List (Entry A) → Book A → Book A
  | [], b => b
  | e::es, b => replay es (post e b)

theorem replay_append (es fs : List (Entry A)) (b : Book A) :
    replay (es++fs) b = replay fs (replay es b) := by
  induction es generalizing b with
  | nil => rfl
  | cons e es ih => exact ih _

end Book
end HostKit
