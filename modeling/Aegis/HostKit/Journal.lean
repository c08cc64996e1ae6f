import Aegis.HostKit.Machine

/-!
# Journals

A program keeps a journal when the entries each committed call appends to it
can be performed one after another by a machine and lead from the view of
the state before the call to the view after. The journal of a whole run then
rebuilds the view from nothing else, and every entry in it was admissible
where the earlier ones lead.
-/

set_option autoImplicit false

namespace HostKit
namespace Machine
variable {E S : Type}

def replay (m : Machine E S) : List E → S → S
  | [], x => x
  | e::es, x => m.replay es (m.perform e x)

/-- Each entry is admissible where the earlier ones lead. -/
def Accepts (m : Machine E S) : List E → S → Prop
  | [], _ => True
  | e::es, x => m.Admissible e x ∧ m.Accepts es (m.perform e x)

def Leads (m : Machine E S) (es : List E) (x y : S) : Prop := m.Accepts es x ∧ y = m.replay es x

variable {m : Machine E S} {es fs : List E} {e : E} {x y z : S}

theorem replay_append (es fs : List E) (x : S) :
    m.replay (es++fs) x = m.replay fs (m.replay es x) := by
  induction es generalizing x with
  | nil => rfl
  | cons e es ih => exact ih _

theorem accepts_append (es fs : List E) (x : S) :
    m.Accepts (es++fs) x ↔ m.Accepts es x ∧ m.Accepts fs (m.replay es x) := by
  induction es generalizing x with
  | nil => simp [Accepts, replay]
  | cons e es ih => simp only [List.cons_append, Accepts, replay, ih, and_assoc]

theorem leads_nil (x : S) : m.Leads [] x x := ⟨trivial,rfl⟩

theorem leads_single (he : m.Admissible e x) : m.Leads [e] x (m.perform e x) :=
  ⟨⟨he,trivial⟩,rfl⟩

theorem leads_cons (he : m.Admissible e x) (h : m.Leads es (m.perform e x) y) :
    m.Leads (e::es) x y :=
  ⟨⟨he,h.1⟩,h.2⟩

theorem Leads.append (h : m.Leads es x y) (h' : m.Leads fs y z) : m.Leads (es++fs) x z := by
  obtain ⟨hes, rfl⟩ := h
  obtain ⟨hfs, rfl⟩ := h'
  exact ⟨(accepts_append es fs x).mpr ⟨hes,hfs⟩,(replay_append es fs x).symm⟩

/-- Entries that are admissible and change nothing where they stand. -/
theorem leads_idle (h : ∀ e ∈ es, m.Admissible e x ∧ m.perform e x = x) : m.Leads es x x := by
  induction es with
  | nil => exact leads_nil x
  | cons e es ih =>
    obtain ⟨he, hstay⟩ := h e List.mem_cons_self
    apply leads_cons he
    rw [hstay]
    exact ih fun e' he' => h e' (List.mem_cons_of_mem e he')

/-- A part of the state that no entry mixes with another is what the entries
on its topic make of it. -/
theorem replay_filter {V : Type} {f : S → V} {p : E → Bool}
    (hlocal : ∀ e x y, f x = f y → f (m.perform e x) = f (m.perform e y))
    (hoff : ∀ e x, p e = false → f (m.perform e x) = f x) (h : f x = f y) :
    f (m.replay es x) = f (m.replay (es.filter p) y) := by
  induction es generalizing x y with
  | nil => exact h
  | cons e es ih =>
    cases hp : p e with
    | false =>
      rw [List.filter_cons_of_neg (by simp [hp])]
      exact ih ((hoff e x hp).trans h)
    | true =>
      rw [List.filter_cons_of_pos hp]
      exact ih (hlocal e x y h)

/-- What no admissible entry changes is unchanged by the journal. -/
theorem Accepts.keeps {V : Type} {f : S → V}
    (hstep : ∀ e ∈ es, ∀ x, m.Admissible e x → f (m.perform e x) = f x) (h : m.Accepts es x) :
    f (m.replay es x) = f x := by
  induction es generalizing x with
  | nil => rfl
  | cons e es ih =>
    rw [List.forall_mem_cons] at hstep
    exact (ih hstep.2 h.2).trans (hstep.1 x h.1)

theorem Accepts.at_entry {before after : List E} (h : m.Accepts (before++e::after) x) :
    m.Admissible e (m.replay before x) :=
  ((accepts_append before (e::after) x).mp h).2.1

/-! ## Programs that keep a journal -/

section
variable {ρ ε σ ι : Type} {body : ι → Host ρ ε σ Unit} {journal : σ → List E} {view : σ → S}

def Journaled (body : ι → Host ρ ε σ Unit) (m : Machine E S) (journal : σ → List E)
    (view : σ → S) : Prop :=
  ∀ s i t, Commits body s i t → ∃ es, journal t = journal s++es ∧ m.Leads es (view s) (view t)

/-- What the journal of the starting state tells, the journal of the run
tells of its last state. -/
theorem Journaled.run (h : Journaled body m journal view) (is : List (Invocation ρ ι)) {s : σ}
    (hstart : m.Leads (journal s) x (view s)) :
    m.Leads (journal (run body is s)) x (view (run body is s)) := by
  apply run_preserves (P := fun s => m.Leads (journal s) x (view s)) _ is hstart
  intro s i t hs hc
  obtain ⟨es, happend, hleads⟩ := h s i t hc
  rw [happend]
  exact hs.append hleads

end
end Machine
end HostKit
