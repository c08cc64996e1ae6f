import Aegis.HostKit.Host

/-!
# Runs of a hosted program

A hosted program answers each call with one computation. The host keeps the
state a committed invocation reached and discards the state of a failed
one. A run is any finite list of invocations; its trace lists the committed
ones with the states around them.
-/

set_option autoImplicit false

namespace HostKit

structure Invocation (ρ ι : Type) where
  context : ρ
  call : ι

structure Transition (ρ ι σ : Type) where
  pre : σ
  via : Invocation ρ ι
  post : σ

variable {ρ ε σ ι : Type} (body : ι → Host ρ ε σ Unit)

def Commits (s : σ) (i : Invocation ρ ι) (t : σ) : Prop :=
  (body i.call).exec i.context s = (.ok (), t)

def settle (s : σ) (i : Invocation ρ ι) : σ :=
  match (body i.call).exec i.context s with
  | (.ok _, t) => t
  | (.error _, _) => s

def run : List (Invocation ρ ι) → σ → σ
  | [], s => s
  | i::is, s => run is (settle body s i)

def trace : List (Invocation ρ ι) → σ → List (Transition ρ ι σ)
  | [], _ => []
  | i::is, s => match (body i.call).exec i.context s with
    | (.ok _, t) => ⟨s,i,t⟩ :: trace is t
    | (.error _, _) => trace is s

def Reachable (start s : σ) : Prop := ∃ is, run body is start = s

/-- A property that holds at every state of a run, both ends included. -/
def Throughout (P : σ → Prop) : List (Invocation ρ ι) → σ → Prop
  | [], s => P s
  | i::is, s => P s ∧ Throughout P is (settle body s i)

/-- A condition on the state before each invocation of a run and on the
invocation itself, committed or not. -/
def EachStep (C : σ → Invocation ρ ι → Prop) : List (Invocation ρ ι) → σ → Prop
  | [], _ => True
  | i::is, s => C s i ∧ EachStep C is (settle body s i)

variable {body}

theorem Commits.unique {s t u : σ} {i : Invocation ρ ι} (h : Commits body s i t)
    (h' : Commits body s i u) : t = u := by
  rw [Commits, show (body i.call).exec i.context s = _ from h] at h'
  cases h'
  rfl

/-- An invocation that fails commits to nothing. -/
theorem not_commits {s t u : σ} {i : Invocation ρ ι} {e : ε}
    (h : (body i.call).exec i.context s = (.error e, t)) : ¬Commits body s i u := by
  intro hc
  rw [Commits, h] at hc
  cases hc

theorem settle_of_commits {s t : σ} {i : Invocation ρ ι} (h : Commits body s i t) :
    settle body s i = t := by
  unfold settle
  rw [h]

theorem settle_of_error {s t : σ} {i : Invocation ρ ι} {e : ε}
    (h : (body i.call).exec i.context s = (.error e, t)) : settle body s i = s := by
  unfold settle
  rw [h]

variable (body) in
theorem settle_cases (s : σ) (i : Invocation ρ ι) :
    (Commits body s i (settle body s i) ∧
        ∀ is, trace body (i::is) s =
          ⟨s,i,settle body s i⟩ :: trace body is (settle body s i)) ∨
      (settle body s i = s ∧ ∀ is, trace body (i::is) s = trace body is s) := by
  unfold Commits settle
  rcases h : (body i.call).exec i.context s with ⟨e | u, t⟩
  · right
    exact ⟨rfl,fun is => by simp only [trace, h]⟩
  · left
    exact ⟨rfl,fun is => by simp only [trace, h]⟩

theorem trace_of_commits {s t : σ} {i : Invocation ρ ι} (h : Commits body s i t)
    (is : List (Invocation ρ ι)) : trace body (i::is) s = ⟨s,i,t⟩ :: trace body is t := by
  simp only [trace]
  rw [show (body i.call).exec i.context s = _ from h]

theorem run_append (is js : List (Invocation ρ ι)) (s : σ) :
    run body (is++js) s = run body js (run body is s) := by
  induction is generalizing s with
  | nil => rfl
  | cons i is ih => exact ih _

theorem trace_append (is js : List (Invocation ρ ι)) (s : σ) :
    trace body (is++js) s = trace body is s ++ trace body js (run body is s) := by
  induction is generalizing s with
  | nil => rfl
  | cons i is ih =>
    rcases settle_cases body s i with ⟨_, htrace⟩ | ⟨hstay, htrace⟩
    · rw [List.cons_append, htrace, htrace, ih]
      rfl
    · rw [List.cons_append, htrace, htrace, ih, run, hstay]

/-! What one committed invocation preserves, every run preserves. -/

/-- What holds now and would hold after a commit holds once the host settles. -/
theorem settle_preserves {P : σ → Prop} {s : σ} {i : Invocation ρ ι}
    (hstep : ∀ t, Commits body s i t → P t) (h : P s) : P (settle body s i) := by
  rcases settle_cases body s i with ⟨hc, _⟩ | ⟨hstay, _⟩
  · exact hstep _ hc
  · rw [hstay]
    exact h

theorem run_preserves {P : σ → Prop} (hstep : ∀ s i t, P s → Commits body s i t → P t)
    (is : List (Invocation ρ ι)) {s : σ} (h : P s) : P (run body is s) := by
  induction is generalizing s with
  | nil => exact h
  | cons i is ih =>
    apply ih
    exact settle_preserves (fun t hc => hstep s i t h hc) h

theorem Reachable.refl (s : σ) : Reachable body s s := ⟨[],rfl⟩

theorem Reachable.run {s t : σ} (h : Reachable body s t) (is : List (Invocation ρ ι)) :
    Reachable body s (run body is t) := by
  obtain ⟨js, rfl⟩ := h
  exact ⟨js++is,run_append js is s⟩

theorem Reachable.commits {s t u : σ} (h : Reachable body s t) {i : Invocation ρ ι}
    (hc : Commits body t i u) : Reachable body s u := by
  have := h.run [i]
  rwa [HostKit.run, HostKit.run, settle_of_commits hc] at this

/-- The invariant rule. The step may use that its source is reachable, so
one invariant can rest on others already established. -/
theorem Reachable.induct {P : σ → Prop} {start : σ} (h0 : P start)
    (hstep : ∀ s i t, Reachable body start s → P s → Commits body s i t → P t)
    {s : σ} (h : Reachable body start s) : P s := by
  obtain ⟨is, rfl⟩ := h
  have hboth : Reachable body start (HostKit.run body is start) ∧ P (HostKit.run body is start) :=
    run_preserves (P := fun s => Reachable body start s ∧ P s)
      (fun s i t hs hc => ⟨hs.1.commits hc,hstep s i t hs.1 hs.2 hc⟩) is ⟨Reachable.refl start,h0⟩
  exact hboth.2

/-- A relation that every committed step from a state with `P` establishes
joins both ends of a run whose states all have `P`. -/
theorem Throughout.relates {P : σ → Prop} {R : σ → σ → Prop} (hrefl : ∀ s, R s s)
    (htrans : ∀ s t u, R s t → R t u → R s u)
    (hstep : ∀ s i t, P s → Commits body s i t → R s t)
    (is : List (Invocation ρ ι)) {s : σ} (h : Throughout body P is s) :
    R s (run body is s) := by
  induction is generalizing s with
  | nil => exact hrefl s
  | cons i is ih =>
    have hfirst : R s (settle body s i) :=
      settle_preserves (fun t hc => hstep s i t h.1 hc) (hrefl s)
    exact htrans _ _ _ hfirst (ih h.2)

theorem Throughout.here {P : σ → Prop} {is : List (Invocation ρ ι)} {s : σ}
    (h : Throughout body P is s) : P s := by
  cases is with
  | nil => exact h
  | cons i is => exact h.1

theorem Throughout.suffix {P : σ → Prop} (is js : List (Invocation ρ ι)) {s : σ}
    (h : Throughout body P (is++js) s) : Throughout body P js (run body is s) := by
  induction is generalizing s with
  | nil => exact h
  | cons i is ih => exact ih h.2

theorem eachStep_of_forall {C : σ → Invocation ρ ι → Prop} (h : ∀ s i, C s i)
    (is : List (Invocation ρ ι)) (s : σ) : EachStep body C is s := by
  induction is generalizing s with
  | nil => trivial
  | cons i is ih => exact ⟨h s i,ih _⟩

theorem eachStep_of_mem {K : Invocation ρ ι → Prop} {is : List (Invocation ρ ι)}
    (h : ∀ i ∈ is, K i) (s : σ) : EachStep body (fun _ i => K i) is s := by
  induction is generalizing s with
  | nil => trivial
  | cons i is ih =>
    rw [List.forall_mem_cons] at h
    exact ⟨h.1,ih h.2 _⟩

theorem eachStep_append {C : σ → Invocation ρ ι → Prop} (is js : List (Invocation ρ ι)) (s : σ) :
    EachStep body C (is++js) s ↔ EachStep body C is s ∧ EachStep body C js (run body is s) := by
  induction is generalizing s with
  | nil => simp [EachStep, run]
  | cons i is ih => simp only [List.cons_append, EachStep, ih, run, and_assoc]

/-- A run that breaks the condition splits at the first step that does. -/
theorem exists_breaking {C : σ → Invocation ρ ι → Prop} (is : List (Invocation ρ ι)) {s : σ}
    (h : ¬EachStep body C is s) : ∃ js i ks, is = js++i::ks ∧ ¬C (run body js s) i := by
  induction is generalizing s with
  | nil => exact absurd trivial h
  | cons i is ih =>
    by_cases hi : C s i
    · obtain ⟨js, j, ks, rfl, hbreak⟩ := ih fun hrest => h ⟨hi,hrest⟩
      exact ⟨i::js,j,ks,rfl,hbreak⟩
    · exact ⟨[],i,is,rfl,hi⟩

theorem EachStep.preserves {C : σ → Invocation ρ ι → Prop} {P : σ → Prop}
    (hstep : ∀ s i t, C s i → P s → Commits body s i t → P t)
    (is : List (Invocation ρ ι)) {s : σ} (hC : EachStep body C is s) (h : P s) :
    P (run body is s) := by
  induction is generalizing s with
  | nil => exact h
  | cons i is ih =>
    apply ih hC.2
    exact settle_preserves (fun t hc => hstep s i t hC.1 h hc) h

/-- What each step keeps, given the condition, holds throughout. -/
theorem EachStep.throughout {C : σ → Invocation ρ ι → Prop} {P : σ → Prop}
    (hstep : ∀ s i t, C s i → P s → Commits body s i t → P t)
    {is : List (Invocation ρ ι)} {s : σ} (hC : EachStep body C is s) (h : P s) :
    Throughout body P is s := by
  induction is generalizing s with
  | nil => exact h
  | cons i is ih =>
    exact ⟨h,ih hC.2 (settle_preserves (fun t hc => hstep s i t hC.1 h hc) h)⟩

/-- The simulation rule: where a related state answers each commit with one to a
related state, it answers a run of commits. -/
theorem run_simulates {R : σ → σ → Prop} {K : Invocation ρ ι → Prop}
    (hstep : ∀ s s' i t, R s s' → K i → Commits body s i t → ∃ t', Commits body s' i t' ∧ R t t')
    {is : List (Invocation ρ ι)} (his : ∀ i ∈ is, K i) {s s' : σ}
    (hcommit : EachStep body (fun s i => ∃ t, Commits body s i t) is s) (h : R s s') :
    EachStep body (fun s i => ∃ t, Commits body s i t) is s' ∧
      R (run body is s) (run body is s') := by
  induction is generalizing s s' with
  | nil => exact ⟨trivial,h⟩
  | cons i is ih =>
    rw [List.forall_mem_cons] at his
    obtain ⟨⟨t, hc⟩, hrest⟩ := hcommit
    obtain ⟨t', hc', hrelated⟩ := hstep s s' i t h his.1 hc
    rw [settle_of_commits hc] at hrest
    obtain ⟨hcommits, hends⟩ := ih his.2 hrest hrelated
    refine ⟨⟨⟨t',hc'⟩,?_⟩,?_⟩
    · rwa [settle_of_commits hc']
    · rwa [run, run, settle_of_commits hc, settle_of_commits hc']

/-! The trace holds exactly the committed invocations of the run. -/

theorem mem_trace {is : List (Invocation ρ ι)} {s : σ} {t : Transition ρ ι σ}
    (h : t ∈ trace body is s) : Reachable body s t.pre ∧ Commits body t.pre t.via t.post := by
  induction is generalizing s with
  | nil => simp [trace] at h
  | cons i is ih =>
    rcases settle_cases body s i with ⟨hc, htrace⟩ | ⟨_, htrace⟩
    · rw [htrace, List.mem_cons] at h
      rcases h with rfl | h
      · exact ⟨Reachable.refl s,hc⟩
      · obtain ⟨⟨js, hjs⟩, hcommit⟩ := ih h
        exact ⟨⟨i::js,hjs⟩,hcommit⟩
    · rw [htrace] at h
      exact ih h

theorem EachStep.of_mem {C : σ → Invocation ρ ι → Prop} {is : List (Invocation ρ ι)} {s : σ}
    (hC : EachStep body C is s) {t : Transition ρ ι σ} (h : t ∈ trace body is s) :
    C t.pre t.via := by
  induction is generalizing s with
  | nil => simp [trace] at h
  | cons i is ih =>
    rcases settle_cases body s i with ⟨_, htrace⟩ | ⟨hstay, htrace⟩
    · rw [htrace, List.mem_cons] at h
      rcases h with rfl | h
      · exact hC.1
      · exact ih hC.2 h
    · rw [htrace] at h
      exact ih (hstay ▸ hC.2) h

/-- Up to any of its events the trace of a run is the trace of a run. -/
theorem exists_prefix {is : List (Invocation ρ ι)} {s : σ} {before after : List (Transition ρ ι σ)}
    {u : Transition ρ ι σ} (h : trace body is s = before++u::after) :
    ∃ js, trace body js s = before ∧ run body js s = u.pre ∧ Commits body u.pre u.via u.post := by
  induction is generalizing s before with
  | nil => simp [trace] at h
  | cons i is ih =>
    rcases settle_cases body s i with ⟨hc, htrace⟩ | ⟨hstay, htrace⟩
    · rw [htrace] at h
      cases before with
      | nil =>
        cases h
        exact ⟨[],rfl,rfl,hc⟩
      | cons b before =>
        obtain ⟨rfl, hrest⟩ := List.cons.inj h
        obtain ⟨js, hbefore, hrun, hu⟩ := ih hrest
        exact ⟨i::js,by rw [htrace, hbefore],hrun,hu⟩
    · rw [htrace] at h
      obtain ⟨js, hbefore, hrun, hu⟩ := ih h
      refine ⟨i::js,by rw [htrace, hbefore],?_,hu⟩
      rw [run, hstay, hrun]

/-- A run that starts with `P` and ends without it contains a committed
invocation at which `P` is lost. -/
theorem exists_leaving {P : σ → Prop} (is : List (Invocation ρ ι)) {s : σ} (hs : P s)
    (ht : ¬P (run body is s)) : ∃ t ∈ trace body is s, P t.pre ∧ ¬P t.post := by
  induction is generalizing s with
  | nil => exact absurd hs ht
  | cons i is ih =>
    rcases settle_cases body s i with ⟨_, htrace⟩ | ⟨hstay, htrace⟩
    · rw [htrace]
      by_cases hp : P (settle body s i)
      · obtain ⟨t, hmem, hleave⟩ := ih hp ht
        exact ⟨t,List.mem_cons_of_mem _ hmem,hleave⟩
      · exact ⟨_,List.mem_cons_self,hs,hp⟩
    · rw [run, hstay] at ht
      rw [htrace]
      exact ih hs ht

/-! The committed invocations of one kind. -/

variable (body) in
def occurrences (p : ι → Bool) (is : List (Invocation ρ ι)) (s : σ) : List (Transition ρ ι σ) :=
  (trace body is s).filter fun t => p t.via.call

theorem occurrences_append (p : ι → Bool) (is js : List (Invocation ρ ι)) (s : σ) :
    occurrences body p (is++js) s =
      occurrences body p is s++occurrences body p js (run body is s) := by
  rw [occurrences, trace_append, List.filter_append]
  rfl

theorem occurrences_of_commits {p : ι → Bool} {s t : σ} {i : Invocation ρ ι}
    (h : Commits body s i t) (hp : p i.call = true) (is : List (Invocation ρ ι)) :
    occurrences body p (i::is) s = ⟨s,i,t⟩ :: occurrences body p is t := by
  rw [occurrences, trace_of_commits h]
  exact List.filter_cons_of_pos hp

variable (body) in
theorem occurrences_cases (p : ι → Bool) (i : Invocation ρ ι) (is : List (Invocation ρ ι)) (s : σ) :
    (Commits body s i (settle body s i) ∧ p i.call = true ∧
        occurrences body p (i::is) s =
          ⟨s,i,settle body s i⟩ :: occurrences body p is (settle body s i)) ∨
      (Commits body s i (settle body s i) ∧ p i.call = false ∧
        occurrences body p (i::is) s = occurrences body p is (settle body s i)) ∨
      (settle body s i = s ∧
        occurrences body p (i::is) s = occurrences body p is (settle body s i)) := by
  unfold occurrences
  rcases settle_cases body s i with ⟨hc, htrace⟩ | ⟨hstay, htrace⟩
  · rw [htrace]
    cases hp : p i.call with
    | true => exact Or.inl ⟨hc,rfl,List.filter_cons_of_pos hp⟩
    | false => exact Or.inr (Or.inl ⟨hc,rfl,List.filter_cons_of_neg (by simp [hp])⟩)
  · refine Or.inr (Or.inr ⟨hstay,?_⟩)
    rw [htrace, hstay]

end HostKit
