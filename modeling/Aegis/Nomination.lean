import Aegis.AdminRole
import Aegis.HostKit.History
import Aegis.Initialization
import Aegis.PauseFreeze

/-!
# Nominations

A nomination stays stored when the admin who made it renounces, and a new
initialisation does not clear it. On runs where nobody initialises over a
standing nomination, every acceptance is of a nomination by the admin of the
moment, who has been the admin ever since.
-/

set_option autoImplicit false

namespace Aegis
open HostKit

variable {Address : Type}

/-- The last committed nomination was of `b` by `a`, who has been the admin
from that call on. -/
def NominatedBy (a b : Address)
    (ts : List (Transition (Auth Address) (Call Address) (Env Address))) : Prop :=
  Since (fun t => t.via.call = .transferAdmin a b ∧ t.via.context a = true ∧
      IsAdmin a t.pre.ledger ∧ IsAdmin a t.post.ledger)
    (fun t => (∀ x y, t.via.call ≠ .transferAdmin x y) ∧
      IsAdmin a t.pre.ledger ∧ IsAdmin a t.post.ledger) ts

/-- An authorised initialisation of a contract that has no admin and still
stores a nomination. -/
def InheritsNomination (env : Env Address) (i : Signed Address) : Prop :=
  i.call.isInitialization = true ∧ i.context i.call.signer = true ∧
    env.ledger.get .admin = none ∧ env.ledger.get .adminCandidate ≠ none

theorem act_nominate {call : Call Address} {a b : Address} :
    call.act = some (.nominate a b) ↔ call = .transferAdmin a b := by
  cases call <;> simp [Call.act]

theorem act_found {call : Call Address} {a : Address} :
    call.act = some (.found a) ↔ call = .initializeContract a := by
  cases call <;> simp [Call.act]

/-- What is accepted right after an initialisation was not nominated by the
founder. -/
theorem not_nominated_by_founder {env env' : Env Address} {auth : Auth Address}
    {founder b : Address}
    (ts : List (Transition (Auth Address) (Call Address) (Env Address)))
    (hvacant : env.ledger.get .admin = none) :
    ¬NominatedBy founder b (ts++[⟨env,⟨auth,.initializeContract founder⟩,env'⟩]) := by
  rw [NominatedBy, since_snoc_iff]
  rintro (⟨hcall, -⟩ | ⟨-, -, hbefore, -⟩)
  · cases hcall
  · rw [IsAdmin, hvacant] at hbefore
    cases hbefore

variable [DecidableEq Address] {env env' : Env Address} {i : Signed Address}

/-- A stored nomination and a stored admin belong together. -/
def NominationStands (ts : List (Transition (Auth Address) (Call Address) (Env Address)))
    (env : Env Address) : Prop :=
  ∀ a b, IsAdmin a env.ledger → env.ledger.get .adminCandidate = some b → NominatedBy a b ts

theorem nomination_kept {ts : List (Transition (Auth Address) (Call Address) (Env Address))}
    (hnot : ¬InheritsNomination env i) (hs : NominationStands ts env)
    (h : Commits Call.body env i env') : NominationStands (ts++[⟨env,i,env'⟩]) env' := by
  intro a b hadmin hcandidate
  rcases Office.nominee_origin (commits_office h) hcandidate hadmin with
    ⟨hact, hbefore⟩ | ⟨hstanding, hother, hbefore | ⟨hfound, hvacant⟩⟩
  · have hcall := act_nominate.mp hact
    have hsigned := signer_authorised h
    rw [hcall] at hsigned
    exact since_last ts ⟨hcall,hsigned,hbefore,hadmin⟩
  · apply (hs a b hbefore hstanding).snoc
    exact ⟨fun x y hcall => hother x y (act_nominate.mpr hcall),hbefore,hadmin⟩
  · -- the founder would inherit what an earlier admin nominated
    have hcall := act_found.mp hfound
    have hinherits : env.ledger.get .adminCandidate ≠ none := by
      rw [show env.ledger.get .adminCandidate = some b from hstanding]
      simp
    exact absurd ⟨by rw [hcall]; rfl,signer_authorised h,hvacant,hinherits⟩ hnot

/-! ## Runs -/

/-- Whenever an acceptance commits, the admin of the moment made the
nomination and has been the admin since. -/
def NominationIntegrity (is : List (Signed Address)) : Prop :=
  ∀ js i rest a b env', is = js++i::rest → i.call = .acceptAdmin b →
    Commits Call.body (run Call.body js Env.fresh) i env' →
    IsAdmin a (run Call.body js Env.fresh).ledger →
    NominatedBy a b (trace Call.body js Env.fresh)

theorem integrity_of_no_inheritance {is : List (Signed Address)}
    (hC : EachStep Call.body (fun s i => ¬InheritsNomination s i) is Env.fresh) :
    NominationIntegrity is := by
  rintro js ⟨auth, c⟩ rest a b env' rfl hcall hc hadmin
  cases hcall
  have hstands : NominationStands (trace Call.body js Env.fresh) (run Call.body js Env.fresh) := by
    apply EachStep.history (fun ts s i t hnot hs hct => nomination_kept hnot hs hct) js
      ((eachStep_append js _ _).mp hC).1
    intro x y hx
    cases hx
  exact hstands a b hadmin (acceptAdmin_ok.mp hc).2.2.1

/-! ## Inheritance -/

theorem inherited_accepts {auth : Auth Address} {founder b : Address}
    (hrun : isPaused env.ledger = false) (hb : env.ledger.get .adminCandidate = some b)
    (h : Commits Call.body env ⟨auth,.initializeContract founder⟩ env') :
    IsAdmin founder env'.ledger ∧
      ∃ t, Commits Call.body env' ⟨fun _ => true,.acceptAdmin b⟩ t := by
  obtain ⟨-, -, rfl⟩ := initializeContract_ok.mp h
  refine ⟨by simp [IsAdmin],_,acceptAdmin_ok.mpr ⟨?_,rfl,?_,founder,by simp [IsAdmin],rfl⟩⟩
  · simpa [isPaused] using hrun
  · simpa using hb

theorem inherited_breaks {js : List (Signed Address)}
    (h : InheritsNomination (run Call.body js Env.fresh) i) :
    ∃ k, ¬NominationIntegrity (js++[i,k]) := by
  obtain ⟨auth, c⟩ := i
  obtain ⟨hinit, hauth, hvacant, hstanding⟩ := h
  cases c with
  | initializeContract founder =>
    have hrunning : isPaused (run Call.body js Env.fresh).ledger = false := by
      by_contra hp
      exact paused_has_admin ⟨js,rfl⟩ (Bool.not_eq_false _ ▸ hp) hvacant
    obtain ⟨b, hb⟩ := Option.ne_none_iff_exists'.mp hstanding
    have hc : Commits Call.body (run Call.body js Env.fresh) ⟨auth,.initializeContract founder⟩ _ :=
      initializeContract_ok.mpr ⟨hvacant,hauth,rfl⟩
    obtain ⟨hadmin, t, haccept⟩ := inherited_accepts hrunning hb hc
    have hrun := (run_append js [⟨auth,.initializeContract founder⟩] Env.fresh).trans
      (settle_of_commits hc)
    rw [← hrun] at hadmin haccept
    refine ⟨⟨fun _ => true,.acceptAdmin b⟩,fun hintegrity => ?_⟩
    have hnominated := hintegrity (js++[_]) _ [] founder b t (by simp) rfl haccept hadmin
    rw [trace_append, trace_of_commits hc] at hnominated
    exact not_nominated_by_founder _ hvacant hnominated
  | _ => cases hinit

theorem nomination_integrity :
    (∀ is : List (Signed Address),
      EachStep Call.body (fun s i => ¬InheritsNomination s i) is Env.fresh →
      NominationIntegrity is) ∧
    ∀ (js : List (Signed Address)) i, InheritsNomination (run Call.body js Env.fresh) i →
      ∃ k, ¬NominationIntegrity (js++[i,k]) :=
  ⟨fun _ hC => integrity_of_no_inheritance hC,fun _ _ h => inherited_breaks h⟩

/-- The first admin nominates and renounces, and a second one initialises. -/
def inheritance : List (Signed ℕ) :=
  [⟨fun a => a = 0,.initializeContract 0⟩,
    ⟨fun a => a = 0,.transferAdmin 0 5⟩,
    ⟨fun a => a = 0,.renounceAdmin 0⟩,
    ⟨fun a => a = 7,.initializeContract 7⟩]

theorem inheritance_accepted :
    ¬NominationIntegrity (inheritance++[⟨fun a => a = 5,.acceptAdmin 5⟩]) := by
  intro h
  have hc : Commits Call.body (run Call.body inheritance Env.fresh)
      ⟨fun a => a = 5,.acceptAdmin 5⟩ _ := rfl
  have hnominated := h inheritance _ [] 7 5 _ rfl rfl hc rfl
  have hvacant : (run Call.body (inheritance.take 3) Env.fresh).ledger.get .admin = none := rfl
  exact not_nominated_by_founder (trace Call.body (inheritance.take 3) Env.fresh) hvacant hnominated

end Aegis
