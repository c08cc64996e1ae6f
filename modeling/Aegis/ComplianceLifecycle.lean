import Aegis.StatusWrites

/-!
# The compliance lifecycle over runs

The documented matrix, the refinement of every call of the contract to one
of its edges, and what follows for whole runs: no user returns to the
initial status, and a blocked user is cleared again only after the admin of
that moment has moved the user to review.
-/

set_option autoImplicit false

namespace Aegis
open HostKit

def matrix : List (ComplianceStatus × ComplianceStatus) :=
  [(.unknown,.pending),(.unknown,.approved),(.unknown,.blocked),
    (.pending,.approved),(.pending,.revoked),(.pending,.blocked),
    (.approved,.pending),(.approved,.revoked),(.approved,.blocked),
    (.revoked,.pending),(.revoked,.approved),(.revoked,.blocked),
    (.blocked,.pending)]

theorem transitionIsAllowed_iff (current next : ComplianceStatus) :
    transitionIsAllowed current next = true ↔ (current,next) ∈ matrix := by
  cases current <;> cases next <;> decide

theorem not_into_unknown {current : ComplianceStatus} : (current,.unknown) ∉ matrix := by
  cases current <;> decide

theorem out_of_blocked {next : ComplianceStatus} (h : (.blocked,next) ∈ matrix) :
    next = .pending := by
  revert h
  cases next <;> decide

variable {Address : Type} [DecidableEq Address] {env env' : Env Address} {i : Signed Address}

/-- An authorised edge of the matrix out of one user's current status. -/
def Moves (signer user : Address) (l l' : Ledger Address) : Prop :=
  MayClear signer (getComplianceStatus user l) l ∧
    (getComplianceStatus user l,getComplianceStatus user l') ∈ matrix

theorem commits_moves (h : Commits Call.body env i env') (user : Address) :
    getComplianceStatus user env'.ledger = getComplianceStatus user env.ledger ∨
      Moves i.call.signer user env.ledger env'.ledger := by
  rcases commits_status h user with hkept | ⟨status, -, hwritten⟩
  · exact Or.inl hkept.status_eq
  · rw [Moves, hwritten.status_eq]
    exact Or.inr ⟨hwritten.cleared,(transitionIsAllowed_iff _ _).mp hwritten.edge⟩

/-! ## Runs -/

theorem never_unknown_again (is : List (Signed Address)) {env : Env Address} {user : Address}
    (h : getComplianceStatus user env.ledger ≠ .unknown) :
    getComplianceStatus user (run Call.body is env).ledger ≠ .unknown := by
  apply run_preserves (P := fun s : Env Address => getComplianceStatus user s.ledger ≠ .unknown) _
    is h
  intro s i t hs hc
  rcases commits_moves hc user with hsame | ⟨-, hedge⟩
  · rw [hsame]
    exact hs
  · intro hunknown
    rw [hunknown] at hedge
    exact not_into_unknown hedge

/-- The one way out of quarantine: the admin moves the user to review. -/
def Released (user : Address) (t : Transition (Auth Address) (Call Address) (Env Address)) :
    Prop :=
  getComplianceStatus user t.pre.ledger = .blocked ∧
    getComplianceStatus user t.post.ledger = .pending ∧
    IsAdmin t.via.call.signer t.pre.ledger ∧ t.via.context t.via.call.signer = true

theorem released_of_unblocked (is : List (Signed Address)) {env : Env Address} {user : Address}
    (hblocked : getComplianceStatus user env.ledger = .blocked)
    (hleft : getComplianceStatus user (run Call.body is env).ledger ≠ .blocked) :
    ∃ t ∈ trace Call.body is env, Released user t := by
  obtain ⟨t, hmem, hpre, hpost⟩ := exists_leaving
    (P := fun s : Env Address => getComplianceStatus user s.ledger = .blocked) is hblocked hleft
  have hc := (mem_trace hmem).2
  refine ⟨t,hmem,hpre,?_⟩
  rcases commits_moves hc user with hsame | ⟨hclear, hedge⟩
  · exact absurd (hsame.trans hpre) hpost
  · rw [hpre] at hclear hedge
    obtain ⟨admin, hadmin, hwho⟩ := hclear
    have hsigner : t.via.call.signer = admin := hwho.resolve_right fun hrole => hrole.2 rfl
    rw [← hsigner] at hadmin
    exact ⟨out_of_blocked hedge,hadmin,signer_authorised hc⟩

theorem compliance_lifecycle (env : Env Address) :
    (∀ (i : Signed Address) user,
      getComplianceStatus user (settle Call.body env i).ledger =
          getComplianceStatus user env.ledger ∨
        (getComplianceStatus user env.ledger,
          getComplianceStatus user (settle Call.body env i).ledger) ∈ matrix) ∧
    (∀ is user, getComplianceStatus user env.ledger ≠ .unknown →
      getComplianceStatus user (run Call.body is env).ledger ≠ .unknown) ∧
    ∀ is user, getComplianceStatus user env.ledger = .blocked →
      getComplianceStatus user (run Call.body is env).ledger = .approved →
      ∃ t ∈ trace Call.body is env,
        getComplianceStatus user t.pre.ledger = .blocked ∧
          getComplianceStatus user t.post.ledger = .pending ∧
          IsAdmin t.via.call.signer t.pre.ledger ∧ t.via.context t.via.call.signer = true := by
  refine ⟨fun i user => ?_,fun is user h => never_unknown_again is h,fun is user hb ha => ?_⟩
  · rcases settle_cases Call.body env i with ⟨hc, -⟩ | ⟨hstay, -⟩
    · exact (commits_moves hc user).imp_right And.right
    · exact Or.inl (by rw [hstay])
  · apply released_of_unblocked is hb
    rw [ha]
    decide

end Aegis
