import Aegis.HostKit.Office
import Aegis.System

/-!
# The admin key and the role table

The admin key, the candidate and the roles form an office whose own rank is
the admin role. Every call performs one act of the office or none, so what
the two tables have to do with each other is read off the office.
-/

set_option autoImplicit false

namespace Aegis
open HostKit

variable {Address : Type}

def officeOf (l : Ledger Address) : Office Address Role :=
  ⟨l.get .admin,l.get .adminCandidate,fun a => getRole a l⟩

def Call.act : Call Address → Option (Office.Act Address Role)
  | .initializeContract admin => some (.found admin)
  | .setRole admin target role => some (.assign admin target role)
  | .removeRole admin target => some (.assign admin target .none)
  | .transferAdmin admin candidate => some (.nominate admin candidate)
  | .acceptAdmin candidate => some (.accede candidate)
  | .renounceAdmin admin => some (.vacate admin)
  | _ => none

variable [DecidableEq Address] {env env' : Env Address} {i : Signed Address}

/-! ## The contract refines the office -/

section
variable (l : Ledger Address) (a : Address)

theorem officeOf_set_admin : officeOf (l.set .admin a) = { officeOf l with holder := some a } := by
  ext1 <;> simp [officeOf, getRole]

theorem officeOf_remove_admin :
    officeOf (l.remove .admin) = { officeOf l with holder := none } := by
  ext1 <;> simp [officeOf, getRole]

theorem officeOf_set_candidate :
    officeOf (l.set .adminCandidate a) = { officeOf l with nominee := some a } := by
  ext1 <;> simp [officeOf, getRole]

theorem officeOf_remove_candidate :
    officeOf (l.remove .adminCandidate) = { officeOf l with nominee := none } := by
  ext1 <;> simp [officeOf, getRole]

theorem officeOf_set_role (role : Role) : officeOf (l.set (.role a) role) =
    { officeOf l with rank := Function.update (officeOf l).rank a role } := by
  ext1
  · simp [officeOf]
  · simp [officeOf]
  · funext b
    by_cases h : b = a
    · subst h
      simp [officeOf, getRole]
    · simp [officeOf, getRole, h]

end

theorem office_unmoved (h : Commits Call.body env i env') (hact : i.call.act = none) :
    officeOf env'.ledger = officeOf env.ledger := by
  have hkeys : .admin ∉ i.call.writes env.ledger ∧ .adminCandidate ∉ i.call.writes env.ledger ∧
      ∀ a, .role a ∉ i.call.writes env.ledger := by
    revert hact
    cases i.call <;> simp [Call.act, Call.writes, statusKeys]
  obtain ⟨hadmin, hcandidate, hrole⟩ := hkeys
  ext1
  · exact commits_unchanged h hadmin
  · exact commits_unchanged h hcandidate
  · funext a
    simp only [officeOf, getRole]
    rw [commits_unchanged h (hrole a)]

theorem commits_office (h : Commits Call.body env i env') :
    (Office.machine .admin .none).Advances i.call.act (officeOf env.ledger)
      (officeOf env'.ledger) := by
  obtain ⟨auth, c⟩ := i
  cases c with
  | initializeContract admin =>
    obtain ⟨hnone, -, rfl⟩ := initializeContract_ok.mp h
    refine ⟨hnone,?_⟩
    rw [officeOf_set_role, officeOf_set_admin]
    rfl
  | setRole admin target role =>
    obtain ⟨hgoverns, hrole, rfl⟩ := setRole_ok.mp h
    exact ⟨⟨hgoverns.2.2,hrole⟩,officeOf_set_role env.ledger target role⟩
  | removeRole admin target =>
    obtain ⟨hgoverns, -, rfl⟩ := removeRole_ok.mp h
    exact ⟨⟨hgoverns.2.2,by simp⟩,officeOf_set_role env.ledger target .none⟩
  | transferAdmin admin candidate =>
    obtain ⟨hgoverns, rfl⟩ := transferAdmin_ok.mp h
    exact ⟨hgoverns.2.2,officeOf_set_candidate env.ledger candidate⟩
  | acceptAdmin candidate =>
    obtain ⟨-, -, hstored, previous, hadmin, rfl⟩ := acceptAdmin_ok.mp h
    have hholder : (officeOf env.ledger).holder = some previous := hadmin
    refine ⟨⟨by simp [hholder],hstored⟩,?_⟩
    rw [officeOf_set_role, officeOf_set_role, officeOf_set_admin, officeOf_remove_candidate]
    simp only [Office.machine, Office.perform, Office.outgoing_of_holder hholder]
  | renounceAdmin admin =>
    obtain ⟨hgoverns, rfl⟩ := renounceAdmin_ok.mp h
    have hholder : (officeOf env.ledger).holder = some admin := hgoverns.2.2
    refine ⟨hholder,?_⟩
    rw [officeOf_set_role, officeOf_remove_admin]
    simp only [Office.machine, Office.perform, Office.outgoing_of_holder hholder]
  | _ => exact office_unmoved h rfl

theorem refines_office : Machine.Refines Call.body (Office.machine .admin .none)
    (fun env : Env Address => officeOf env.ledger) Call.act := fun _ _ _ h => commits_office h

/-! ## No residual admin role -/

theorem reachable_sole (h : Reachable Call.body Env.fresh env) :
    Office.Sole .admin (officeOf env.ledger) := by
  apply refines_office.reachable (P := Office.Sole .admin) _ _ h
  · intro act o ha ho
    exact Office.perform_sole (by decide) ho ha
  · intro a ha
    cases ha

theorem no_residual_admin (h : Reachable Call.body Env.fresh env) :
    (∀ x, getRole x env.ledger = .admin → IsAdmin x env.ledger) ∧
      (∀ x y, getRole x env.ledger = .admin → getRole y env.ledger = .admin → x = y) ∧
      ∀ x, ¬IsAdmin x env.ledger → getRole x env.ledger ≠ .admin := by
  have hsole : ∀ x, getRole x env.ledger = .admin → IsAdmin x env.ledger := reachable_sole h
  refine ⟨hsole,fun x y hx hy => ?_,fun x hx hrole => hx (hsole x hrole)⟩
  have hsame := (hsole x hx).symm.trans (hsole y hy)
  exact Option.some.inj hsame

theorem no_residual_admin_deployed :
    IsAdmin 0 deployed.ledger ∧ getRole 1 deployed.ledger ≠ .admin :=
  ⟨(no_residual_admin ⟨deployment,rfl⟩).1 0 rfl,
    (no_residual_admin ⟨deployment,rfl⟩).2.2 1 (by rw [IsAdmin]; decide)⟩

/-! ## The role of the admin -/

/-- The admin takes the admin role from itself. -/
def Demotes (env : Env Address) (i : Signed Address) : Prop :=
  ∃ admin, Governs i.context admin env.ledger ∧
    ((∃ role, role ≠ .admin ∧ i.call = .setRole admin admin role) ∨
      i.call = .removeRole admin admin)

def AdminRanked (env : Env Address) : Prop :=
  ∀ a, IsAdmin a env.ledger → getRole a env.ledger = .admin

theorem ranked_kept (hnot : ¬Demotes env i) (hs : AdminRanked env)
    (h : Commits Call.body env i env') : AdminRanked env' := by
  have hself : ∀ a r, i.call.act ≠ some (.assign a a r) := by
    intro a r hact
    obtain ⟨auth, c⟩ := i
    cases c with
    | setRole admin target role =>
      cases hact
      obtain ⟨hgoverns, hrole, -⟩ := setRole_ok.mp h
      exact hnot ⟨a,hgoverns,Or.inl ⟨r,hrole,rfl⟩⟩
    | removeRole admin target =>
      cases hact
      exact hnot ⟨a,(removeRole_ok.mp h).1,Or.inr rfl⟩
    | _ => cases hact
  apply (commits_office h).preserves (P := Office.Ranked Role.admin) _ hs
  intro act hact ha ho
  apply Office.perform_ranked ho ha
  intro a r hassign
  exact hself a r (hassign ▸ hact)

/-- A ranked admin has a role to lose, so the removal commits too. -/
theorem demotes_commits (h : Demotes env i) (hs : AdminRanked env) :
    ∃ t a r, Commits Call.body env i t ∧ i.call.act = some (.assign a a r) := by
  obtain ⟨auth, c⟩ := i
  obtain ⟨admin, hgoverns, ⟨role, hrole, rfl⟩ | rfl⟩ := h
  · exact ⟨_,admin,role,setRole_ok.mpr ⟨hgoverns,hrole,rfl⟩,rfl⟩
  · have hranked : getRole admin env.ledger ≠ .none := by
      rw [hs admin hgoverns.2.2]
      decide
    exact ⟨_,admin,.none,removeRole_ok.mpr ⟨hgoverns,hranked,rfl⟩,rfl⟩

theorem demotes_unranked (h : Demotes env i) (hs : AdminRanked env) :
    ¬AdminRanked (settle Call.body env i) := by
  obtain ⟨t, a, r, hc, hact⟩ := demotes_commits h hs
  have hadvance := commits_office hc
  rw [hact] at hadvance
  obtain ⟨ha, hperformed⟩ := hadvance
  rw [settle_of_commits hc]
  intro ht
  have hranked : Office.Ranked Role.admin (officeOf t.ledger) := ht
  rw [hperformed] at hranked
  exact Office.self_assigned Role.none ha hranked

theorem admin_ranked_iff (is : List (Signed Address)) :
    Throughout Call.body
        (fun s : Env Address => ∀ a, IsAdmin a s.ledger → getRole a s.ledger = .admin) is
        Env.fresh ↔
      EachStep Call.body (fun s i => ¬Demotes s i) is Env.fresh := by
  constructor
  · intro h
    by_contra hbroken
    obtain ⟨js, i, ks, rfl, hdemotes⟩ := exists_breaking is hbroken
    obtain ⟨hbefore, hafter⟩ := h.suffix js (i::ks)
    exact demotes_unranked (not_not.mp hdemotes) hbefore hafter.here
  · intro hC
    apply hC.throughout fun s i t hnot hs hc => ranked_kept hnot hs hc
    intro a ha
    cases ha

/-- The admin makes itself an asset manager. -/
def demoted : Env ℕ :=
  run Call.body [⟨fun a => a = 0,.initializeContract 0⟩,
    ⟨fun a => a = 0,.setRole 0 0 .assetManager⟩] Env.fresh

theorem demoted_unranked : Reachable Call.body Env.fresh demoted ∧ IsAdmin 0 demoted.ledger ∧
    getRole 0 demoted.ledger ≠ .admin :=
  ⟨⟨_,rfl⟩,rfl,by decide⟩

end Aegis
