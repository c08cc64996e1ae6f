import Aegis.AdminRole

/-!
# Duties and enforced powers

The duties of an address are derived from the role table, while the gates
compare the caller with the admin key first. The two agree because nobody but
the admin ever holds the admin role.
-/

set_option autoImplicit false

namespace Aegis
open HostKit

variable {Address : Type} [DecidableEq Address] {x : Address} {l : Ledger Address}

/-- No address but the admin holds the admin role. -/
def SoleAdmin (l : Ledger Address) : Prop := ∀ x, getRole x l = .admin → IsAdmin x l

theorem reachable_soleAdmin {env : Env Address} (h : Reachable Call.body Env.fresh env) :
    SoleAdmin env.ledger := reachable_sole h

/-- An address has a duty as the admin or by a role of its own. -/
theorem duty_iff (hsole : SoleAdmin l) {duty : IssuerDuty} {allowed : Role → Prop}
    (hroles : ∀ role, role ≠ .admin → (roleHasDuty role duty = true ↔ allowed role)) :
    duty ∈ getDutiesOf x l ↔ ActsAs x allowed l := by
  rw [getDutiesOf, mem_dutiesOfRole, effectiveRole, ActsAs]
  cases hstored : l.get .admin with
  | none => simp [IsAdmin, hstored, roleHasDuty]
  | some admin =>
    by_cases hself : admin = x
    · subst hself
      simp [IsAdmin, hstored, roleHasDuty]
    · have hother : getRole x l ≠ .admin := by
        intro hrole
        have hx := hsole x hrole
        rw [IsAdmin, hstored] at hx
        exact hself (Option.some.inj hx)
      simp [IsAdmin, hstored, hself, Ne.symm hself, hroles _ hother]

theorem issuance_duty (hsole : SoleAdmin l) :
    .issuance ∈ getDutiesOf x l ↔ ActsAs x (· = .assetManager) l := by
  apply duty_iff hsole
  intro role hrole
  cases role <;> simp_all [roleHasDuty]

theorem emergency_duty (hsole : SoleAdmin l) :
    .emergency ∈ getDutiesOf x l ↔ ActsAs x (· = .emergencyOfficer) l := by
  apply duty_iff hsole
  intro role hrole
  cases role <;> simp_all [roleHasDuty]

theorem compliance_duty (hsole : SoleAdmin l) {current : ComplianceStatus}
    (hopen : current ≠ .blocked) :
    .compliance ∈ getDutiesOf x l ↔ MayClear x current l := by
  apply duty_iff hsole
  intro role hrole
  cases role <;> simp_all [roleHasDuty, isComplianceRole]

theorem governance_duty (hsole : SoleAdmin l) :
    .governance ∈ getDutiesOf x l ↔ IsAdmin x l := by
  have hduty : .governance ∈ getDutiesOf x l ↔ ActsAs x (fun _ => False) l := by
    apply duty_iff hsole
    intro role hrole
    cases role <;> simp_all [roleHasDuty]
  rw [hduty]
  simp [ActsAs, IsAdmin, eq_comm]

/-- Without an admin key nobody has a duty and every gate refuses. -/
theorem no_admin_no_duty (hnone : l.get .admin = none) (x : Address) :
    getDutiesOf x l = [] ∧
      (∀ current, authorityGuard x current l = .notInitialized) ∧
      (∀ role, requireRole x role l = .error (.panic .notInitialized)) ∧
      getAdmin l = .error (.panic .notInitialized) := by
  refine ⟨?_,fun current => ?_,fun role => ?_,?_⟩
  · rw [getDutiesOf, effectiveRole, hnone]
    rfl
  · rw [authorityGuard, hnone]
  · rw [requireRole, getAdmin, hnone]
    rfl
  · rw [getAdmin, hnone]

theorem duties_enforced {env : Env Address} (h : Reachable Call.body Env.fresh env) (x : Address) :
    (.compliance ∈ getDutiesOf x env.ledger ↔
      ∀ current, current ≠ .blocked → authorityGuard x current env.ledger = .allowed) ∧
    (.issuance ∈ getDutiesOf x env.ledger ↔ requireRole x .assetManager env.ledger = .ok ()) ∧
    (.emergency ∈ getDutiesOf x env.ledger ↔
      requireRole x .emergencyOfficer env.ledger = .ok ()) ∧
    (.governance ∈ getDutiesOf x env.ledger ↔ getAdmin env.ledger = .ok x) ∧
    (∀ auth : Auth Address, isPaused env.ledger = false → auth x = true →
      (.governance ∈ getDutiesOf x env.ledger ↔
        (requireGoverning x).exec auth env = (.ok (), env)) ∧
      ∀ message, .governance ∈ getDutiesOf x env.ledger ↔
        (assertGoverning x message).exec auth env = (.ok (), env)) ∧
    (env.ledger.get .admin = none →
      getDutiesOf x env.ledger = [] ∧
        (∀ current, authorityGuard x current env.ledger = .notInitialized) ∧
        (∀ role, requireRole x role env.ledger = .error (.panic .notInitialized)) ∧
        getAdmin env.ledger = .error (.panic .notInitialized)) := by
  have hsole := reachable_soleAdmin h
  refine ⟨?_,?_,?_,?_,fun auth hrun hauth => ?_,fun hnone => no_admin_no_duty hnone x⟩
  · constructor
    · intro hduty current hopen
      exact authorityGuard_allowed.mpr ((compliance_duty hsole hopen).mp hduty)
    · intro hallowed
      have hopen : ComplianceStatus.unknown ≠ .blocked := by decide
      exact (compliance_duty hsole hopen).mpr (authorityGuard_allowed.mp (hallowed _ hopen))
  · rw [issuance_duty hsole, requireRole_ok]
  · rw [emergency_duty hsole, requireRole_ok]
  · rw [governance_duty hsole, getAdmin_ok]
  · simp [governance_duty hsole, Governs, hrun, hauth]

theorem duties_enforced_deployed : requireRole 0 .emergencyOfficer deployed.ledger = .ok () :=
  (duties_enforced ⟨deployment,rfl⟩ 0).2.2.1.mp (by decide)

end Aegis
