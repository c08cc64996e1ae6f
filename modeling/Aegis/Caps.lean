import Aegis.Admin

/-!
# Supply and holding caps

Both caps follow one two-step flow: the admin proposes a value, then accepts
or cancels it. A cap of zero enforces nothing. The flow is defined once for
a cap, and each cap keeps its own entrypoints and messages.
-/

set_option autoImplicit false

namespace Aegis
open HostKit

variable {Address : Type}

def getCap (kind : Cap) (l : Ledger Address) : I128 := (l.get (.cap kind)).getD 0

def getSupplyCap (l : Ledger Address) : I128 := getCap .supply l
def getHoldingCap (l : Ledger Address) : I128 := getCap .holding l

def getPendingSupplyCap (l : Ledger Address) : Option I128 := l.get .supplyCapCandidate
def getPendingHoldingCap (l : Ledger Address) : Option I128 := l.get .holdingCapCandidate

/-! ## Enforcement -/

/-- The sum is formed before it is compared, so an amount that overflows
traps where a smaller one is refused with the typed error. -/
def enforceCap (cap current incoming : I128) (e : Error) : Except Failure Unit := do
  if cap.val ≤ 0 then
    .ok ()
  else
    let sum ← add current incoming
    if sum.val > cap.val then .error (.err e) else .ok ()

def enforceSupplyCap (mintAmount : I128) (l : Ledger Address) : Except Failure Unit :=
  enforceCap (getSupplyCap l) (getTotalSupply l) mintAmount .supplyCapExceeded

def enforceHoldingCap (address : Address) (incoming : I128) (l : Ledger Address) :
    Except Failure Unit :=
  enforceCap (getHoldingCap l) (getBalanceOf address l) incoming .holdingCapExceeded

def WithinCap (cap current incoming : I128) : Prop :=
  0 < cap.val → current.val+incoming.val ≤ cap.val

/-- A cap is itself an `i128`, so an amount within it does not overflow. -/
theorem enforceCap_ok {cap current incoming : I128} (hpos : 0 < incoming.val) {e : Error}
    {u : Unit} : enforceCap cap current incoming e = .ok u ↔ WithinCap cap current incoming := by
  rw [enforceCap, WithinCap]
  by_cases hoff : cap.val ≤ 0
  · simp [hoff, not_lt.mpr hoff]
  · have hon : 0 < cap.val := not_le.mp hoff
    rw [if_neg hoff]
    cases hadd : add current incoming with
    | error f =>
      have hover : ¬current.val+incoming.val ≤ cap.val := by
        intro hle
        have hlow := current.lo_le
        have hhigh := cap.le_hi
        obtain ⟨c, hc⟩ : ∃ c : I128, c.val = current.val+incoming.val :=
          CheckedInt.exists_val (by omega) (by omega)
        rw [add_ok.mpr hc.symm] at hadd
        cases hadd
      simp [bind, Except.bind, hon, hover]
    | ok c =>
      have hc := add_ok.mp hadd
      simp only [bind, Except.bind, hc, hon, forall_true_left]
      split_ifs with hgt
      · simp [hgt]
      · simpa using hgt

theorem enforceSupplyCap_ok {mintAmount : I128} (hpos : 0 < mintAmount.val) {l : Ledger Address}
    {u : Unit} : enforceSupplyCap mintAmount l = .ok u ↔
      WithinCap (getSupplyCap l) (getTotalSupply l) mintAmount := enforceCap_ok hpos

theorem enforceHoldingCap_ok {address : Address} {incoming : I128} (hpos : 0 < incoming.val)
    {l : Ledger Address} {u : Unit} : enforceHoldingCap address incoming l = .ok u ↔
      WithinCap (getHoldingCap l) (getBalanceOf address l) incoming := enforceCap_ok hpos

/-! ## Two-step governance -/

structure CapMessages where
  onlyAdminProposes : String
  nonNegative : String
  onlyAdminAccepts : String
  nothingToAccept : String
  onlyAdminCancels : String
  nothingToCancel : String

def capMessages : Cap → CapMessages
  | .supply =>
    { onlyAdminProposes := "Unauthorized: only admin can propose a supply cap"
      nonNegative := "Supply cap must be non-negative"
      onlyAdminAccepts := "Unauthorized: only admin can accept a supply cap"
      nothingToAccept := "No pending supply cap proposal to accept"
      onlyAdminCancels := "Unauthorized: only admin can cancel a supply cap proposal"
      nothingToCancel := "No pending supply cap proposal to cancel" }
  | .holding =>
    { onlyAdminProposes := "Unauthorized: only admin can propose a holding cap"
      nonNegative := "Holding cap must be non-negative"
      onlyAdminAccepts := "Unauthorized: only admin can accept a holding cap"
      nothingToAccept := "No pending holding cap proposal to accept"
      onlyAdminCancels := "Unauthorized: only admin can cancel a holding cap proposal"
      nothingToCancel := "No pending holding cap proposal to cancel" }

variable [DecidableEq Address]

/-- The cap entrypoints open like every governing call, but assert the caller
instead of returning an error. -/
def assertGoverning (admin : Address) (message : String) : Contract Address Unit := do
  check requireNotPaused
  requireAuth admin
  assertThat (admin = (← check getAdmin)) message

def proposeCap (kind : Cap) (admin : Address) (proposedCap : I128) : Contract Address Unit := do
  assertGoverning admin (capMessages kind).onlyAdminProposes
  assertThat (0 ≤ proposedCap.val) (capMessages kind).nonNegative
  let current ← load (getCap kind)
  assertThat (proposedCap ≠ current) "Proposed cap equals the active cap — no change requested"
  set (.capCandidate kind) proposedCap
  publish (.capProposed kind admin current proposedCap)

def acceptCap (kind : Cap) (admin : Address) : Contract Address Unit := do
  assertGoverning admin (capMessages kind).onlyAdminAccepts
  let proposed ← getOr (·.get (.capCandidate kind)) (.assertion (capMessages kind).nothingToAccept)
  let previous ← load (getCap kind)
  remove (.capCandidate kind)
  set (.cap kind) proposed
  publish (.capAmended kind admin previous proposed)

def cancelCapProposal (kind : Cap) (admin : Address) : Contract Address Unit := do
  assertGoverning admin (capMessages kind).onlyAdminCancels
  let had ← load fun l => l.has (.capCandidate kind)
  assertThat had (capMessages kind).nothingToCancel
  remove (.capCandidate kind)

def proposeSupplyCap (admin : Address) (proposedCap : I128) : Contract Address Unit :=
  proposeCap .supply admin proposedCap

def acceptSupplyCap (admin : Address) : Contract Address Unit := acceptCap .supply admin

def cancelSupplyCapProposal (admin : Address) : Contract Address Unit :=
  cancelCapProposal .supply admin

def proposeHoldingCap (admin : Address) (proposedCap : I128) : Contract Address Unit :=
  proposeCap .holding admin proposedCap

def acceptHoldingCap (admin : Address) : Contract Address Unit := acceptCap .holding admin

def cancelHoldingCapProposal (admin : Address) : Contract Address Unit :=
  cancelCapProposal .holding admin

section
variable {auth : Auth Address} {env env' : Env Address} {u : Unit} {kind : Cap} {admin : Address}

@[simp] theorem assertGoverning_ok {message : String} :
    (assertGoverning admin message).exec auth env = (.ok u, env') ↔
      Governs auth admin env.ledger ∧ env' = env := by
  simp only [assertGoverning, Host.bind_ok_iff, check_ok, requireAuth_ok, assertThat_ok, Governs,
    requireNotPaused_ok, getAdmin_ok]
  constructor
  · rintro ⟨_, _, ⟨hrun, rfl⟩, _, _, ⟨hauth, rfl⟩, _, _, ⟨hadmin, rfl⟩, rfl, rfl⟩
    exact ⟨⟨hrun,hauth,hadmin⟩,rfl⟩
  · rintro ⟨⟨hrun, hauth, hadmin⟩, rfl⟩
    exact ⟨(),_,⟨hrun,rfl⟩,(),_,⟨hauth,rfl⟩,admin,_,⟨hadmin,rfl⟩,rfl,rfl⟩

theorem proposeCap_ok {proposedCap : I128} :
    (proposeCap kind admin proposedCap).exec auth env = (.ok u, env') ↔
      Governs auth admin env.ledger ∧ 0 ≤ proposedCap.val ∧
        proposedCap ≠ getCap kind env.ledger ∧
        env' = ⟨env.ledger.set (.capCandidate kind) proposedCap,
          env.events++[.capProposed kind admin (getCap kind env.ledger) proposedCap]⟩ := by
  simp [proposeCap, Host.bind_ok_iff]

theorem acceptCap_ok :
    (acceptCap kind admin).exec auth env = (.ok u, env') ↔
      Governs auth admin env.ledger ∧ ∃ proposed,
        env.ledger.get (.capCandidate kind) = some proposed ∧
        env' = ⟨(env.ledger.remove (.capCandidate kind)).set (.cap kind) proposed,
          env.events++[.capAmended kind admin (getCap kind env.ledger) proposed]⟩ := by
  simp [acceptCap, Host.bind_ok_iff]

theorem cancelCapProposal_ok :
    (cancelCapProposal kind admin).exec auth env = (.ok u, env') ↔
      Governs auth admin env.ledger ∧ env.ledger.has (.capCandidate kind) = true ∧
        env' = ⟨env.ledger.remove (.capCandidate kind),env.events⟩ := by
  simp [cancelCapProposal, Host.bind_ok_iff]

end

end Aegis
