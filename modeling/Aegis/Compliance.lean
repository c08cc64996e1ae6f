import Aegis.ComplianceGuards
import Aegis.Issuer

/-!
# Compliance lifecycle

The writer of an investor's status, the batch that validates every entry
before it writes any, and the two legacy wrappers. The legacy whitelist key
is written next to the status and never read for a decision.
-/

set_option autoImplicit false

namespace Aegis
open HostKit

structure ComplianceBatchUpdate (Address : Type) where
  user : Address
  newStatus : ComplianceStatus
  deriving DecidableEq

variable {Address : Type}

/-! ## Checks consumed by minting and transfers -/

/-- One refusal for a blocked, one for a pending and one for an unknown or
revoked party. -/
def requireApproved (blocked pending uncleared : Error) (user : Address) (l : Ledger Address) :
    Except Failure Unit :=
  match getComplianceStatus user l with
  | .approved => .ok ()
  | .blocked => .error (.err blocked)
  | .pending => .error (.err pending)
  | .unknown | .revoked => .error (.err uncleared)

def requireCanReceive (user : Address) (l : Ledger Address) : Except Failure Unit :=
  requireApproved .receiverBlocked .receiverCompliancePending .receiverNotWhitelisted user l

def requireCanSend (user : Address) (l : Ledger Address) : Except Failure Unit :=
  requireApproved .senderBlocked .senderCompliancePending .senderNotWhitelisted user l

theorem requireApproved_ok {blocked pending uncleared : Error} {user : Address}
    {l : Ledger Address} {u : Unit} : requireApproved blocked pending uncleared user l = .ok u ↔
      getComplianceStatus user l = .approved := by
  rw [requireApproved]
  cases getComplianceStatus user l <;> simp

@[simp] theorem requireCanReceive_ok {user : Address} {l : Ledger Address} {u : Unit} :
    requireCanReceive user l = .ok u ↔ getComplianceStatus user l = .approved := requireApproved_ok

@[simp] theorem requireCanSend_ok {user : Address} {l : Ledger Address} {u : Unit} :
    requireCanSend user l = .ok u ↔ getComplianceStatus user l = .approved := requireApproved_ok

variable [DecidableEq Address]

/-! ## The writer -/

def writeStatus (user : Address) (status : ComplianceStatus) : Contract Address Unit := do
  set (.complianceStatus user) status
  if status.isApproved then
    set (.whitelist user) true
  else
    remove (.whitelist user)

def applyTransition (caller user : Address) (previous newStatus : ComplianceStatus) :
    Contract Address Unit := do
  writeStatus user newStatus
  if newStatus.isApproved then
    recordComplianceApprover user caller
  publish (.complianceStatusChanged caller user previous newStatus)

def validateTransition (caller user : Address) (newStatus : ComplianceStatus)
    (l : Ledger Address) : Except Failure ComplianceStatus := do
  let current := getComplianceStatus user l
  requireTransition caller current newStatus l
  .ok current

def setComplianceStatus (caller user : Address) (newStatus : ComplianceStatus) :
    Contract Address Unit := do
  check requireNotPaused
  requireAuth caller
  let current ← check (validateTransition caller user newStatus)
  applyTransition caller user current newStatus

/-! ## The batch -/

/-- Scan of the entries before the current one. -/
def batchHasDuplicateUser (earlier : List (ComplianceBatchUpdate Address))
    (current : ComplianceBatchUpdate Address) : Bool :=
  earlier.any fun previous => previous.user = current.user

/-- The first loop: `earlier` holds the entries below the current index, and
the statuses returned are those captured before anything is written. -/
def validateUpdates (caller : Address) : List (ComplianceBatchUpdate Address) →
    List (ComplianceBatchUpdate Address) → Ledger Address → Except Failure (List ComplianceStatus)
  | _, [], _ => .ok []
  | earlier, update::rest, l => do
    if batchHasDuplicateUser earlier update then
      .error (.err .invalidComplianceTransition)
    else
      let previous ← validateTransition caller update.user update.newStatus l
      let others ← validateUpdates caller (earlier++[update]) rest l
      .ok (previous::others)

/-- The second loop, over the entries and their captured statuses. -/
def applyUpdates (caller : Address) : List (ComplianceBatchUpdate Address × ComplianceStatus) →
    Contract Address Unit
  | [] => pure ()
  | (update, previous)::rest => do
    applyTransition caller update.user previous update.newStatus
    applyUpdates caller rest

def batchSetComplianceStatus (caller : Address) (updates : List (ComplianceBatchUpdate Address)) :
    Contract Address ℕ := do
  check requireNotPaused
  requireAuth caller
  let previousStatuses ← check (validateUpdates caller [] updates)
  applyUpdates caller (updates.zip previousStatuses)
  pure updates.length

/-! ## Legacy wrappers -/

def whitelistUser (admin user : Address) : Contract Address Unit := do
  check requireNotPaused
  requireAuth admin
  let current ← load (getComplianceStatus user)
  check (requireTransitionAuthority admin current)
  if current ≠ .approved then
    errWhen (!transitionIsAllowed current .approved) .invalidComplianceTransition
    applyTransition admin user current .approved
  publish (.userWhitelisted admin user)

def revokeWhitelist (admin user : Address) : Contract Address Unit := do
  check requireNotPaused
  requireAuth admin
  let current ← load (getComplianceStatus user)
  check (requireTransitionAuthority admin current)
  if transitionIsAllowed current .revoked then
    applyTransition admin user current .revoked
  publish (.whitelistRevoked admin user)

/-! ## Success conditions and effects -/

/-- The ledger after one written status. -/
def withStatus (caller user : Address) (status : ComplianceStatus) (l : Ledger Address) :
    Ledger Address :=
  if status.isApproved then
    ((l.set (.complianceStatus user) status).set (.whitelist user) true).set
      (.complianceApprover user) caller
  else
    (l.set (.complianceStatus user) status).remove (.whitelist user)

section
variable {auth : Auth Address} {env env' : Env Address} {u : Unit} {caller user : Address}

@[simp] theorem applyTransition_ok {previous newStatus : ComplianceStatus} :
    (applyTransition caller user previous newStatus).exec auth env = (.ok u, env') ↔
      env' = ⟨withStatus caller user newStatus env.ledger,
        env.events++[.complianceStatusChanged caller user previous newStatus]⟩ := by
  by_cases h : newStatus.isApproved = true <;>
    simp [applyTransition, writeStatus, recordComplianceApprover, withStatus, Host.bind_ok_iff, h]

@[simp] theorem validateTransition_ok {newStatus previous : ComplianceStatus}
    {l : Ledger Address} : validateTransition caller user newStatus l = .ok previous ↔
      evaluateTransition caller user newStatus l = .allowed ∧
        previous = getComplianceStatus user l := by
  simp only [validateTransition, evaluateTransition, guard_bind_ok_iff, requireTransition_ok,
    Except.ok.injEq]
  constructor
  · rintro ⟨_, hallowed, rfl⟩
    exact ⟨hallowed,rfl⟩
  · rintro ⟨hallowed, rfl⟩
    exact ⟨(),hallowed,rfl⟩

theorem evaluateTransition_allowed {newStatus : ComplianceStatus} {l : Ledger Address} :
    evaluateTransition caller user newStatus l = .allowed ↔
      isPaused l = false ∧ MayClear caller (getComplianceStatus user l) l ∧
        transitionIsAllowed (getComplianceStatus user l) newStatus = true :=
  evaluateFromStatus_allowed

theorem setComplianceStatus_ok {newStatus : ComplianceStatus} :
    (setComplianceStatus caller user newStatus).exec auth env = (.ok u, env') ↔
      auth caller = true ∧ evaluateTransition caller user newStatus env.ledger = .allowed ∧
        env' = ⟨withStatus caller user newStatus env.ledger,
          env.events++[.complianceStatusChanged caller user
            (getComplianceStatus user env.ledger) newStatus]⟩ := by
  simp only [setComplianceStatus, Host.bind_ok_iff, check_ok, requireAuth_ok, requireNotPaused_ok,
    validateTransition_ok, applyTransition_ok]
  constructor
  · rintro ⟨_, _, ⟨hrun, rfl⟩, _, _, ⟨hauth, rfl⟩, _, _, ⟨⟨hallowed, rfl⟩, rfl⟩, rfl⟩
    exact ⟨hauth,hallowed,rfl⟩
  · rintro ⟨hauth, hallowed, rfl⟩
    have hrun := (evaluateTransition_allowed.mp hallowed).1
    exact ⟨(),_,⟨hrun,rfl⟩,(),_,⟨hauth,rfl⟩,_,_,⟨⟨hallowed,rfl⟩,rfl⟩,rfl⟩

/-- The ledger after all updates of a batch, written in order. -/
def withUpdates (caller : Address) : List (ComplianceBatchUpdate Address) → Ledger Address →
    Ledger Address
  | [], l => l
  | update::rest, l => withUpdates caller rest (withStatus caller update.user update.newStatus l)

def ValidUpdates (caller : Address) (updates : List (ComplianceBatchUpdate Address))
    (l : Ledger Address) : Prop :=
  (updates.map (·.user)).Nodup ∧
    ∀ update ∈ updates, evaluateTransition caller update.user update.newStatus l = .allowed

theorem batchHasDuplicateUser_iff {earlier : List (ComplianceBatchUpdate Address)}
    {current : ComplianceBatchUpdate Address} :
    batchHasDuplicateUser earlier current = true ↔ current.user ∈ earlier.map (·.user) := by
  simp [batchHasDuplicateUser]

/-- Moving an entry among the earlier ones is what the scan checks of it. -/
theorem freshUsers_cons {earlier rest : List (ComplianceBatchUpdate Address)}
    {update : ComplianceBatchUpdate Address} {l : Ledger Address}
    (hfresh : update.user ∉ earlier.map (·.user)) :
    ((∀ entry ∈ update::rest, entry.user ∉ earlier.map (·.user)) ∧
        ValidUpdates caller (update::rest) l) ↔
      evaluateTransition caller update.user update.newStatus l = .allowed ∧
        (∀ entry ∈ rest, entry.user ∉ (earlier++[update]).map (·.user)) ∧
        ValidUpdates caller rest l := by
  have hmem : (update.user ∉ rest.map (·.user)) ↔ ∀ entry ∈ rest, entry.user ≠ update.user := by
    simp [eq_comm]
  simp only [ValidUpdates, List.forall_mem_cons, List.map_cons, List.nodup_cons, List.map_append,
    List.mem_append, List.map_nil, List.mem_singleton, not_or, hmem]
  constructor
  · rintro ⟨⟨_, hearlier⟩, ⟨hnew, hnodup⟩, hallowed, hrest⟩
    exact ⟨hallowed,fun entry h => ⟨hearlier entry h,hnew entry h⟩,hnodup,hrest⟩
  · rintro ⟨hallowed, hboth, hnodup, hrest⟩
    exact ⟨⟨hfresh,fun entry h => (hboth entry h).1⟩,⟨fun entry h => (hboth entry h).2,hnodup⟩,
      hallowed,hrest⟩

theorem validateUpdates_ok {earlier updates : List (ComplianceBatchUpdate Address)}
    {l : Ledger Address} {previous : List ComplianceStatus} :
    validateUpdates caller earlier updates l = .ok previous ↔
      ((∀ update ∈ updates, update.user ∉ earlier.map (·.user)) ∧ ValidUpdates caller updates l) ∧
        previous = updates.map fun update => getComplianceStatus update.user l := by
  induction updates generalizing earlier previous with
  | nil => simp [validateUpdates, ValidUpdates, eq_comm]
  | cons update rest ih =>
    have hdup : batchHasDuplicateUser earlier update = true ↔ update.user ∈ earlier.map (·.user) :=
      batchHasDuplicateUser_iff
    rw [validateUpdates]
    by_cases hmem : update.user ∈ earlier.map (·.user)
    · rw [if_pos (hdup.mpr hmem)]
      constructor
      · intro h
        cases h
      · rintro ⟨⟨hfresh, -⟩, -⟩
        exact absurd hmem (hfresh update List.mem_cons_self)
    · rw [if_neg (mt hdup.mp hmem)]
      simp only [guard_bind_ok_iff, validateTransition_ok, ih, Except.ok.injEq,
        freshUsers_cons hmem]
      constructor
      · rintro ⟨_, ⟨hallowed, rfl⟩, _, ⟨hrest, rfl⟩, rfl⟩
        exact ⟨⟨hallowed,hrest⟩,rfl⟩
      · rintro ⟨⟨hallowed, hrest⟩, rfl⟩
        exact ⟨_,⟨hallowed,rfl⟩,_,⟨hrest,rfl⟩,rfl⟩

/-- The first entry of a batch meets no earlier one. -/
theorem validateUpdates_refused {updates : List (ComplianceBatchUpdate Address)}
    {l : Ledger Address} (hne : updates ≠ []) {f : Failure}
    (h : ∀ user newStatus, validateTransition caller user newStatus l = .error f) :
    validateUpdates caller [] updates l = .error f := by
  cases updates with
  | nil => exact absurd rfl hne
  | cons update rest =>
    rw [validateUpdates, if_neg (by simp [batchHasDuplicateUser])]
    exact guard_bind_of_error (h update.user update.newStatus)

theorem applyUpdates_ok {pairs : List (ComplianceBatchUpdate Address × ComplianceStatus)} :
    (applyUpdates caller pairs).exec auth env = (.ok u, env') ↔
      env' = ⟨withUpdates caller (pairs.map Prod.fst) env.ledger,
        env.events++pairs.map fun p =>
          .complianceStatusChanged caller p.1.user p.2 p.1.newStatus⟩ := by
  induction pairs generalizing env with
  | nil => simp [applyUpdates, withUpdates, eq_comm]
  | cons p rest ih => simp [applyUpdates, withUpdates, Host.bind_ok_iff, ih]

theorem batchSetComplianceStatus_ok {updates : List (ComplianceBatchUpdate Address)} {n : ℕ} :
    (batchSetComplianceStatus caller updates).exec auth env = (.ok n, env') ↔
      isPaused env.ledger = false ∧ auth caller = true ∧ ValidUpdates caller updates env.ledger ∧
        n = updates.length ∧
        env' = ⟨withUpdates caller updates env.ledger,
          env.events++updates.map fun update => .complianceStatusChanged caller update.user
            (getComplianceStatus update.user env.ledger) update.newStatus⟩ := by
  have hzip : updates.zip (updates.map fun update => getComplianceStatus update.user env.ledger) =
      updates.map fun update => (update,getComplianceStatus update.user env.ledger) := by
    simpa using List.zip_map' (f := id) (g := fun update : ComplianceBatchUpdate Address =>
      getComplianceStatus update.user env.ledger) (l := updates)
  have hwritten : (updates.zip (updates.map fun update =>
      getComplianceStatus update.user env.ledger)).map Prod.fst = updates := by
    rw [hzip, List.map_map]
    exact List.map_id updates
  simp only [batchSetComplianceStatus, Host.bind_ok_iff, check_ok, requireAuth_ok,
    requireNotPaused_ok, validateUpdates_ok, applyUpdates_ok]
  constructor
  · rintro ⟨_, _, ⟨hrun, rfl⟩, _, _, ⟨hauth, rfl⟩, _, _, ⟨⟨⟨-, hvalid⟩, rfl⟩, rfl⟩, _, _, rfl, h⟩
    cases h
    rw [hwritten, hzip, List.map_map]
    exact ⟨hrun,hauth,hvalid,rfl,rfl⟩
  · rintro ⟨hrun, hauth, hvalid, rfl, rfl⟩
    refine ⟨(),_,⟨hrun,rfl⟩,(),_,⟨hauth,rfl⟩,_,_,⟨⟨⟨by simp,hvalid⟩,rfl⟩,rfl⟩,(),_,rfl,?_⟩
    rw [hwritten, hzip, List.map_map]
    rfl

theorem whitelistUser_ok :
    (whitelistUser caller user).exec auth env = (.ok u, env') ↔
      isPaused env.ledger = false ∧ auth caller = true ∧
        MayClear caller (getComplianceStatus user env.ledger) env.ledger ∧
        (getComplianceStatus user env.ledger = .approved ∧
            env' = ⟨env.ledger,env.events++[.userWhitelisted caller user]⟩ ∨
          transitionIsAllowed (getComplianceStatus user env.ledger) .approved = true ∧
            env' = ⟨withStatus caller user .approved env.ledger,
              env.events++[.complianceStatusChanged caller user
                (getComplianceStatus user env.ledger) .approved,
                .userWhitelisted caller user]⟩) := by
  have hself : transitionIsAllowed .approved .approved = false := rfl
  by_cases h : getComplianceStatus user env.ledger = .approved
  · simp [whitelistUser, Host.bind_ok_iff, h, hself]
  · simp [whitelistUser, Host.bind_ok_iff, h]

theorem revokeWhitelist_ok :
    (revokeWhitelist caller user).exec auth env = (.ok u, env') ↔
      isPaused env.ledger = false ∧ auth caller = true ∧
        MayClear caller (getComplianceStatus user env.ledger) env.ledger ∧
        (transitionIsAllowed (getComplianceStatus user env.ledger) .revoked = false ∧
            env' = ⟨env.ledger,env.events++[.whitelistRevoked caller user]⟩ ∨
          transitionIsAllowed (getComplianceStatus user env.ledger) .revoked = true ∧
            env' = ⟨withStatus caller user .revoked env.ledger,
              env.events++[.complianceStatusChanged caller user
                (getComplianceStatus user env.ledger) .revoked,
                .whitelistRevoked caller user]⟩) := by
  by_cases h : transitionIsAllowed (getComplianceStatus user env.ledger) .revoked = true
  · simp [revokeWhitelist, Host.bind_ok_iff, h]
  · simp [revokeWhitelist, Host.bind_ok_iff, h]

/-! ## What the writer touches -/

omit [DecidableEq Address] in
def statusKeys (user : Address) : Set (DataKey Address) :=
  {.complianceStatus user, .whitelist user, .complianceApprover user}

omit [DecidableEq Address] in
theorem statusKeys_disjoint {other : Address} {k : DataKey Address}
    (h : k ∈ statusKeys user) (h' : k ∈ statusKeys other) : user = other := by
  rcases h with rfl | rfl | rfl <;> simpa [statusKeys] using h'

theorem withStatus_frame (caller user : Address) (status : ComplianceStatus) (l : Ledger Address) :
    Store.AgreeOff (statusKeys user) l (withStatus caller user status l) := by
  have hrefl := Store.AgreeOff.refl (statusKeys user) l
  have hstatus := hrefl.set (k := .complianceStatus user) (by simp [statusKeys]) status
  rw [withStatus]
  split_ifs
  · have hlisted := hstatus.set (k := .whitelist user) (by simp [statusKeys]) true
    exact hlisted.set (k := .complianceApprover user) (by simp [statusKeys]) caller
  · exact hstatus.remove (by simp [statusKeys])

theorem withStatus_get_congr {l l' : Ledger Address} {status : ComplianceStatus}
    {k : DataKey Address} (h : l.get k = l'.get k) :
    (withStatus caller user status l).get k = (withStatus caller user status l').get k := by
  rw [withStatus, withStatus]
  split_ifs
  · exact Store.get_set_congr _ _ (Store.get_set_congr _ _ (Store.get_set_congr _ _ h))
  · exact Store.get_remove_congr _ (Store.get_set_congr _ _ h)

theorem getComplianceStatus_withStatus (other : Address) (status : ComplianceStatus)
    (l : Ledger Address) : getComplianceStatus other (withStatus caller user status l) =
      if other = user then status else getComplianceStatus other l := by
  rw [getComplianceStatus, getComplianceStatus, withStatus]
  split_ifs with happroved heq heq <;> simp [get_set_complianceStatus, heq]

theorem withUpdates_frame (caller : Address) (updates : List (ComplianceBatchUpdate Address))
    (l : Ledger Address) :
    Store.AgreeOff {k | ∃ update ∈ updates, k ∈ statusKeys update.user} l
      (withUpdates caller updates l) := by
  induction updates generalizing l with
  | nil => exact Store.AgreeOff.refl _ l
  | cons update rest ih =>
    have hfirst := withStatus_frame caller update.user update.newStatus l
    refine (hfirst.mono ?_).trans ((ih _).mono ?_)
    · intro k hk
      exact ⟨update,List.mem_cons_self,hk⟩
    · rintro k ⟨entry, hmem, hk⟩
      exact ⟨entry,List.mem_cons_of_mem _ hmem,hk⟩

/-- On the keys of one user a batch does what the user's own entry does. -/
theorem withUpdates_get_of_mem {updates : List (ComplianceBatchUpdate Address)}
    (hnodup : (updates.map (·.user)).Nodup) {update : ComplianceBatchUpdate Address}
    (hmem : update ∈ updates) {k : DataKey Address} (hk : k ∈ statusKeys update.user)
    (l : Ledger Address) :
    (withUpdates caller updates l).get k =
      (withStatus caller update.user update.newStatus l).get k := by
  induction updates generalizing l with
  | nil => cases hmem
  | cons first rest ih =>
    rw [List.map_cons, List.nodup_cons] at hnodup
    rw [withUpdates]
    rcases List.mem_cons.mp hmem with rfl | hrest
    · apply withUpdates_frame
      rintro ⟨entry, hentry, hother⟩
      exact hnodup.1 (List.mem_map.mpr ⟨entry,hentry,statusKeys_disjoint hother hk⟩)
    · rw [ih hnodup.2 hrest]
      apply withStatus_get_congr
      apply withStatus_frame
      intro hother
      exact hnodup.1 (List.mem_map.mpr ⟨update,hrest,statusKeys_disjoint hk hother⟩)

end

end Aegis
