import Aegis.Emission
import Aegis.HostKit.Amendment

/-!
# Two-step governance

The supply cap, the holding cap and the configuration are three amendments
that run next to each other. Each of the nine entrypoints performs one act of
one of them, all signed by the admin of the moment, and nothing else touches
their keys.
-/

set_option autoImplicit false

namespace Aegis
open HostKit

variable {Address : Type}

def capOf (kind : Cap) (l : Ledger Address) : Amendment I128 :=
  ⟨l.get (.cap kind),l.get (.capCandidate kind)⟩

def configOf (l : Ledger Address) : Amendment ProtocolConfig :=
  ⟨l.get .protocolConfig,l.get .protocolConfigCandidate⟩

def Call.capAct : Cap → Call Address → Option (Amendment.Act I128)
  | .supply, .proposeSupplyCap _ proposedCap => some (.propose proposedCap)
  | .supply, .acceptSupplyCap _ => some .accept
  | .supply, .cancelSupplyCapProposal _ => some .cancel
  | .holding, .proposeHoldingCap _ proposedCap => some (.propose proposedCap)
  | .holding, .acceptHoldingCap _ => some .accept
  | .holding, .cancelHoldingCapProposal _ => some .cancel
  | _, _ => none

def Call.configAct : Call Address → Option (Amendment.Act ProtocolConfig)
  | .proposeConfig _ proposedConfig => some (.propose proposedConfig)
  | .acceptConfig _ => some .accept
  | .cancelConfigProposal _ => some .cancel
  | _ => none

/-- A cap is vetted against the active one, which is zero when none is stored. -/
def CapVetted (active : Option I128) (proposed : I128) : Prop :=
  0 ≤ proposed.val ∧ proposed ≠ active.getD 0

def ValidConfig (c : ProtocolConfig) : Prop := 0 ≤ c.minTransferAmount.val ∧ 0 < c.maxBatchSize

theorem defaultConfig_valid : ValidConfig defaultConfig := by
  constructor <;> decide

def SignedByAdmin (env : Env Address) (i : Signed Address) : Prop :=
  i.context i.call.signer = true ∧ IsAdmin i.call.signer env.ledger

variable [DecidableEq Address] {env env' : Env Address} {i : Signed Address} {kind : Cap}

/-! ## The contract refines the three amendments -/

/-- The three entrypoints of a cap, by the act they perform. -/
def governCap (kind : Cap) (admin : Address) : Amendment.Act I128 → Contract Address Unit
  | .propose proposedCap => proposeCap kind admin proposedCap
  | .accept => acceptCap kind admin
  | .cancel => cancelCapProposal kind admin

theorem body_of_capAct {call : Call Address} {act : Amendment.Act I128}
    (h : call.capAct kind = some act) : call.body = governCap kind call.signer act := by
  cases kind <;> cases call <;> cases h <;> rfl

theorem cap_exec {act : Amendment.Act I128} (h : Commits Call.body env i env')
    (hact : i.call.capAct kind = some act) :
    (governCap kind i.call.signer act).exec i.context env = (.ok (), env') := by
  rw [← body_of_capAct hact]
  exact h

theorem cap_unmoved (h : Commits Call.body env i env') (hact : i.call.capAct kind = none) :
    capOf kind env'.ledger = capOf kind env.ledger := by
  have hkeys : .cap kind ∉ i.call.writes env.ledger ∧
      .capCandidate kind ∉ i.call.writes env.ledger := by
    revert hact
    cases kind <;> cases i.call <;> simp [Call.capAct, Call.writes, statusKeys]
  rw [capOf, commits_unchanged h hkeys.1, commits_unchanged h hkeys.2, capOf]

theorem commits_cap (kind : Cap) (h : Commits Call.body env i env') :
    (Amendment.machine CapVetted).Advances (i.call.capAct kind) (capOf kind env.ledger)
      (capOf kind env'.ledger) := by
  cases hact : i.call.capAct kind with
  | none => exact cap_unmoved h hact
  | some act =>
    have hexec := cap_exec h hact
    cases act with
    | propose proposedCap =>
      obtain ⟨-, hnonneg, hne, rfl⟩ := proposeCap_ok.mp hexec
      refine ⟨⟨hnonneg,hne⟩,?_⟩
      ext1 <;> simp [capOf, Amendment.machine, Amendment.perform]
    | accept =>
      obtain ⟨-, proposed, hpending, rfl⟩ := acceptCap_ok.mp hexec
      refine ⟨by simp [capOf, Amendment.machine, Amendment.Admissible, hpending],?_⟩
      ext1 <;> simp [capOf, Amendment.machine, Amendment.perform, hpending]
    | cancel =>
      obtain ⟨-, hpending, rfl⟩ := cancelCapProposal_ok.mp hexec
      refine ⟨Option.isSome_iff_ne_none.mp hpending,?_⟩
      ext1 <;> simp [capOf, Amendment.machine, Amendment.perform]

theorem cap_signed {act : Amendment.Act I128} (h : Commits Call.body env i env')
    (hact : i.call.capAct kind = some act) : SignedByAdmin env i := by
  have hexec := cap_exec h hact
  cases act with
  | propose proposedCap => exact (proposeCap_ok.mp hexec).1.2
  | accept => exact (acceptCap_ok.mp hexec).1.2
  | cancel => exact (cancelCapProposal_ok.mp hexec).1.2

theorem config_unmoved (h : Commits Call.body env i env') (hact : i.call.configAct = none) :
    configOf env'.ledger = configOf env.ledger := by
  have hkeys : .protocolConfig ∉ i.call.writes env.ledger ∧
      .protocolConfigCandidate ∉ i.call.writes env.ledger := by
    revert hact
    cases i.call <;> simp [Call.configAct, Call.writes, statusKeys]
  rw [configOf, commits_unchanged h hkeys.1, commits_unchanged h hkeys.2, configOf]

theorem commits_config (h : Commits Call.body env i env') :
    (Amendment.machine fun _ => ValidConfig).Advances i.call.configAct (configOf env.ledger)
      (configOf env'.ledger) := by
  obtain ⟨auth, c⟩ := i
  cases c with
  | proposeConfig admin proposedConfig =>
    obtain ⟨-, hnonneg, hne, rfl⟩ := proposeConfig_ok.mp h
    refine ⟨⟨hnonneg,UInt32.pos_iff_ne_zero.mpr hne⟩,?_⟩
    ext1 <;> simp [configOf, Amendment.machine, Amendment.perform]
  | acceptConfig admin =>
    obtain ⟨-, pending, hpending, rfl⟩ := acceptConfig_ok.mp h
    refine ⟨by simp [configOf, Amendment.machine, Amendment.Admissible, hpending],?_⟩
    ext1 <;> simp [configOf, Amendment.machine, Amendment.perform, hpending]
  | cancelConfigProposal admin =>
    obtain ⟨-, hpending, rfl⟩ := cancelConfigProposal_ok.mp h
    refine ⟨Option.isSome_iff_ne_none.mp hpending,?_⟩
    ext1 <;> simp [configOf, Amendment.machine, Amendment.perform]
  | _ => exact config_unmoved h rfl

theorem config_signed {act : Amendment.Act ProtocolConfig} (h : Commits Call.body env i env')
    (hact : i.call.configAct = some act) : SignedByAdmin env i := by
  obtain ⟨auth, c⟩ := i
  cases c with
  | proposeConfig admin proposedConfig => exact (proposeConfig_ok.mp h).1.2
  | acceptConfig admin => exact (acceptConfig_ok.mp h).1.2
  | cancelConfigProposal admin => exact (cancelConfigProposal_ok.mp h).1.2
  | _ => cases hact

/-! ## Histories -/

/-- The latest act of the history was the proposal of a value, made by the
admin of that moment. -/
def LatelyProposed {V : Type} (act : Call Address → Option (Amendment.Act V)) (value : V)
    (ts : List (Transition (Auth Address) (Call Address) (Env Address))) : Prop :=
  Since (fun t => act t.via.call = some (.propose value) ∧ SignedByAdmin t.pre t.via)
    (fun t => act t.via.call = none) ts

/-- The two steps of one amendment in a run: a change of the active value is
the acceptance, by the admin, of what was lately proposed, and of two
acceptances the later one is of a proposal made in between. -/
structure TwoStep {V : Type} (view : Ledger Address → Amendment V)
    (act : Call Address → Option (Amendment.Act V)) (is : List (Signed Address)) : Prop where
  changed : ∀ i env', Commits Call.body (run Call.body is Env.fresh) i env' →
    (view env'.ledger).active ≠ (view (run Call.body is Env.fresh).ledger).active →
    act i.call = some .accept ∧ SignedByAdmin (run Call.body is Env.fresh) i ∧
      ∃ v, (view env'.ledger).active = some v ∧
        LatelyProposed act v (trace Call.body is Env.fresh)
  once : ∀ before t mid u after,
    trace Call.body is Env.fresh = before++t::(mid++u::after) →
    act t.via.call = some .accept → act u.via.call = some .accept →
    ∃ v, (view u.post.ledger).active = some v ∧ LatelyProposed act v mid

theorem twoStep_of_refines {V : Type} {vetted : Option V → V → Prop}
    {view : Ledger Address → Amendment V} {act : Call Address → Option (Amendment.Act V)}
    (hrefines : Machine.Refines Call.body (Amendment.machine vetted)
      (fun s : Env Address => view s.ledger) act)
    (hsigned : ∀ (s : Env Address) i t a, Commits Call.body s i t → act i.call = some a →
      SignedByAdmin s i)
    (h0 : (view Store.empty).pending = none) (is : List (Signed Address)) :
    TwoStep view act is := by
  have hlately : ∀ v ts, (∀ t ∈ ts, t ∈ trace Call.body is Env.fresh) →
      Since (fun t => act t.via.call = some (.propose v)) (fun t => act t.via.call = none) ts →
      LatelyProposed act v ts := by
    intro v ts hsub hsince
    refine hsince.mono (fun t ht hpropose => ⟨hpropose,?_⟩) fun t _ hnone => hnone
    exact hsigned _ _ _ _ (mem_trace (hsub t ht)).2 hpropose
  constructor
  · intro i env' hc hne
    have haccept := Amendment.changed_accepted hrefines hc hne
    obtain ⟨v, hpending, hactive⟩ := Amendment.accepted_pending hrefines hc haccept
    refine ⟨haccept,hsigned _ _ _ _ hc haccept,v,hactive,hlately v _ (fun t ht => ht) ?_⟩
    exact Amendment.pending_proposed hrefines is h0 hpending
  · intro before t mid u after htrace ht hu
    obtain ⟨v, hactive, hsince⟩ := Amendment.proposed_between hrefines h0 htrace ht hu
    refine ⟨v,hactive,hlately v mid (fun p hp => ?_) hsince⟩
    rw [htrace]
    simp [hp]

/-! ## Events -/

omit [DecidableEq Address] in
theorem capAmended_emitted {l : Ledger Address} {call : Call Address} {admin : Address}
    {previous new : I128} (h : .capAmended kind admin previous new ∈ call.emitted l) :
    previous = getCap kind l ∧ l.get (.capCandidate kind) = some new := by
  cases call with
  | acceptSupplyCap signer =>
    simp only [Call.emitted, List.mem_map, Option.mem_toList] at h
    obtain ⟨proposed, hproposed, hevent⟩ := h
    cases hevent
    exact ⟨rfl,hproposed⟩
  | acceptHoldingCap signer =>
    simp only [Call.emitted, List.mem_map, Option.mem_toList] at h
    obtain ⟨proposed, hproposed, hevent⟩ := h
    cases hevent
    exact ⟨rfl,hproposed⟩
  | _ => simp [Call.emitted] at h

theorem pending_cap (h : Reachable Call.body Env.fresh env) {proposed : I128}
    (hp : env.ledger.get (.capCandidate kind) = some proposed) :
    0 ≤ proposed.val ∧ proposed ≠ getCap kind env.ledger :=
  Amendment.refines_vetted (fun _ _ _ hc => commits_cap kind hc) rfl h hp

theorem capAmended_changes (h : Reachable Call.body Env.fresh env) {admin : Address}
    {previous new : I128} (hmem : .capAmended kind admin previous new ∈ env.events) :
    previous ≠ new := by
  revert hmem
  refine h.induct (P := fun s : Env Address =>
    .capAmended kind admin previous new ∈ s.events → previous ≠ new) ?_ ?_
  · intro hmem
    cases hmem
  · intro s i t hreach hs hc hmem
    rw [commits_emit hc, List.mem_append] at hmem
    rcases hmem with hbefore | hnow
    · exact hs hbefore
    · obtain ⟨rfl, hpending⟩ := capAmended_emitted hnow
      exact (pending_cap hreach hpending).2.symm

/-! ## Invariants of the active and the pending values -/

theorem active_cap (h : Reachable Call.body Env.fresh env) (kind : Cap) :
    0 ≤ (getCap kind env.ledger).val := by
  rw [getCap]
  cases hcap : env.ledger.get (.cap kind) with
  | none => exact le_refl 0
  | some cap =>
    exact Amendment.refines_valid (Q := fun v : I128 => 0 ≤ v.val)
      (fun _ _ _ hc => commits_cap kind hc) (fun _ _ hvetted => hvetted.1) rfl h (Or.inl hcap)

theorem active_config (h : Reachable Call.body Env.fresh env) :
    ValidConfig (getConfig env.ledger) := by
  rw [getConfig]
  cases hconfig : env.ledger.get .protocolConfig with
  | none => exact defaultConfig_valid
  | some config =>
    exact Amendment.refines_valid (fun _ _ _ hc => commits_config hc)
      (fun _ _ hvalid => hvalid) rfl h (Or.inl hconfig)

theorem pending_config (h : Reachable Call.body Env.fresh env) {proposed : ProtocolConfig}
    (hp : env.ledger.get .protocolConfigCandidate = some proposed) : ValidConfig proposed :=
  Amendment.refines_valid (fun _ _ _ hc => commits_config hc) (fun _ _ hvalid => hvalid) rfl h
    (Or.inr hp)

theorem two_step_governance (is : List (Signed Address)) :
    (∀ kind, TwoStep (capOf kind) (Call.capAct kind) is) ∧
    TwoStep configOf Call.configAct is ∧
    (∀ kind, 0 ≤ (getCap kind (run Call.body is Env.fresh).ledger).val ∧
      ∀ proposed, (run Call.body is Env.fresh).ledger.get (.capCandidate kind) = some proposed →
        0 ≤ proposed.val ∧ proposed ≠ getCap kind (run Call.body is Env.fresh).ledger) ∧
    (∀ kind admin previous new,
      .capAmended kind admin previous new ∈ (run Call.body is Env.fresh).events →
      previous ≠ new) ∧
    ValidConfig (getConfig (run Call.body is Env.fresh).ledger) ∧
    ∀ proposed, (run Call.body is Env.fresh).ledger.get .protocolConfigCandidate = some proposed →
      ValidConfig proposed := by
  have h : Reachable Call.body Env.fresh (run Call.body is Env.fresh) := ⟨is,rfl⟩
  refine ⟨fun kind => ?_,?_,fun kind => ⟨active_cap h kind,fun _ hp => pending_cap h hp⟩,
    fun _ _ _ _ hmem => capAmended_changes h hmem,active_config h,fun _ hp => pending_config h hp⟩
  · exact twoStep_of_refines (fun _ _ _ hc => commits_cap kind hc)
      (fun _ _ _ _ hc hact => cap_signed hc hact) rfl is
  · exact twoStep_of_refines (fun _ _ _ hc => commits_config hc)
      (fun _ _ _ _ hc hact => config_signed hc hact) rfl is

end Aegis
