import Aegis.Governance

/-!
# What the latest call left

The reads of a pending proposal and of the metadata answer from the history
of the contract: what is pending is what the admin of its time lately
proposed and nobody has accepted or withdrawn, and the metadata are the three
strings of one call, the latest update.
-/

set_option autoImplicit false

namespace Aegis
open HostKit

variable {Address : Type} [DecidableEq Address] {env env' : Env Address} {i : Signed Address}

/-! ## Pending proposals -/

theorem lately_proposed_iff {V : Type} {vetted : Option V → V → Prop}
    {view : Ledger Address → Amendment V} {act : Call Address → Option (Amendment.Act V)}
    (hrefines : Machine.Refines Call.body (Amendment.machine vetted)
      (fun s : Env Address => view s.ledger) act)
    (hsigned : ∀ (s : Env Address) i t a, Commits Call.body s i t → act i.call = some a →
      SignedByAdmin s i)
    (h0 : (view Store.empty).pending = none) (is : List (Signed Address)) (v : V) :
    (view (run Call.body is Env.fresh).ledger).pending = some v ↔
      LatelyProposed act v (trace Call.body is Env.fresh) := by
  constructor
  · intro hv
    have hsince := Amendment.pending_proposed hrefines is h0 hv
    refine hsince.mono (fun t ht hpropose => ⟨hpropose,?_⟩) fun t _ hnone => hnone
    exact hsigned _ _ _ _ (mem_trace ht).2 hpropose
  · intro hlately
    apply Amendment.pending_of_proposed hrefines is
    exact hlately.mono (fun t _ ht => ht.1) fun t _ hnone => hnone

/-- The pending reads answer with the latest proposal of their kind, if no call
has decided it since. -/
theorem pending_reads_exact (is : List (Signed Address)) :
    (∀ proposed, getPendingSupplyCap (run Call.body is Env.fresh).ledger = some proposed ↔
      LatelyProposed (Call.capAct .supply) proposed (trace Call.body is Env.fresh)) ∧
    (∀ proposed, getPendingHoldingCap (run Call.body is Env.fresh).ledger = some proposed ↔
      LatelyProposed (Call.capAct .holding) proposed (trace Call.body is Env.fresh)) ∧
    ∀ proposed, getPendingConfig (run Call.body is Env.fresh).ledger = some proposed ↔
      LatelyProposed Call.configAct proposed (trace Call.body is Env.fresh) := by
  have hcap : ∀ (kind : Cap) (proposed : I128),
      (run Call.body is Env.fresh).ledger.get (.capCandidate kind) = some proposed ↔
        LatelyProposed (Call.capAct kind) proposed (trace Call.body is Env.fresh) :=
    fun kind => lately_proposed_iff (fun _ _ _ hc => commits_cap kind hc)
      (fun _ _ _ _ hc hact => cap_signed hc hact) rfl is
  exact ⟨hcap .supply,hcap .holding,
    lately_proposed_iff (fun _ _ _ hc => commits_config hc)
      (fun _ _ _ _ hc hact => config_signed hc hact) rfl is⟩

/-! ## Metadata -/

def Call.metadata : Call Address → Option AssetMetadata
  | .updateAssetMetadata _ name symbol uri => some ⟨name,symbol,uri⟩
  | _ => none

/-- An update needs an asset manager or the admin, a running contract, and an
asset that is neither retired nor blocked. -/
structure Described (m : AssetMetadata)
    (t : Transition (Auth Address) (Call Address) (Env Address)) : Prop where
  written : t.via.call.metadata = some m
  managed : ActsAs t.via.call.signer (· = .assetManager) t.pre.ledger
  running : isPaused t.pre.ledger = false
  inService : getAssetStatus t.pre.ledger ≠ .retired ∧ getAssetStatus t.pre.ledger ≠ .blocked

theorem commits_metadata (h : Commits Call.body env i env') :
    getAssetMetadata env'.ledger = i.call.metadata.getD (getAssetMetadata env.ledger) ∧
      ∀ m, i.call.metadata = some m → Described m ⟨env,i,env'⟩ := by
  obtain ⟨auth, c⟩ := i
  cases c with
  | updateAssetMetadata caller name symbol uri =>
    obtain ⟨hrun, -, hacts, hretired, hblocked, rfl⟩ := updateAssetMetadata_ok.mp h
    refine ⟨by simp [getAssetMetadata, Call.metadata],fun m hm => ?_⟩
    exact ⟨hm,hacts,hrun,hretired,hblocked⟩
  | _ =>
    refine ⟨?_,by simp [Call.metadata]⟩
    rw [getAssetMetadata, commits_unchanged h (by simp [Call.writes, statusKeys]),
      commits_unchanged h (by simp [Call.writes, statusKeys]),
      commits_unchanged h (by simp [Call.writes, statusKeys])]
    rfl

/-- The metadata read is blank until the first update, and then the strings of
the latest one, all three from the same call. -/
theorem metadata_latest (is : List (Signed Address)) :
    (∀ t ∈ trace Call.body is Env.fresh, t.via.call.metadata = none) ∧
        getAssetMetadata (run Call.body is Env.fresh).ledger = ⟨"","",""⟩ ∨
      Since (Described (getAssetMetadata (run Call.body is Env.fresh).ledger))
        (fun t => t.via.call.metadata = none) (trace Call.body is Env.fresh) := by
  have hwritten : WrittenBy Call.body (fun s : Env Address => getAssetMetadata s.ledger)
      fun t => t.via.call.metadata := fun s i t hc => (commits_metadata hc).1
  rcases hwritten.latest is Env.fresh with ⟨hnone, hsame⟩ | hsince
  · exact Or.inl ⟨hnone,hsame⟩
  · right
    refine hsince.mono (fun t ht hm => ?_) fun t _ hnone => hnone
    exact (commits_metadata (mem_trace ht).2).2 _ hm

end Aegis
