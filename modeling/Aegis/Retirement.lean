import Aegis.MintPreflight
import Aegis.TransferPreflight

/-!
# Retirement

No edge of the lifecycle leaves the retired status. The movers ask for an
active asset and the metadata writer for one that is not retired, so the
books and the metadata of a retired asset stay as they are under any
further calls, and neither evaluator admits a movement again.
-/

set_option autoImplicit false

namespace Aegis
open HostKit

variable {Address : Type}

/-! ## The terminal reason -/

section
variable {sender caller recipient : Address} {amount : I128} {l : Ledger Address}
  {r reason : RestrictionReason} {verdict : Except Failure RestrictionReason}

theorem isTerminal_iff : reason.isTerminal = true ↔ reason = .assetRetired := by
  simp [RestrictionReason.isTerminal]

theorem isTerminal_assetStatusReason {s : AssetStatus}
    (h : (assetStatusReason s).isTerminal = true) : s = .retired := by
  revert h
  cases s <;> decide

/-- A stage whose own reason is not terminal reports no terminal one. -/
theorem stage_terminal {p : Prop} [Decidable p] (hterminal : reason.isTerminal = true)
    (hr : r.isTerminal = false) (h : (if p then .ok r else verdict) = .ok reason) :
    verdict = .ok reason := by
  split_ifs at h
  · cases h
    rw [hr] at hterminal
    cases hterminal
  · exact h

theorem capStage_terminal {exceeds : Except Failure Bool} (hterminal : reason.isTerminal = true)
    (hr : r.isTerminal = false)
    (h : (exceeds >>= fun exceeded => if exceeded then .ok r else verdict) = .ok reason) :
    verdict = .ok reason := by
  obtain ⟨exceeded, -, h⟩ := guard_bind_ok_iff.mp h
  exact stage_terminal hterminal hr h

/-- Past the asset stage no reason is terminal, and that stage reports one
for a retired asset alone. -/
theorem assetStage_terminal (hterminal : reason.isTerminal = true)
    (hrest : verdict ≠ .ok reason)
    (h : (if (assetStatusReason (getAssetStatus l)).isBlocked then
      .ok (assetStatusReason (getAssetStatus l)) else verdict) = .ok reason) :
    getAssetStatus l = .retired := by
  split_ifs at h
  · cases h
    exact isTerminal_assetStatusReason hterminal
  · exact absurd h hrest

theorem terminal_transfer (hterminal : reason.isTerminal = true)
    (h : checkTransferRestriction sender recipient amount l = .ok reason) :
    getAssetStatus l = .retired := by
  have hpaused := stage_terminal hterminal rfl h
  have hamount := stage_terminal hterminal rfl hpaused
  apply assetStage_terminal hterminal _ hamount
  intro hrest
  have hsender := stage_terminal hterminal rfl hrest
  have hrecipient := stage_terminal hterminal rfl hsender
  have hholding := capStage_terminal hterminal rfl hrecipient
  cases stage_terminal hterminal rfl hholding
  cases hterminal

theorem terminal_mint [DecidableEq Address] (hterminal : reason.isTerminal = true)
    (h : checkMintRestriction caller recipient amount l = .ok reason) :
    getAssetStatus l = .retired := by
  have hpaused := stage_terminal hterminal rfl h
  have hcaller := stage_terminal hterminal rfl hpaused
  have hamount := stage_terminal hterminal rfl hcaller
  apply assetStage_terminal hterminal _ hamount
  intro hrest
  have hrecipient := stage_terminal hterminal rfl hrest
  have hsupply := capStage_terminal hterminal rfl hrecipient
  cases capStage_terminal hterminal rfl hsupply
  cases hterminal

theorem retired_no_transfer (hret : getAssetStatus l = .retired) (sender recipient : Address)
    (amount : I128) : checkTransferRestriction sender recipient amount l ≠ .ok .none := by
  intro h
  have hactive := (evaluateTransfer_none.mp h).active
  rw [hret] at hactive
  cases hactive

theorem retired_no_mint [DecidableEq Address] (hret : getAssetStatus l = .retired)
    (caller recipient : Address) (amount : I128) :
    checkMintRestriction caller recipient amount l ≠ .ok .none := by
  intro h
  have hactive := (evaluateMint_none.mp h).2.2.2.1
  rw [hret] at hactive
  cases hactive

end

/-! ## Runs of a retired asset -/

/-- What a retired asset keeps for good. -/
def retiredKeys : Set (DataKey Address) :=
  {.assetStatus, .totalSupply, .assetName, .assetSymbol, .assetMetadataUri} ∪ Set.range .balance

theorem no_way_out (next : AssetStatus) : isValidTransition .retired next = false := by
  cases next <;> rfl

variable [DecidableEq Address] {env env' : Env Address} {i : Signed Address}

theorem retired_commits (hret : getAssetStatus env.ledger = .retired)
    (h : Commits Call.body env i env') {k : DataKey Address} (hk : k ∈ retiredKeys) :
    env'.ledger.get k = env.ledger.get k := by
  have hactive : getAssetStatus env.ledger ≠ .active := by simp [hret]
  obtain ⟨auth, c⟩ := i
  cases c with
  | setAssetStatus admin newStatus =>
    have hedge := (setAssetStatus_ok.mp h).2.2.2.1
    rw [hret, no_way_out] at hedge
    cases hedge
  | updateAssetMetadata caller name symbol uri =>
    exact absurd hret (updateAssetMetadata_ok.mp h).2.2.2.1
  | mintAsset admin recipient amount => exact absurd (mintAsset_ok.mp h).2.1.active hactive
  | transfer sender recipient amount => exact absurd (transfer_ok.mp h).2.1.active hactive
  | _ =>
    apply commits_unchanged h
    rcases hk with (rfl | rfl | rfl | rfl | rfl) | ⟨a, rfl⟩ <;> simp [Call.writes, statusKeys]

theorem retired_run (is : List (Signed Address)) (hret : getAssetStatus env.ledger = .retired) :
    getAssetStatus (run Call.body is env).ledger = .retired ∧
      ∀ k ∈ retiredKeys, (run Call.body is env).ledger.get k = env.ledger.get k := by
  apply run_preserves (P := fun s : Env Address => getAssetStatus s.ledger = .retired ∧
    ∀ k ∈ retiredKeys, s.ledger.get k = env.ledger.get k) _ is ⟨hret,fun _ _ => rfl⟩
  rintro s i t ⟨hs, hkept⟩ hc
  have hstep : ∀ k ∈ retiredKeys, t.ledger.get k = s.ledger.get k :=
    fun k hk => retired_commits hs hc hk
  refine ⟨?_,fun k hk => (hstep k hk).trans (hkept k hk)⟩
  rw [getAssetStatus, hstep _ (by simp [retiredKeys])]
  exact hs

theorem retirement_is_terminal (env : Env Address) :
    (getAssetStatus env.ledger = .retired → ∀ is,
      getAssetStatus (run Call.body is env).ledger = .retired ∧
        (∀ k ∈ retiredKeys, (run Call.body is env).ledger.get k = env.ledger.get k) ∧
        (∀ sender recipient amount,
          checkTransferRestriction sender recipient amount (run Call.body is env).ledger ≠
            .ok .none) ∧
        ∀ caller recipient amount,
          checkMintRestriction caller recipient amount (run Call.body is env).ledger ≠
            .ok .none) ∧
    ∀ reason : RestrictionReason, (reason.isTerminal = true ↔ reason = .assetRetired) ∧
      (reason.isTerminal = true → ∀ is,
        (∀ sender recipient amount,
          checkTransferRestriction sender recipient amount env.ledger = .ok reason →
          checkTransferRestriction sender recipient amount (run Call.body is env).ledger ≠
            .ok .none) ∧
        ∀ caller recipient amount,
          checkMintRestriction caller recipient amount env.ledger = .ok reason →
          checkMintRestriction caller recipient amount (run Call.body is env).ledger ≠
            .ok .none) := by
  refine ⟨fun hret is => ?_,fun reason => ⟨isTerminal_iff,fun hterminal is => ⟨?_,?_⟩⟩⟩
  · obtain ⟨hstays, hkept⟩ := retired_run is hret
    exact ⟨hstays,hkept,retired_no_transfer hstays,retired_no_mint hstays⟩
  · intro sender recipient amount h
    have hstays := (retired_run is (terminal_transfer hterminal h)).1
    exact retired_no_transfer hstays sender recipient amount
  · intro caller recipient amount h
    have hstays := (retired_run is (terminal_mint hterminal h)).1
    exact retired_no_mint hstays caller recipient amount

end Aegis
