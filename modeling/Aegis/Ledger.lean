import Aegis.HostKit.CheckedInt
import Aegis.HostKit.Store

/-!
# The contract's ledger

The keys of contract storage, the type stored under each, and the events the
contract publishes. Addresses are opaque values with decidable equality.
Instance and persistent storage are one store here: no key is in both.
-/

set_option autoImplicit false

namespace Aegis
open HostKit

abbrev I128 := CheckedInt (-2^127) (2^127-1)

instance : Zero I128 := ⟨⟨0,by decide,by decide⟩⟩

inductive Role where
  | none
  | admin
  | complianceOfficer
  | assetManager
  | emergencyOfficer
  deriving DecidableEq, Repr

inductive ComplianceStatus where
  | unknown
  | pending
  | approved
  | revoked
  | blocked
  deriving DecidableEq, Repr

inductive AssetStatus where
  | draft
  | active
  | paused
  | retired
  | blocked
  deriving DecidableEq, Repr

structure IssuerSeparationPolicy where
  enforced : Bool
  allowDualDutyIssuance : Bool
  allowSelfIssuance : Bool
  requireIndependentApprover : Bool
  deriving DecidableEq, Repr

structure ProtocolConfig where
  minTransferAmount : I128
  maxBatchSize : UInt32
  deriving DecidableEq

/-- The two caps the contract governs by the same two-step flow. -/
inductive Cap where
  | supply
  | holding
  deriving DecidableEq, Repr

/-- Storage keys. The supply and the holding cap differ in nothing but their
key, so they and their candidates are one family each. -/
inductive DataKey (Address : Type) where
  | admin
  | adminCandidate
  | role (address : Address)
  | whitelist (address : Address)
  | complianceStatus (address : Address)
  | balance (address : Address)
  | totalSupply
  | paused
  | cap (kind : Cap)
  | capCandidate (kind : Cap)
  | assetStatus
  | assetName
  | assetSymbol
  | assetMetadataUri
  | complianceApprover (address : Address)
  | issuerSeparationPolicy
  | protocolConfig
  | protocolConfigCandidate
  deriving DecidableEq

namespace DataKey
variable {Address : Type}

abbrev supplyCap : DataKey Address := .cap .supply
abbrev supplyCapCandidate : DataKey Address := .capCandidate .supply
abbrev holdingCap : DataKey Address := .cap .holding
abbrev holdingCapCandidate : DataKey Address := .capCandidate .holding

@[reducible] def Value : DataKey Address → Type
  | admin => Address
  | adminCandidate => Address
  | role _ => Role
  | whitelist _ => Bool
  | complianceStatus _ => ComplianceStatus
  | balance _ => I128
  | totalSupply => I128
  | paused => Bool
  | cap _ => I128
  | capCandidate _ => I128
  | assetStatus => AssetStatus
  | assetName => String
  | assetSymbol => String
  | assetMetadataUri => String
  | complianceApprover _ => Address
  | issuerSeparationPolicy => IssuerSeparationPolicy
  | protocolConfig => ProtocolConfig
  | protocolConfigCandidate => ProtocolConfig

end DataKey

abbrev Ledger (Address : Type) := Store (DataKey Address) DataKey.Value

def getBalanceOf {Address : Type} (address : Address) (l : Ledger Address) : I128 :=
  (l.get (.balance address)).getD 0

def getTotalSupply {Address : Type} (l : Ledger Address) : I128 := (l.get .totalSupply).getD 0

/-- Published events, one constructor for each topic and its payload. -/
inductive Event (Address : Type) where
  | contractInitialized (admin : Address)
  | roleAssigned (admin target : Address) (role : Role)
  | roleRevoked (admin target : Address) (role : Role)
  | adminTransferInitiated (currentAdmin candidate : Address)
  | adminTransferred (previousAdmin newAdmin : Address)
  | adminRenounced (previousAdmin newAdmin : Address)
  | contractPaused (admin : Address)
  | contractUnpaused (admin : Address)
  | userWhitelisted (caller user : Address)
  | whitelistRevoked (caller user : Address)
  | complianceStatusChanged (caller user : Address) (previousStatus newStatus : ComplianceStatus)
  | assetMinted (caller recipient : Address) (amount totalSupply : I128)
  | transfer (sender recipient : Address) (amount : I128)
  | yieldDistributed (caller : Address) (amount : I128)
  | assetMetadataUpdated (caller : Address) (name symbol uri : String)
  | assetStatusChanged (admin : Address) (previousStatus newStatus : AssetStatus)
  | capProposed (kind : Cap) (admin : Address) (currentCap proposedCap : I128)
  | capAmended (kind : Cap) (admin : Address) (previousCap newCap : I128)
  | configProposed (admin : Address) (proposedConfig : ProtocolConfig)
  | configAmended (admin : Address) (newConfig : ProtocolConfig)
  | issuerSeparationPolicyUpdated (admin : Address)
      (previousPolicy newPolicy : IssuerSeparationPolicy)
  deriving DecidableEq

/-! Writes under one of two addresses of the same key family. -/

section
variable {Address : Type} [DecidableEq Address] (l : Ledger Address) (a b : Address)

theorem get_set_balance (v : I128) :
    (l.set (.balance a) v).get (.balance b) = if b = a then some v else l.get (.balance b) := by
  by_cases h : b = a
  · subst h
    simp
  · simp [h]

theorem get_set_complianceStatus (v : ComplianceStatus) :
    (l.set (.complianceStatus a) v).get (.complianceStatus b) =
      if b = a then some v else l.get (.complianceStatus b) := by
  by_cases h : b = a
  · subst h
    simp
  · simp [h]

end

end Aegis
