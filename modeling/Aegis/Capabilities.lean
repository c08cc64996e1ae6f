import Aegis.System

/-!
# Capabilities and interface compatibility

The descriptor of a deployment mixes what is fixed for the build with
switches read from the ledger. The registry of keys is a second copy of the
table the resolver reads, and misses one of its keys. No key resolves
through a switch, so what a client is told about the keys it requires does
not depend on the state.
-/

set_option autoImplicit false

namespace Aegis
open HostKit

def capabilitySchemaVersion : UInt32 := 5

inductive CapabilityStatus where
  | unsupported
  | planned
  | supported
  deriving DecidableEq, Repr

/-! ## The descriptor -/

structure ComplianceCapabilities where
  moduleEnabled : Bool
  whitelist : CapabilityStatus
  whitelistRevocation : CapabilityStatus
  batchWhitelisting : CapabilityStatus
  batchStatusUpdates : CapabilityStatus
  investorTiers : CapabilityStatus
  lifecycleStates : CapabilityStatus
  lifecycleTransitions : CapabilityStatus
  transitionGuards : CapabilityStatus
  eligibilityReads : CapabilityStatus
  enforcedOnMint : Bool
  enforcedOnTransfer : Bool
  deriving DecidableEq

structure MintingCapabilities where
  moduleEnabled : Bool
  minting : CapabilityStatus
  burning : CapabilityStatus
  supplyCap : CapabilityStatus
  supplyCapEnforced : Bool
  yieldDistribution : CapabilityStatus
  issuerSeparation : CapabilityStatus
  issuerSeparationEnforced : Bool
  deriving DecidableEq

structure TransferCapabilities where
  moduleEnabled : Bool
  transfers : CapabilityStatus
  holdingCap : CapabilityStatus
  holdingCapEnforced : Bool
  allowances : CapabilityStatus
  transferFrom : CapabilityStatus
  transferFees : CapabilityStatus
  transferEligibilityCheck : CapabilityStatus
  transferRestrictionReasons : CapabilityStatus
  deriving DecidableEq

structure PauseCapabilities where
  moduleEnabled : Bool
  globalPause : CapabilityStatus
  paused : Bool
  assetLifecycle : CapabilityStatus
  assetActive : Bool
  operationsEnabled : Bool
  deriving DecidableEq

structure MetadataCapabilities where
  moduleEnabled : Bool
  nameAndSymbol : CapabilityStatus
  metadataUri : CapabilityStatus
  decimals : CapabilityStatus
  metadataConfigured : Bool
  lifecycleRestricted : Bool
  deriving DecidableEq

structure ConfigCapabilities where
  moduleEnabled : Bool
  globalConfig : CapabilityStatus
  deriving DecidableEq

structure EventCapabilities where
  moduleEnabled : Bool
  complianceEvents : CapabilityStatus
  complianceLifecycleEvents : CapabilityStatus
  mintingEvents : CapabilityStatus
  transferEvents : CapabilityStatus
  adminEvents : CapabilityStatus
  governanceEvents : CapabilityStatus
  assetLifecycleEvents : CapabilityStatus
  transferRestrictionEvents : CapabilityStatus
  assetRegisteredEvent : CapabilityStatus
  deriving DecidableEq

structure ContractCapabilities where
  capabilityVersion : UInt32
  contractVersion : String
  initialized : Bool
  rbac : CapabilityStatus
  twoStepGovernance : CapabilityStatus
  sep41TokenInterface : CapabilityStatus
  compliance : ComplianceCapabilities
  minting : MintingCapabilities
  transfers : TransferCapabilities
  pause : PauseCapabilities
  metadata : MetadataCapabilities
  events : EventCapabilities
  config : ConfigCapabilities
  deriving DecidableEq

def statusOf (enabled : Bool) : CapabilityStatus := if enabled then .supported else .unsupported

variable {Address : Type}

def isMetadataConfigured (l : Ledger Address) : Bool :=
  !((l.get .assetName).getD "").isEmpty && !((l.get .assetSymbol).getD "").isEmpty

def getCapabilities (l : Ledger Address) : ContractCapabilities :=
  { capabilityVersion := capabilitySchemaVersion
    contractVersion := "0.1.0"
    initialized := l.has .admin
    rbac := .supported
    twoStepGovernance := .supported
    sep41TokenInterface := .planned
    compliance :=
      { moduleEnabled := true
        whitelist := .supported
        whitelistRevocation := .supported
        batchWhitelisting := .supported
        batchStatusUpdates := .supported
        investorTiers := .unsupported
        lifecycleStates := .supported
        lifecycleTransitions := .supported
        transitionGuards := .supported
        eligibilityReads := .supported
        enforcedOnMint := true
        enforcedOnTransfer := true }
    minting :=
      { moduleEnabled := true
        minting := .supported
        burning := .unsupported
        supplyCap := .supported
        supplyCapEnforced := 0 < (getSupplyCap l).val
        yieldDistribution := .planned
        issuerSeparation := .supported
        issuerSeparationEnforced := (getPolicy l).enforced }
    transfers :=
      { moduleEnabled := true
        transfers := .supported
        holdingCap := .supported
        holdingCapEnforced := 0 < (getHoldingCap l).val
        allowances := .planned
        transferFrom := .planned
        transferFees := .planned
        transferEligibilityCheck := .supported
        transferRestrictionReasons := .supported }
    pause :=
      { moduleEnabled := true
        globalPause := .supported
        paused := isPaused l
        assetLifecycle := .supported
        assetActive := getAssetStatus l = .active
        operationsEnabled := !isPaused l && getAssetStatus l = .active }
    metadata :=
      { moduleEnabled := true
        nameAndSymbol := .supported
        metadataUri := .supported
        decimals := .planned
        metadataConfigured := isMetadataConfigured l
        lifecycleRestricted := true }
    events :=
      { moduleEnabled := true
        complianceEvents := .supported
        complianceLifecycleEvents := .supported
        mintingEvents := .supported
        transferEvents := .supported
        adminEvents := .supported
        governanceEvents := .supported
        assetLifecycleEvents := .supported
        transferRestrictionEvents := .unsupported
        assetRegisteredEvent := .planned }
    config :=
      { moduleEnabled := true
        globalConfig := .supported } }

/-! ## Keys -/

/-- At most 32 of the characters `a-zA-Z0-9_`. -/
def isSymbol (name : String) : Bool :=
  name.toList.length ≤ 32 && name.toList.all fun c => c.isAlphanum || c = '_'

structure Symbol where
  name : String
  wellFormed : isSymbol name = true
  deriving DecidableEq

/-- What a descriptor says of one key. A key it does not know is unsupported. -/
def resolveCapability (caps : ContractCapabilities) (capability : Symbol) : CapabilityStatus :=
  match capability.name with
  | "rbac" => caps.rbac
  | "two_step_governance" => caps.twoStepGovernance
  | "sep41" => caps.sep41TokenInterface
  | "compliance" => statusOf caps.compliance.moduleEnabled
  | "whitelist" => caps.compliance.whitelist
  | "whitelist_revocation" => caps.compliance.whitelistRevocation
  | "batch_whitelisting" => caps.compliance.batchWhitelisting
  | "compliance_batch_updates" => caps.compliance.batchStatusUpdates
  | "investor_tiers" => caps.compliance.investorTiers
  | "compliance_lifecycle" => caps.compliance.lifecycleStates
  | "compliance_transitions" => caps.compliance.lifecycleTransitions
  | "compliance_transition_guards" => caps.compliance.transitionGuards
  | "eligibility_reads" => caps.compliance.eligibilityReads
  | "minting" => caps.minting.minting
  | "burning" => caps.minting.burning
  | "supply_cap" => caps.minting.supplyCap
  | "issuer_separation" => caps.minting.issuerSeparation
  | "yield_distribution" => caps.minting.yieldDistribution
  | "transfers" => caps.transfers.transfers
  | "holding_cap" => caps.transfers.holdingCap
  | "allowances" => caps.transfers.allowances
  | "transfer_from" => caps.transfers.transferFrom
  | "transfer_fees" => caps.transfers.transferFees
  | "transfer_eligibility" => caps.transfers.transferEligibilityCheck
  | "transfer_restriction_reasons" => caps.transfers.transferRestrictionReasons
  | "pause" => caps.pause.globalPause
  | "asset_lifecycle" => caps.pause.assetLifecycle
  | "metadata" => caps.metadata.nameAndSymbol
  | "metadata_uri" => caps.metadata.metadataUri
  | "decimals" => caps.metadata.decimals
  | "global_config" => caps.config.globalConfig
  | "events" => statusOf caps.events.moduleEnabled
  | "compliance_lifecycle_events" => caps.events.complianceLifecycleEvents
  | "transfer_restriction_events" => caps.events.transferRestrictionEvents
  | "asset_registered_event" => caps.events.assetRegisteredEvent
  | _ => .unsupported

def supportsCapability (capability : Symbol) (l : Ledger Address) : CapabilityStatus :=
  resolveCapability (getCapabilities l) capability

/-! ## The registry -/

/-- The keys a client may enumerate. -/
def getCapabilityKeys : List Symbol :=
  [⟨"rbac",by decide⟩,
   ⟨"two_step_governance",by decide⟩,
   ⟨"sep41",by decide⟩,
   ⟨"compliance",by decide⟩,
   ⟨"whitelist",by decide⟩,
   ⟨"whitelist_revocation",by decide⟩,
   ⟨"batch_whitelisting",by decide⟩,
   ⟨"compliance_batch_updates",by decide⟩,
   ⟨"investor_tiers",by decide⟩,
   ⟨"compliance_lifecycle",by decide⟩,
   ⟨"compliance_transitions",by decide⟩,
   ⟨"eligibility_reads",by decide⟩,
   ⟨"minting",by decide⟩,
   ⟨"burning",by decide⟩,
   ⟨"supply_cap",by decide⟩,
   ⟨"yield_distribution",by decide⟩,
   ⟨"issuer_separation",by decide⟩,
   ⟨"transfers",by decide⟩,
   ⟨"holding_cap",by decide⟩,
   ⟨"allowances",by decide⟩,
   ⟨"transfer_from",by decide⟩,
   ⟨"transfer_fees",by decide⟩,
   ⟨"transfer_eligibility",by decide⟩,
   ⟨"transfer_restriction_reasons",by decide⟩,
   ⟨"pause",by decide⟩,
   ⟨"asset_lifecycle",by decide⟩,
   ⟨"metadata",by decide⟩,
   ⟨"metadata_uri",by decide⟩,
   ⟨"decimals",by decide⟩,
   ⟨"events",by decide⟩,
   ⟨"compliance_lifecycle_events",by decide⟩,
   ⟨"transfer_restriction_events",by decide⟩,
   ⟨"asset_registered_event",by decide⟩,
   ⟨"global_config",by decide⟩]

theorem getCapabilityKeys_nodup : getCapabilityKeys.Nodup := by decide

theorem mem_getCapabilityKeys {capability : Symbol} {name : String}
    (hname : capability.name = name) (hlisted : name ∈ getCapabilityKeys.map Symbol.name) :
    capability ∈ getCapabilityKeys := by
  obtain ⟨key, hkey, rfl⟩ := List.mem_map.mp hlisted
  obtain ⟨name, hsymbol⟩ := capability
  cases hname
  exact hkey

/-- The resolver and the registry are two tables of the same keys but one. -/
theorem resolve_unlisted (caps : ContractCapabilities) {capability : Symbol}
    (hunlisted : capability ∉ getCapabilityKeys)
    (hname : capability.name ≠ "compliance_transition_guards") :
    resolveCapability caps capability = .unsupported := by
  rw [resolveCapability]
  split
  case h_12 hguards => exact absurd hguards hname
  case h_36 => rfl
  all_goals
    next hresolved => exact absurd (mem_getCapabilityKeys hresolved (by decide)) hunlisted

/-- A key left out is answered as unknown, and no key is listed twice. -/
def RegistryComplete (capability : Symbol) (l : Ledger Address) : Prop :=
  (capability ∉ getCapabilityKeys → supportsCapability capability l = .unsupported) ∧
    getCapabilityKeys.Nodup

theorem registry_complete_iff (capability : Symbol) (l : Ledger Address) :
    RegistryComplete capability l ↔ capability.name ≠ "compliance_transition_guards" := by
  constructor
  · rintro ⟨hunknown, -⟩ hname
    have hunlisted : capability ∉ getCapabilityKeys := by
      intro hlisted
      have hmem := List.mem_map_of_mem (f := Symbol.name) hlisted
      rw [hname] at hmem
      exact absurd hmem (by decide)
    have hsupported : supportsCapability capability l = .supported := by
      rw [supportsCapability, resolveCapability, hname]
      rfl
    rw [hunknown hunlisted] at hsupported
    cases hsupported
  · intro hname
    exact ⟨fun hunlisted => resolve_unlisted _ hunlisted hname,getCapabilityKeys_nodup⟩

/-- The deployment supports the transition guards and does not list their key. -/
theorem transition_guards_unlisted :
    Reachable Call.body Env.fresh deployed ∧
      (⟨"compliance_transition_guards",by decide⟩ : Symbol) ∉ getCapabilityKeys ∧
      supportsCapability ⟨"compliance_transition_guards",by decide⟩ deployed.ledger = .supported ∧
      ¬RegistryComplete ⟨"compliance_transition_guards",by decide⟩ deployed.ledger := by
  refine ⟨⟨deployment,rfl⟩,by decide,rfl,fun h => ?_⟩
  have hsupported : supportsCapability ⟨"compliance_transition_guards",by decide⟩
      deployed.ledger = .unsupported := h.1 (by decide)
  cases hsupported

/-! ## What may be cached -/

/-- A descriptor with its runtime switches off: `initialized`, `paused`,
`asset_active`, `operations_enabled`, `metadata_configured` and `*_enforced`. -/
def ContractCapabilities.withoutSwitches (caps : ContractCapabilities) : ContractCapabilities :=
  { caps with
    initialized := false
    minting := { caps.minting with supplyCapEnforced := false, issuerSeparationEnforced := false }
    transfers := { caps.transfers with holdingCapEnforced := false }
    pause := { caps.pause with paused := false, assetActive := false, operationsEnabled := false }
    metadata := { caps.metadata with metadataConfigured := false } }

/-- The ledger sets the switches and nothing else. -/
theorem getCapabilities_static (l l' : Ledger Address) :
    (getCapabilities l).withoutSwitches = (getCapabilities l').withoutSwitches := rfl

theorem resolve_withoutSwitches (caps : ContractCapabilities) (capability : Symbol) :
    resolveCapability caps.withoutSwitches capability = resolveCapability caps capability := by
  rw [resolveCapability, resolveCapability]
  split <;> rfl

theorem supportsCapability_static (capability : Symbol) (l l' : Ledger Address) :
    supportsCapability capability l = supportsCapability capability l' := by
  rw [supportsCapability, supportsCapability, ← resolve_withoutSwitches,
    getCapabilities_static l l', resolve_withoutSwitches]

/-! ## Interface compatibility -/

inductive SchemaVersionRelation where
  | matching
  | clientOlder
  | clientNewer
  deriving DecidableEq, Repr

structure InterfaceCompatibilityReport where
  contractSchemaVersion : UInt32
  clientSchemaVersion : UInt32
  schemaRelation : SchemaVersionRelation
  unsupportedRequired : List Symbol
  compatible : Bool
  deriving DecidableEq

/-- The loop over the required keys, `unsupported` being what it has pushed. -/
def collectUnsupported (l : Ledger Address) (unsupported : List Symbol) :
    List Symbol → List Symbol
  | [] => unsupported
  | key::keys =>
    if supportsCapability key l ≠ .supported then
      collectUnsupported l (unsupported++[key]) keys
    else
      collectUnsupported l unsupported keys

def checkInterfaceCompatibility (clientSchemaVersion : UInt32) (requiredCapabilities : List Symbol)
    (l : Ledger Address) : InterfaceCompatibilityReport :=
  let schemaRelation :=
    if clientSchemaVersion = capabilitySchemaVersion then .matching
    else if clientSchemaVersion < capabilitySchemaVersion then .clientOlder
    else .clientNewer
  let unsupportedRequired := collectUnsupported l [] requiredCapabilities
  { contractSchemaVersion := capabilitySchemaVersion
    clientSchemaVersion
    schemaRelation
    compatible := unsupportedRequired.isEmpty
    unsupportedRequired }

theorem collectUnsupported_eq (l : Ledger Address) (unsupported keys : List Symbol) :
    collectUnsupported l unsupported keys =
      unsupported++keys.filter (supportsCapability · l ≠ .supported) := by
  induction keys generalizing unsupported with
  | nil => simp [collectUnsupported]
  | cons key keys ih =>
    by_cases hkey : supportsCapability key l = .supported
    · simp [collectUnsupported, ih, hkey]
    · simp [collectUnsupported, ih, hkey]

theorem collectUnsupported_static (l l' : Ledger Address) (unsupported keys : List Symbol) :
    collectUnsupported l unsupported keys = collectUnsupported l' unsupported keys := by
  have hfilter : keys.filter (supportsCapability · l ≠ .supported) =
      keys.filter (supportsCapability · l' ≠ .supported) :=
    List.filter_congr fun key _ => by rw [supportsCapability_static key l l']
  rw [collectUnsupported_eq, collectUnsupported_eq, hfilter]

theorem interface_check_exact (clientSchemaVersion : UInt32) (required : List Symbol) :
    (∀ l : Ledger Address,
      (checkInterfaceCompatibility clientSchemaVersion required l).unsupportedRequired =
        required.filter (supportsCapability · l ≠ .supported) ∧
      ((checkInterfaceCompatibility clientSchemaVersion required l).compatible = true ↔
        (checkInterfaceCompatibility clientSchemaVersion required l).unsupportedRequired = [])) ∧
    ∀ l l' : Ledger Address, checkInterfaceCompatibility clientSchemaVersion required l =
      checkInterfaceCompatibility clientSchemaVersion required l' := by
  refine ⟨fun l => ⟨?_,?_⟩,fun l l' => ?_⟩
  · exact collectUnsupported_eq l [] required
  · exact List.isEmpty_iff
  · rw [checkInterfaceCompatibility, checkInterfaceCompatibility, collectUnsupported_static l l']

end Aegis
