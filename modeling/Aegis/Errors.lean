import Mathlib.Init

/-!
# Contract errors

The numbered error codes, in ranges by category. Codes are append-only, so
a client classifies a failure from its number alone.
-/

set_option autoImplicit false

namespace Aegis

inductive Error where
  | alreadyInitialized
  | notInitialized
  | noPendingAdminTransfer
  | unauthorized
  | cannotAssignAdminRole
  | noRoleToRevoke
  | notPendingCandidate
  | contractPaused
  | alreadyPaused
  | notPaused
  | issuanceDutyConflict
  | selfIssuanceForbidden
  | issuanceApproverConflict
  | senderNotWhitelisted
  | receiverNotWhitelisted
  | senderBlocked
  | receiverBlocked
  | senderCompliancePending
  | receiverCompliancePending
  | invalidComplianceTransition
  | complianceStatusUnchanged
  | invalidAmount
  | insufficientBalance
  | supplyCapExceeded
  | holdingCapExceeded
  | assetNotActive
  | assetLifecyclePaused
  | assetRetired
  | assetBlocked
  | invalidLifecycleTransition
  | invalidAssetStatusTransition
  | assetMetadataUpdateBlocked
  | assetPausedRestriction
  | assetRetiredRestriction
  | assetBlockedRestriction
  deriving DecidableEq, Repr

namespace Error

def code : Error → UInt32
  | alreadyInitialized => 1000
  | notInitialized => 2000
  | noPendingAdminTransfer => 2001
  | unauthorized => 3000
  | cannotAssignAdminRole => 3001
  | noRoleToRevoke => 3002
  | notPendingCandidate => 3003
  | contractPaused => 3004
  | alreadyPaused => 3005
  | notPaused => 3006
  | issuanceDutyConflict => 3007
  | selfIssuanceForbidden => 3008
  | issuanceApproverConflict => 3009
  | senderNotWhitelisted => 4000
  | receiverNotWhitelisted => 4001
  | senderBlocked => 4002
  | receiverBlocked => 4003
  | senderCompliancePending => 4004
  | receiverCompliancePending => 4005
  | invalidComplianceTransition => 4006
  | complianceStatusUnchanged => 4007
  | invalidAmount => 5000
  | insufficientBalance => 5001
  | supplyCapExceeded => 5002
  | holdingCapExceeded => 5003
  | assetNotActive => 6000
  | assetLifecyclePaused => 6001
  | assetRetired => 6002
  | assetBlocked => 6003
  | invalidLifecycleTransition => 6004
  | invalidAssetStatusTransition => 6005
  | assetMetadataUpdateBlocked => 6006
  | assetPausedRestriction => 7000
  | assetRetiredRestriction => 7001
  | assetBlockedRestriction => 7002

end Error
end Aegis
