import Aegis.AssetLifecycle
import Aegis.Attainment
import Aegis.ComplianceLog
import Aegis.ConfigLimits
import Aegis.GovernanceLog
import Aegis.GuardOrder
import Aegis.HoldingsLog
import Aegis.Indexing
import Aegis.Interference
import Aegis.IssuancePreflight
import Aegis.LatestWrites
import Aegis.LegacyWrappers
import Aegis.Limits
import Aegis.Nomination
import Aegis.Redelivery
import Aegis.Renunciation
import Aegis.Restoration
import Aegis.ResultingBalance
