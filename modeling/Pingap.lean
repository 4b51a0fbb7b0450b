import Pingap.AdaptiveRestore
import Pingap.AbuseBanListing
import Pingap.AbuseCounters
import Pingap.AbuseRegistrySlots
import Pingap.Acl
import Pingap.Alerts
import Pingap.Backup
import Pingap.BotAnalytics
import Pingap.ChallengeIsolation
import Pingap.ChallengeLadder
import Pingap.ChallengePass
import Pingap.ChallengeSolvable
import Pingap.ConfigEdits
import Pingap.ConfigEnforcing
import Pingap.ConfigEncodings
import Pingap.DomainStoreExpiry
import Pingap.DomainStoreReclaim
import Pingap.EventQueueOrder
import Pingap.HostTenancy
import Pingap.PluginEntries
import Pingap.PluginProvider
import Pingap.WafDetect
import Pingap.WafEncoding
import Pingap.WafInterleave
import Pingap.WafMonotone
import Pingap.WafRedaction
import Pingap.WafRollupTask
import Pingap.WafStacked
import Pingap.WafTelemetry
