import RateGuardian.RateLimiterSound
import RateGuardian.CircuitBreakerSound
import RateGuardian.GatewayBreaker
import RateGuardian.RuleCache
import RateGuardian.ProxySound
import RateGuardian.SharedLimiterSound
import RateGuardian.Lib.Fnmatch
import RateGuardian.RuleQuota
import RateGuardian.RuleQuotaSound
import RateGuardian.Lib.Unwinding
import RateGuardian.SharedBreaker
import RateGuardian.UpstreamIsolation
import RateGuardian.Gateway
import RateGuardian.QuotaBuckets
import RateGuardian.GatewayEffects
import RateGuardian.RuleHistory
import RateGuardian.Lib.Rounding
import RateGuardian.LogRepository
import RateGuardian.RuleStaleness
import RateGuardian.RuleToggle
import RateGuardian.DashboardStats
import RateGuardian.EventManager
import RateGuardian.RequestLogging
import RateGuardian.Lib.GreedyWindow
import RateGuardian.RateLimiterReadings
import RateGuardian.RateLimiterErasure
import RateGuardian.RateLimiterSchedule
import RateGuardian.BreakerKey
import RateGuardian.ResponseFidelity
import RateGuardian.LogFilter
import RateGuardian.RuleChanges
import RateGuardian.Lib.Replacement
import RateGuardian.Lib.Template
import RateGuardian.DashboardHtml
import RateGuardian.RenderDashboard
import RateGuardian.DashboardSubstitution
import RateGuardian.EventDelivery
import RateGuardian.Lib.Html
import RateGuardian.RuleList
import RateGuardian.TableEscaping
import RateGuardian.Server
import RateGuardian.ServerBreaker
import RateGuardian.ServerLog
import RateGuardian.ServerOutage
import RateGuardian.RuleCacheText
import RateGuardian.RuleApi
import RateGuardian.SharedFaults
import RateGuardian.ClusterSound
import RateGuardian.LogRetention
import RateGuardian.Cluster
import RateGuardian.Lib.TopCounts
import RateGuardian.ClusterRefusals
import RateGuardian.ServerDashboard
import RateGuardian.ClusterFootprint
import RateGuardian.CallProtocol
import RateGuardian.RuleRace
import RateGuardian.RuleRaceSerial
import RateGuardian.RuleRaceGone
