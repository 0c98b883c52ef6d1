import Heimdall.Lib.Chains
import Heimdall.Lib.Links
import Heimdall.Lib.Interleaving
import Heimdall.Backend.Roles
import Heimdall.Backend.Escalation
import Heimdall.Backend.PasswordPolicy
import Heimdall.Backend.Race
import Heimdall.Frontend.ProfileData
import Heimdall.Frontend.StatusCounts
import Heimdall.Frontend.FormatUtil
import Heimdall.Frontend.Selection
import Heimdall.Frontend.Evaluations
import Heimdall.Frontend.SplunkUtil
import Heimdall.Scanner.Console
import Heimdall.Frontend.Pipeline
import Heimdall.Frontend.StatusCards
import Heimdall.Frontend.Compliance
import Heimdall.Frontend.Comparison
import Heimdall.Frontend.TreemapUtil
import Heimdall.Frontend.FilterCache
import Heimdall.Inspec.Statuses
import Heimdall.Inspec.CanonizedTags
import Heimdall.Inspec.FullCode
import Heimdall.Inspec.NistForest
import Heimdall.Frontend.StatusBlind
import Heimdall.Frontend.Search
import Heimdall.Frontend.ExportUtil
import Heimdall.Frontend.ExportNist
import Heimdall.Frontend.CaatExport
import Heimdall.Frontend.StartTime
import Heimdall.Frontend.ControlDelta
import Heimdall.Frontend.ControlTable
import Heimdall.Frontend.Compare
import Heimdall.Backend.PasswordRules
import Heimdall.Backend.ForcedChange
import Heimdall.Frontend.EvaluationList
import Heimdall.Frontend.GroupList
import Heimdall.Frontend.EvaluationGroups
import Heimdall.Frontend.ControlExpansion
import Heimdall.Frontend.ExportJson
import Heimdall.Frontend.UniqueKeys
import Heimdall.Frontend.TreemapWeights
import Heimdall.Inspec.NistLineage
import Heimdall.Backend.EvaluationRemoval
import Heimdall.Backend.LoginCount
import Heimdall.Backend.AppConfig
import Heimdall.Backend.LoggingInterceptor
import Heimdall.Backend.Disclosure
import Heimdall.Backend.Accounts
import Heimdall.Inspec.RoundTrip
import Heimdall.Backend.Sessions
import Heimdall.Remote.SavedFiles
import Heimdall.Remote.GroupModal
import Heimdall.Remote.TagRow
import Heimdall.Frontend.Results
import Heimdall.Frontend.ExportHtml
import Heimdall.Remote.Browser
