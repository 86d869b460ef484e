import SqlGatekeeper.Python.Regex
import SqlGatekeeper.Python.Eval
import SqlGatekeeper.Db.Repositories
import SqlGatekeeper.Services.Precheck
import SqlGatekeeper.Services.Executor
import SqlGatekeeper.Services.PlanCoverage
import SqlGatekeeper.Services.TablePolicies
import SqlGatekeeper.Services.SwitchedOff
import SqlGatekeeper.Services.OwnLimit
import SqlGatekeeper.Services.RedisSoundness
import SqlGatekeeper.Services.Returns
import SqlGatekeeper.Services.RedisReturns
import SqlGatekeeper.Services.Audit
import SqlGatekeeper.Api.Routes
import SqlGatekeeper.Api.Auditing
import SqlGatekeeper.Services.TableCoverage
import SqlGatekeeper.Services.RowCoverage
import SqlGatekeeper.Tools.RouteKeys
import SqlGatekeeper.Tools.RouteOrigins
import SqlGatekeeper.Tools.LegacyRouting
import SqlGatekeeper.Tools.HandRegistered
import SqlGatekeeper.Services.LiteralText
import SqlGatekeeper.Services.ExactSplice
import SqlGatekeeper.Services.TableByTable
import SqlGatekeeper.Services.DeclaredContext
import SqlGatekeeper.Services.LoosePolicy
import SqlGatekeeper.Services.RedisKeyOrder
import SqlGatekeeper.Services.RedisScope
import SqlGatekeeper.Bootstrap.EnabledRules
import SqlGatekeeper.Tools.Reimport
import SqlGatekeeper.Tools.RowOrder
import SqlGatekeeper.Services.Reread
import SqlGatekeeper.Services.RedisBounds
import SqlGatekeeper.Tools.ClosedBundle
import SqlGatekeeper.Tools.AddressedTables
import SqlGatekeeper.Services.JoinRouting
import SqlGatekeeper.Bootstrap.SeededRouting
import SqlGatekeeper.Bootstrap.SeededAnswers
import SqlGatekeeper.Bootstrap.ImportedAnswers
import SqlGatekeeper.Bootstrap.SeededConnections
import SqlGatekeeper.Bootstrap.OpenStores
import SqlGatekeeper.Services.ShardedAnswers
import SqlGatekeeper.Services.ShardedConditions
import SqlGatekeeper.Api.LogicalAnswers
import SqlGatekeeper.Api.Revocation
import SqlGatekeeper.Api.RedisConfinement
import SqlGatekeeper.Api.PagedReads
