import AltrStream.Foundations.Kleene
import AltrStream.Foundations.Misreading
import AltrStream.Foundations.OrderedWindow
import AltrStream.Foundations.Dict
import AltrStream.Foundations.Lines
import AltrStream.Foundations.Emission
import AltrStream.Foundations.Checks
import AltrStream.Foundations.Matching
import AltrStream.Foundations.Table
import AltrStream.Foundations.Reached
import AltrStream.Python.Calendar
import AltrStream.Python.Scalar
import AltrStream.Python.Text
import AltrStream.Python.Str
import AltrStream.Security.KeyStore
import AltrStream.QueryEngine.Ast
import AltrStream.QueryEngine.BoundAst
import AltrStream.Security.Bootstrap
import AltrStream.Security.ScopeGate
import AltrStream.QueryEngine.Errors
import AltrStream.QueryEngine.Lexer
import AltrStream.QueryEngine.Parser
import AltrStream.QueryEngine.Validator
import AltrStream.QueryEngine.Accepted
import AltrStream.QueryEngine.Resolver
import AltrStream.QueryEngine.TypeValidator
import AltrStream.QueryEngine.Binder
import AltrStream.QueryEngine.LiteralTypes
import AltrStream.Semantics.Meaning
import AltrStream.Lowering.Sql
import AltrStream.Lowering.SqlLowerer
import AltrStream.Lowering.Postgres
import AltrStream.Lowering.Positional
import AltrStream.Lowering.SqlTruth
import AltrStream.Lowering.SqlMeaning
import AltrStream.Lowering.PostgresTruth
import AltrStream.Lowering.PositionalTruth
import AltrStream.Lowering.SqlTotality
import AltrStream.Lowering.PostgresMeaning
import AltrStream.Lowering.Parity
import AltrStream.Lowering.Registry
import AltrStream.Lowering.WhereTree
import AltrStream.Lowering.Slots
import AltrStream.Lowering.SetContributions
import AltrStream.Lowering.MassMutation
import AltrStream.Lowering.Mongo
import AltrStream.Lowering.MongoMatching
import AltrStream.Lowering.Totality
import AltrStream.Lowering.MongoMeaning
import AltrStream.Domain.Errors
import AltrStream.Domain.Models
import AltrStream.Registry.Repository
import AltrStream.Registry.Validation
import AltrStream.Registry.Service
import AltrStream.Registry.Steps
import AltrStream.Registry.SingleActive
import AltrStream.Registry.UniqueNames
import AltrStream.Registry.Lookups
import AltrStream.Registry.Earned
import AltrStream.Registry.EarnedModels
import AltrStream.QueryEngine.LogicalResolver
import AltrStream.QueryEngine.FieldResolution
import AltrStream.Foundations.FirstMatch
import AltrStream.Registry.Candidates
import AltrStream.Planning.EntityResolution
import AltrStream.Foundations.Comparison
import AltrStream.Planning.Merger
import AltrStream.Planning.RowOrder
import AltrStream.Planning.Pushdown
import AltrStream.Planning.RowNames
import AltrStream.Registry.Queryable
import AltrStream.Python.Loads
import AltrStream.Python.Template
import AltrStream.Domain.SemVer
import AltrStream.Foundations.Traced
import AltrStream.Supervisor.Files
import AltrStream.Supervisor.Persisted
import AltrStream.Supervisor.Host
import AltrStream.Supervisor.Workflow
import AltrStream.Supervisor.Stages
import AltrStream.Supervisor.Safety
import AltrStream.Supervisor.Termination
import AltrStream.Supervisor.Completion
import AltrStream.Go.Strings
import AltrStream.Installer.RuntimeFiles
import AltrStream.Installer.Switch
import AltrStream.Installer.Containers
import AltrStream.Installer.Volumes
import AltrStream.Installer.Uninstall
import AltrStream.Installer.KeyedLines
import AltrStream.Installer.ReadBack
import AltrStream.Telemetry.Tracker
import AltrStream.Telemetry.Durability
import AltrStream.Foundations.Transaction
import AltrStream.Domain.QueryValidation
import AltrStream.Lowering.CreateGroups
import AltrStream.Connectors.Sql
import AltrStream.Connectors.MongoDB
import AltrStream.Application.QueryService
import AltrStream.Lowering.Places
import AltrStream.Lowering.PlacedSets
import AltrStream.Lowering.Columns
import AltrStream.Lowering.Placeholders
import AltrStream.Lowering.Alignment
import AltrStream.QueryEngine.LexerTotality
import AltrStream.QueryEngine.Separators
import AltrStream.QueryEngine.Faithful
import AltrStream.QueryEngine.Identifiers
import AltrStream.Application.ExplicitSource
import AltrStream.Application.OwnMapping
import AltrStream.Lowering.RangeOperators
import AltrStream.Lowering.MongoEncoding
import AltrStream.Connectors.Bson
import AltrStream.Connectors.QueriedBack
import AltrStream.Planning.Selector
import AltrStream.Planning.CurrentNames
import AltrStream.QueryEngine.Lossless
import AltrStream.Lowering.Inserts
import AltrStream.Lowering.TextSearch
import AltrStream.Foundations.Regex
import AltrStream.Lowering.MongoTextSearch
import AltrStream.Foundations.TiedWindow
import AltrStream.Lowering.Ranking
import AltrStream.Lowering.Tokens
import AltrStream.Lowering.Reading
import AltrStream.Lowering.Spelling
import AltrStream.Lowering.WholeLeaves
import AltrStream.Lowering.SelectGrammar
import AltrStream.Lowering.Selects
import AltrStream.Python.IsoOrder
import AltrStream.Lowering.StoredTimes
import AltrStream.Lowering.NestedWrites
import AltrStream.QueryEngine.TypeSound
import AltrStream.QueryEngine.BindSound
import AltrStream.QueryEngine.ResolvedValid
import AltrStream.Python.FloatOrder
import AltrStream.QueryEngine.Ranges
import AltrStream.Python.Format
import AltrStream.Connectors.SentText
import AltrStream.Domain.Statements
import AltrStream.Domain.CommentStripping
import AltrStream.Connectors.Find
import AltrStream.Connectors.ShellLexer
import AltrStream.Connectors.ShellParser
import AltrStream.Connectors.ShellGrammar
import AltrStream.Connectors.ShellTotality
import AltrStream.Connectors.ShellCommands
import AltrStream.Python.JsonText
import AltrStream.Python.LoadsText
import AltrStream.Connectors.ShellJson
import AltrStream.Connectors.ShellAgreement
import AltrStream.Connectors.Dispatch
import AltrStream.Application.NativeQuery
import AltrStream.Lowering.Fragments
import AltrStream.Lowering.Quoting
import AltrStream.Lowering.NamesKept
import AltrStream.Telemetry.Windows
import AltrStream.Domain.Precedence
import AltrStream.Domain.DirectUpgrade
import AltrStream.Security.Credentials
import AltrStream.Python.Urllib
import AltrStream.Connectors.UrlResolver
import AltrStream.Connectors.ConnectionUrls
import AltrStream.Connectors.SampleSoundness
import AltrStream.Installer.VersionMatch
import AltrStream.Foundations.PushDown
import AltrStream.Dashboard.BentoLayout
import AltrStream.Dashboard.Compaction
import AltrStream.Dashboard.Pushing
import AltrStream.Dashboard.NeverOverlap
import AltrStream.Dashboard.GridEngine
import AltrStream.Foundations.MixedOrder
import AltrStream.Planning.SourceValues
import AltrStream.Planning.ComparatorOrder
import AltrStream.Planning.TotalPreorder
import AltrStream.Planning.Planner
import AltrStream.Planning.Registered
import AltrStream.Planning.Discovered
import AltrStream.Planning.EphemeralNames
import AltrStream.Application.FederatedExecution
import AltrStream.Registry.ParentRows
import AltrStream.Application.DryRun
import AltrStream.Supervisor.StatusMachine
import AltrStream.Foundations.Grouped
import AltrStream.Connectors.Introspection
import AltrStream.Connectors.CatalogKeys
import AltrStream.Connectors.MysqlKeys
import AltrStream.Connectors.PgKeys
import AltrStream.Supervisor.PersistedRuns
import AltrStream.Telemetry.Restarts
import AltrStream.Dashboard.SavedLayouts
