import WedFlow.Base.Machine
import WedFlow.Base.Table
import WedFlow.Base.PyRepr
import WedFlow.Base.PgInput
import WedFlow.Base.SqlText
import WedFlow.Base.SqlTokens
import WedFlow.Base.Printed
import WedFlow.Base.Json
import WedFlow.Base.Lines
import WedFlow.Base.Pattern
import WedFlow.Abstract.Workflow
import WedFlow.Abstract.Ledger
import WedFlow.Abstract.Dnf
import WedFlow.Abstract.Chart
import WedFlow.Core.Schema
import WedFlow.Core.Encoder
import WedFlow.Core.Attributes
import WedFlow.Core.Jobs
import WedFlow.Core.History
import WedFlow.Core.Kernel
import WedFlow.Core.System
import WedFlow.Core.Sessions
import WedFlow.Core.Workers
import WedFlow.Core.Transactions
import WedFlow.Core.Statements
import WedFlow.Core.Preload
import WedFlow.Core.GucFile
import WedFlow.Core.Handyman
import WedFlow.Core.BgWorker
import WedFlow.Core.Install
import WedFlow.Core.Flows
import WedFlow.Theory.Entries
import WedFlow.Theory.Pool
import WedFlow.Theory.Accept
import WedFlow.Theory.Effect
import WedFlow.Theory.Change
import WedFlow.Theory.Invariant
import WedFlow.Theory.Abstraction
import WedFlow.Theory.Refine
import WedFlow.Theory.Converse
import WedFlow.Theory.Progress
import WedFlow.Theory.Texts
import WedFlow.Theory.Trace
import WedFlow.Theory.Rest
import WedFlow.Theory.History
import WedFlow.Theory.Agreement
import WedFlow.Theory.Sessions
import WedFlow.Theory.Lifecycle
import WedFlow.Theory.Tokens
import WedFlow.Theory.Requeue
import WedFlow.Theory.Notices
import WedFlow.Theory.Columns
import WedFlow.Theory.Names
import WedFlow.Theory.Predicates
import WedFlow.Theory.Ordering
import WedFlow.Theory.Validation
import WedFlow.Theory.Inspector
import WedFlow.Theory.Refutable
import WedFlow.Theory.Stored
import WedFlow.Theory.Register
import WedFlow.Theory.GucFile
import WedFlow.Theory.Effective
import WedFlow.Theory.Serial
import WedFlow.Theory.Isolation
import WedFlow.Theory.Handyman
import WedFlow.Theory.BgWorker
import WedFlow.Theory.Accounts
import WedFlow.Theory.Install
import WedFlow.Theory.Charted
import WedFlow.Theory.Flows
import WedFlow.Theory.Outcomes
import WedFlow.Theory.Patterns
