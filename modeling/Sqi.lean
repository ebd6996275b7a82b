import Sqi.Store.Retention
import Sqi.Store.Search
import Sqi.Invariant.Counters
import Sqi.Invariant.Pause
import Sqi.Invariant.Fencing
import Sqi.Invariant.Capacity
import Sqi.Invariant.LastAdmin
import Sqi.Scheduler.Shutdown
import Sqi.Scheduler.Stranded
import Sqi.OpenJD.Overlap
import Sqi.OpenJD.RowIndex
import Sqi.OpenJD.ChunkText
import Sqi.Scheduler.Assign
import Sqi.Push.Resume
import Sqi.Push.Isolation
import Sqi.Scheduler.Conservation
import Sqi.HA.Leader
import Sqi.Bus.Exclusive
import Sqi.Bus.Subjects
import Sqi.Auth.Ldap
import Sqi.Worker.Staging
import Sqi.Worker.StatusText
import Sqi.Worker.Redaction
import Sqi.Worker.LogStream
import Sqi.Worker.Executor
import Sqi.Expr.Quoting
import Sqi.Expr.SplitJoin
import Sqi.Expr.ReprData
import Sqi.Expr.RangeList
import Sqi.Expr.Rounding
import Sqi.OpenJD.Cycles
import Sqi.OpenJD.CombinationGrammar
import Sqi.Scheduler.AttemptReconcile
import Sqi.Scheduler.Waiter
import Sqi.Scheduler.Closure
import Sqi.Expr.Unions
import Sqi.Expr.CanonicalRange
import Sqi.Expr.RoundTrip
