import Runtara.Agent.Equiv.Resume
import Runtara.Ai.Equiv.Answers
import Runtara.Compilation.Equiv.Served
import Runtara.Connection.Equiv.Overwrites
import Runtara.Connection.Equiv.SentOnce
import Runtara.Connection.Equiv.Usable
import Runtara.Durable.Equiv.Ancestry
import Runtara.Environment.Equiv.Cancel
import Runtara.Environment.Equiv.Completed
import Runtara.Environment.Equiv.Leftovers
import Runtara.Environment.Equiv.Monitors
import Runtara.Environment.Equiv.OneRun
import Runtara.Environment.Equiv.Paused
import Runtara.Environment.Equiv.Recovery
import Runtara.Environment.Equiv.SignalWait
import Runtara.Environment.Equiv.StartOnce
import Runtara.Environment.Equiv.Stranded
import Runtara.Environment.Equiv.WriteOnce
import Runtara.Expr.Equiv.AgentInput
import Runtara.Failure.Equiv.Permanent
import Runtara.Failure.Equiv.Recovered
import Runtara.Failure.Equiv.Retries
import Runtara.Interning.Equiv.Invisible
import Runtara.ObjectStore.Equiv.Alter
import Runtara.ObjectStore.Equiv.Upsert
import Runtara.Parallel.Equiv.Pools
import Runtara.Parallel.Equiv.Suspends
import Runtara.Persistence.Equiv.StepSummaries
import Runtara.Plan.Equiv.Walk
import Runtara.Reference.Equiv.Backwards
import Runtara.Reference.Equiv.Resolves
import Runtara.ReportDsl.MergePatch
import Runtara.ReportDsl.VirtualAggregate
import Runtara.Support.Equiv.Closure
import Runtara.Trigger.Cron
import Runtara.Trigger.Equiv.Exact
import Runtara.Wait.Equiv.Decided
