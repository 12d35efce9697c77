import FerroIo.EventRun
import FerroIo.TaskGroup
import FerroIo.GroupLedger
import FerroIo.GroupExit
import FerroIo.GroupPlain
import FerroIo.GroupWait
import FerroIo.GroupAbort
import FerroIo.GroupCallbacks
import FerroIo.SaveRestore
import FerroIo.Runner
import FerroIo.RunnerGuard
import FerroIo.GuardOverlap
import FerroIo.SigintContract
import FerroIo.WithBlock
import FerroIo.GuardOutcome
import FerroIo.OrderedDict
import FerroIo.Install
import FerroIo.InstallUndo
import FerroIo.RebindOrder
import FerroIo.InstallRuns
import FerroIo.InstallAgain
import FerroIo.InstallCycles
import FerroIo.InstallSteps
import FerroIo.InstallInterrupted
import FerroIo.InstallRace
import FerroIo.Delegation
import FerroIo.NameLookup
import FerroIo.ModuleBody
import FerroIo.SymbolCoverage
import FerroIo.GlobalRuntime
import FerroIo.RuntimeLeaks
import FerroIo.RuntimeSingleton
import FerroIo.RuntimeProgress
import FerroIo.RunCoroutine
import FerroIo.DropIn
import FerroIo.LoopShutdown
import FerroIo.LoopRegister
import FerroIo.RunProcess
import FerroIo.RunnerBlock
import FerroIo.StorePrograms
import FerroIo.RunnerContext
import FerroIo.JoinOrder
import FerroIo.JoinSet
import FerroIo.FanOut
import FerroIo.FanOutSteps
import FerroIo.SleepMany
import FerroIo.LcgChain
import FerroIo.RunFallible
import FerroIo.FallibleSteps
import FerroIo.Binary64
import FerroIo.Sleep
import FerroIo.SleepTimers
