import Xv6.BufCoherent
import Xv6.ExecArgs
import Xv6.FamilyRun
import Xv6.FdRefs
import Xv6.Graphs
import Xv6.Grep
import Xv6.Intr
import Xv6.LinkCounts
import Xv6.LogBudget
import Xv6.LogCommit
import Xv6.LogSpace
import Xv6.Metrics
import Xv6.Move
import Xv6.PathFold
import Xv6.Print
import Xv6.ProcKill
import Xv6.ProcPids
import Xv6.ProcPolicy
import Xv6.ProcTime
import Xv6.Random
import Xv6.ReadBound
import Xv6.Redirect
import Xv6.Report
import Xv6.Rows
import Xv6.SbrkSize
import Xv6.SharedWrite
import Xv6.SleepLock
import Xv6.Uart
import Xv6.Umalloc
import Xv6.VirtioProtocol
