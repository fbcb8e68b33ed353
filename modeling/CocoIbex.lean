import CocoIbex.PmpSpec
import CocoIbex.WriteGating
import CocoIbex.ReadGating
import CocoIbex.LsuLoad
import CocoIbex.ExactlyOnce
import CocoIbex.AdderGating
import CocoIbex.PrefetchStream
import CocoIbex.Ram1pSecure
import CocoIbex.LsuRam
import CocoIbex.FetchTop
import CocoIbex.PmpLock
import CocoIbex.DebugMode
import CocoIbex.HardwareTrigger
import CocoIbex.PreciseTrap
import CocoIbex.RecoverableNmi
import CocoIbex.WbHazard
import CocoIbex.WbFault
import CocoIbex.WbWriteGating
import CocoIbex.ReadLeak
import CocoIbex.Legality
import CocoIbex.RvcExpansion
import CocoIbex.Execution
import CocoIbex.CoreSleep
import CocoIbex.Division
import CocoIbex.FastMultiplier
import CocoIbex.SlowMultiplier
import CocoIbex.MdGating
import CocoIbex.ShiftGating
import CocoIbex.LsuProtocol
import CocoIbex.SingleStep
import CocoIbex.InterruptAccept
import CocoIbex.CsrAtomic
import CocoIbex.PmpWrite
import CocoIbex.RefCounters
import CocoIbex.ModelAgreement
import CocoIbex.TwoCycle
import CocoIbex.Rv32eCheck
import CocoIbex.Transfer
import CocoIbex.PerfCount
import CocoIbex.FetchRoom
import CocoIbex.CsrWellFormed
import CocoIbex.Assertions
import CocoIbex.IcacheMemory
import CocoIbex.Timer
import CocoIbex.TopRefines
