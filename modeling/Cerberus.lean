import Cerberus.Scheduler.Starvation
import Cerberus.Scheduler.WorkConservation
import Cerberus.Scheduler.MajorFrame
import Cerberus.Memory.WriteXorExecute
import Cerberus.Sync.Exclusion
import Cerberus.Kernel.TaskTable
import Cerberus.Machine.Emulation
import Cerberus.Machine.InitialFrame
import Cerberus.Mutex.Exclusion
import Cerberus.Mutex.HandOff
import Cerberus.Mutex.Placement
import Cerberus.Mutex.WaiterScan
import Cerberus.Ipc.Confinement
import Cerberus.Ipc.Order
import Cerberus.Containment.Panic
import Cerberus.Containment.StoppedTask
import Cerberus.Containment.CopyRights
import Cerberus.Containment.Nested
import Cerberus.Containment.FaultFrame
import Cerberus.Containment.Refusal
import Cerberus.Containment.LeastPrivilege
import Cerberus.Watchdog.Completeness
import Cerberus.Watchdog.Sleep
import Cerberus.Signing.Verify
import Cerberus.Network.RingBuffer
import Cerberus.Network.Can
import Cerberus.Telemetry.Report
import Cerberus.Telemetry.Replay
import Cerberus.Telemetry.Delivery
import Cerberus.Containment.Rights
import Cerberus.Boot.SleepTime
import Cerberus.Tasks.Sections
import Cerberus.Tasks.Stranded
