import Cerberus.Memory.Pmp
import Cerberus.Scheduler.Bitmap
import Cerberus.Sync.Spinlock

/-! # The kernel's data

The statics of `kernel/src/main.rs` and `kernel/src/trap.rs` that the trap handler and the Watchdog
share, with the per-hart registers they touch. Kernel records are kept apart from the byte memory:
`mem` holds what the tasks' frames, buffers and code occupy, and tasks reach the records only
through traps. -/
namespace Cerberus.Kernel
set_option autoImplicit false

structure KernelMutex where
  locked : Bool
  ownerTaskIdx : Option Byte
  waitersBitmap : Word
  deriving DecidableEq

/-- The events of the telemetry stream (`telemetry/src/lib.rs`). -/
inductive TraceEvent where
  | taskSwap (src dst : Byte) (cycles : Word)
  | ipcTransfer (endpoint bytes : Byte)
  | faultInterception (cause pc : Word)
  deriving DecidableEq

end Cerberus.Kernel

namespace Cerberus
open Kernel Scheduler Sync Memory
set_option autoImplicit false

/-- What the linker and the board fix; `mapped` is where the bus answers a data access. -/
structure Platform where
  layout : StackLayout
  idleStack : Hart → Word
  kernelStack : Hart → Word
  entry : StackTask → Word
  idleEntry : Word
  mapped : Word → Bool

/-- The whole kernel state: `msip` are the software-interrupt bits of the CLINT, `trace` is the
telemetry stream, oldest event first. -/
structure Kernel where
  scheds : Hart → BitMapScheduler
  mutexes : Fin 8 → Option KernelMutex
  schedLock : Spinlock
  mutexLock : Spinlock
  tickCount : Word
  lastCheckin : Fin MAX_PARTITIONS → Word
  testCounter : Word
  mem : Memory
  msip : Hart → Bool
  pmp : Hart → PmpRegs
  trace : List TraceEvent

namespace Kernel

variable (k : Kernel)

def current (h : Hart) : Fin MAX_PARTITIONS := (k.scheds h).currentPartitionIdx

def stateOf (h : Hart) (i : Fin MAX_PARTITIONS) : Option TaskState := (k.scheds h).stateAt i

def setSched (h : Hart) (s : BitMapScheduler) : Kernel :=
  { k with scheds := Function.update k.scheds h s }

def setState (h : Hart) (i : Fin MAX_PARTITIONS) (st : TaskState) : Kernel :=
  k.setSched h ((k.scheds h).setState i st)

def setMutex (i : Fin 8) (m : KernelMutex) : Kernel :=
  { k with mutexes := Function.update k.mutexes i (some m) }

def setMem (m : Memory) : Kernel := { k with mem := m }

/-- `frame.add(i).read_volatile()` of the frame at `sp`. -/
def readFrame (sp : Word) (i : ℕ) : Word := k.mem.readWord (Memory.slot sp i)

/-- `frame.add(i).write_volatile(v)` of the frame at `sp`. -/
def writeFrame (sp : Word) (i : ℕ) (v : Word) : Kernel :=
  k.setMem (k.mem.writeWord (Memory.slot sp i) v)

def setMsip (h : Hart) (b : Bool) : Kernel := { k with msip := Function.update k.msip h b }

def logTelemetry (e : TraceEvent) : Kernel := { k with trace := k.trace ++ [e] }

def setPmp (h : Hart) (r : PmpRegs) : Kernel := { k with pmp := Function.update k.pmp h r }

theorem readFrame_writeFrame_self (sp : Word) (i : ℕ) (v : Word) :
    (k.writeFrame sp i v).readFrame sp i = v := Memory.readWord_writeWord_self _ _ _

theorem readFrame_writeFrame_ne (sp v : Word) {i j : ℕ} (hi : i < 32) (hj : j < 32) (hij : i ≠ j) :
    (k.writeFrame sp j v).readFrame sp i = k.readFrame sp i :=
  Memory.readWord_slot_writeWord_slot _ _ _ hi hj hij

/-- The registers of a frame whose pc is written. -/
theorem readFrame_writePc (sp v : Word) {i : ℕ} (hi : i < 28) :
    (k.writeFrame sp 28 v).readFrame sp i = k.readFrame sp i :=
  k.readFrame_writeFrame_ne sp v (by omega) (by omega) (by omega)

end Kernel
end Cerberus
