import Cerberus.Foundations.ByteMemory

/-! # Task control blocks

`scheduler/src/tcb.rs`: capabilities, task states and the control block. A C-list has eight
entries; `usize` fields are machine words of the 32-bit target. -/
namespace Cerberus.Scheduler
set_option autoImplicit false

inductive Capability where
  | none
  | mutex (mutexIdx : Byte) (canLock canUnlock : Bool)
  | ipc (endpointIdx : Byte) (canSend canRecv : Bool)
  deriving DecidableEq, Repr

inductive TaskState where
  | ready
  | running
  | blocked (wakeTick : Word)
  | blockedOnMutex (mutexIdx : Byte)
  | blockedOnIpcSend (endpointIdx : Byte) (msgAddr msgLen : Word)
  | blockedOnIpcRecv (endpointIdx : Byte) (bufAddr maxLen : Word)
  | terminated
  deriving DecidableEq, Repr

structure TaskControlBlock where
  savedSp : Word
  priority : Byte
  activePriority : Byte
  state : TaskState
  name : String
  capabilities : Fin 8 → Capability

/-- The frame of `initialize_stack`: 32 words below the 16-byte aligned end of the stack. -/
def alignedSp (stackStart len : Word) : Word := ((stackStart + len) &&& ~~~0xF#32) - 128#32

/-- Initialize a task stack with a dummy context frame for U-Mode: all zero but `mepc` and `mstatus`
(MPIE = 1, MPP = U-mode). Returns the frame's address. -/
def initializeStack (stackStart len entryFn : Word) (m : Memory) : Word × Memory :=
  let sp := alignedSp stackStart len
  let cleared := (List.range 32).foldl (fun m i => m.writeWord (Memory.slot sp i) 0#32) m
  (sp, (cleared.writeWord (Memory.slot sp 28) entryFn).writeWord (Memory.slot sp 29) 0x80#32)

end Cerberus.Scheduler
