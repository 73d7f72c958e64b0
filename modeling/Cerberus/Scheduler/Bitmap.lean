import Cerberus.Foundations.CyclicScan
import Cerberus.Scheduler.Tcb

/-! # The partition scheduler

`scheduler/src/bitmap.rs`. The task table has `MAX_PARTITIONS = 32` slots, so a partition index is
a `Fin 32` and the source's `(i + 1) % MAX_PARTITIONS` is its cyclic successor. `schedule` returns
the slot whose `saved_sp` is to be overwritten (the source's `*mut usize` into that slot) and the
stack pointer to load. -/
namespace Cerberus.Scheduler
open CyclicScan
set_option autoImplicit false

abbrev MAX_PARTITIONS : ℕ := 32

instance neZero_partitions : NeZero MAX_PARTITIONS := ⟨by decide⟩

structure BitMapScheduler where
  taskTable : Fin MAX_PARTITIONS → Option TaskControlBlock
  currentPartitionIdx : Fin MAX_PARTITIONS
  partitionDurations : Fin MAX_PARTITIONS → ℕ
  remainingMifTicks : ℕ

namespace BitMapScheduler

def new : BitMapScheduler where
  taskTable := fun _ => none
  currentPartitionIdx := 0
  partitionDurations := fun _ => 100
  remainingMifTicks := 100

/-- Maps `tcb.priority` directly to the partition index. The source asserts that the index is in
range; `none` is that assertion failing. -/
def registerTask (s : BitMapScheduler) (tcb : TaskControlBlock) : Option BitMapScheduler :=
  if h : tcb.priority.toNat < MAX_PARTITIONS then
    some { s with
      taskTable := Function.update s.taskTable ⟨tcb.priority.toNat, h⟩
        (some { tcb with activePriority := tcb.priority }) }
  else none

def stateAt (s : BitMapScheduler) (i : Fin MAX_PARTITIONS) : Option TaskState :=
  (s.taskTable i).map TaskControlBlock.state

def setState (s : BitMapScheduler) (i : Fin MAX_PARTITIONS) (st : TaskState) : BitMapScheduler :=
  { s with
    taskTable := Function.update s.taskTable i
      ((s.taskTable i).map fun tcb => { tcb with state := st }) }

def setSavedSp (s : BitMapScheduler) (i : Fin MAX_PARTITIONS) (sp : Word) : BitMapScheduler :=
  { s with
    taskTable := Function.update s.taskTable i
      ((s.taskTable i).map fun tcb => { tcb with savedSp := sp }) }

/-- If `is_tick` is true, it decrements the current partition's budget. -/
def spendTick (s : BitMapScheduler) (isTick : Bool) : BitMapScheduler :=
  if isTick && decide (0 < s.remainingMifTicks) then
    { s with remainingMifTicks := s.remainingMifTicks - 1 }
  else s

def currentRunnable (s : BitMapScheduler) : Bool :=
  s.stateAt s.currentPartitionIdx = some .running ∨ s.stateAt s.currentPartitionIdx = some .ready

/-- The slots pass 1 stops at: `Ready`, and not the idle partition 31. -/
def readyNotIdle (s : BitMapScheduler) (i : Fin MAX_PARTITIONS) : Bool :=
  i ≠ 31 ∧ s.stateAt i = some .ready

/-- Pass 1 in cyclic order from the successor of the current partition, then pass 2, the fallback
to partition 31. -/
def selectNext (s : BitMapScheduler) : Option (Fin MAX_PARTITIONS) :=
  match next s.readyNotIdle s.currentPartitionIdx with
  | some nextIdx => some nextIdx
  | none => if s.stateAt 31 = some .ready then some 31 else none

def enterSlot (s : BitMapScheduler) (nextIdx : Fin MAX_PARTITIONS) : BitMapScheduler :=
  { s with
    currentPartitionIdx := nextIdx
    remainingMifTicks := s.partitionDurations nextIdx }

/-- The old task goes back to `Ready` if it was `Running`. -/
def releaseSlot (s : BitMapScheduler) (oldIdx : Fin MAX_PARTITIONS) : BitMapScheduler :=
  if s.stateAt oldIdx = some .running then s.setState oldIdx .ready else s

/-- The partition swap: index and budget, then the two state transitions. -/
def swapTo (s : BitMapScheduler) (nextIdx : Fin MAX_PARTITIONS) : BitMapScheduler :=
  ((s.enterSlot nextIdx).releaseSlot s.currentPartitionIdx).setState nextIdx .running

def schedule (s : BitMapScheduler) (isTick : Bool) :
    BitMapScheduler × Option (Fin MAX_PARTITIONS × Word) :=
  let s1 := s.spendTick isTick
  let currentIdx := s1.currentPartitionIdx
  if s1.remainingMifTicks = 0 ∨ isTick = false ∨ s1.currentRunnable = false then
    match s1.selectNext with
    | none =>
      if s1.currentRunnable = true ∧ s1.remainingMifTicks = 0 then
        ({ s1 with remainingMifTicks := s1.partitionDurations currentIdx }, none)
      else (s1, none)
    | some nextIdx =>
      let s2 := s1.swapTo nextIdx
      -- the two `?` of the source: an unregistered slot gives `None` after the swap
      match s2.taskTable currentIdx, s2.taskTable nextIdx with
      | some _, some newTcb => (s2, some (currentIdx, newTcb.savedSp))
      | _, _ => (s2, none)
  else (s1, none)

end BitMapScheduler
end Cerberus.Scheduler
