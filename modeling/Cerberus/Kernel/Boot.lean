import Cerberus.Kernel.Trap

/-! # Boot, the Watchdog's restarts, and the system

The registration of `kmain`, `start_first_task` on the two harts, the restarts of `watchdog_task`,
and the transition system they start: traps on either hart, each atomic under `SCHED_LOCK`, and the
Watchdog's own steps in U-mode. The memory a trap finds is part of its label, since tasks write
memory between traps. -/
namespace Cerberus.Kernel
open Scheduler Sync Memory
set_option autoImplicit false

/-! ## Registration -/

def cList (caps : List Capability) : Fin 8 → Capability := fun i => caps.getD i.val .none

/-- What `kmain` registers for one task: the control block's static part, and the stack and entry
function its first frame is built from. -/
structure TaskSpec where
  priority : Byte
  name : String
  capabilities : List Capability
  stack : Platform → Word
  entry : Platform → Word

def watchdogSpec : TaskSpec :=
  ⟨0, "Watchdog", [], fun P => P.layout.base .watchdog, fun P => P.entry .watchdog⟩

def taskASpec : TaskSpec :=
  ⟨1, "Task A", [.mutex 0 true true, .ipc 0 true false, .ipc 2 true false, .ipc 3 false true],
    fun P => P.layout.base .taskA, fun P => P.entry .taskA⟩

def taskBSpec : TaskSpec :=
  ⟨2, "Task B", [.ipc 0 false true], fun P => P.layout.base .taskB, fun P => P.entry .taskB⟩

def taskCSpec : TaskSpec :=
  ⟨3, "Task C", [.mutex 0 true true], fun P => P.layout.base .taskC, fun P => P.entry .taskC⟩

def hsmSpec : TaskSpec :=
  ⟨4, "HSM Task", [.ipc 2 false true, .ipc 3 true false],
    fun P => P.layout.base .hsm, fun P => P.entry .hsm⟩

def idle0Spec : TaskSpec := ⟨31, "Idle 0", [], fun P => P.idleStack 0, fun P => P.idleEntry⟩

def idle1Spec : TaskSpec := ⟨31, "Idle 1", [], fun P => P.idleStack 1, fun P => P.idleEntry⟩

def TaskSpec.tcb (P : Platform) (s : TaskSpec) : TaskControlBlock :=
  ⟨alignedSp (s.stack P) 1024#32, s.priority, s.priority, .ready, s.name, cList s.capabilities⟩

def coreTasks (h : Hart) : List TaskSpec :=
  if h = 0 then [watchdogSpec, taskASpec, hsmSpec, idle0Spec]
  else [taskBSpec, taskCSpec, idle1Spec]

def registerAll (tasks : List TaskControlBlock) : Option BitMapScheduler :=
  tasks.foldlM BitMapScheduler.registerTask BitMapScheduler.new

/-- `start_first_task`: the first `Ready` slot runs. `none` is the failed assertion that there is
one. -/
def startFirstTask (s : BitMapScheduler) : Option BitMapScheduler :=
  ((List.finRange MAX_PARTITIONS).find? fun i => s.stateAt i = some .ready).map fun firstIdx =>
    (s.enterSlot firstIdx).setState firstIdx .running

def bootMemory (P : Platform) (m : Memory) : Memory :=
  [watchdogSpec, taskASpec, taskBSpec, taskCSpec, hsmSpec, idle0Spec, idle1Spec].foldl
    (fun m s => (initializeStack (s.stack P) 1024#32 (s.entry P) m).2) m

def bootSched (P : Platform) (h : Hart) : Option BitMapScheduler :=
  (registerAll ((coreTasks h).map (TaskSpec.tcb P))).bind startFirstTask

/-- The kernel once both harts have started their first task. -/
def boot (P : Platform) (m : Memory) (r : Hart → PmpRegs) : Option Kernel :=
  match bootSched P 0, bootSched P 1 with
  | some s0, some s1 => some
    { scheds := fun h => if h = 0 then s0 else s1
      mutexes := fun i => if i = 0 then some ⟨false, none, 0#32⟩ else none
      schedLock := Spinlock.new
      mutexLock := Spinlock.new
      tickCount := 0#32
      lastCheckin := fun _ => 0#32
      testCounter := 0#32
      mem := bootMemory P m
      msip := fun _ => false
      pmp := fun h => reprogramPmpStack P.layout
        (if h = 0 then watchdogSpec.name else taskBSpec.name) (initMemoryProtection P.layout (r h))
      trace := [] }
  | _, _ => none

/-! ## Other registrations

The same boot with any tasks on the two harts, in the order of their registration, and any mutexes. -/

structure BootLayout where
  tasks : List (Hart × TaskSpec)
  mutexes : Fin 8 → Bool

namespace BootLayout
variable (L : BootLayout)

/-- No partition index other than the idle one is registered on both harts. -/
def OneHart : Prop :=
  ∀ x ∈ L.tasks, ∀ y ∈ L.tasks, x.2.priority = y.2.priority → x.1 = y.1 ∨ x.2.priority = 31

instance : Decidable L.OneHart := inferInstanceAs (Decidable (∀ x ∈ L.tasks, _))

def sched (P : Platform) (h : Hart) : Option BitMapScheduler :=
  (registerAll ((L.tasks.filter fun x => x.1 = h).map fun x => x.2.tcb P)).bind startFirstTask

def memory (P : Platform) (m : Memory) : Memory :=
  L.tasks.foldl (fun m x => (initializeStack (x.2.stack P) 1024#32 (x.2.entry P) m).2) m

/-- The name `start_first_task` programs the PMP for. -/
def firstName (s : BitMapScheduler) : String :=
  ((s.taskTable s.currentPartitionIdx).map TaskControlBlock.name).getD ""

def boot (P : Platform) (m : Memory) (r : Hart → PmpRegs) : Option Kernel :=
  match L.sched P 0, L.sched P 1 with
  | some s0, some s1 => some
    { scheds := fun h => if h = 0 then s0 else s1
      mutexes := fun i => if L.mutexes i then some ⟨false, none, 0#32⟩ else none
      schedLock := Spinlock.new
      mutexLock := Spinlock.new
      tickCount := 0#32
      lastCheckin := fun _ => 0#32
      testCounter := 0#32
      mem := L.memory P m
      msip := fun _ => false
      pmp := fun h => reprogramPmpStack P.layout (firstName (if h = 0 then s0 else s1))
        (initMemoryProtection P.layout (r h))
      trace := [] }
  | _, _ => none

end BootLayout

/-- The registration of `kmain`. -/
def mainLayout : BootLayout where
  tasks := [(0, watchdogSpec), (0, taskASpec), (1, taskBSpec), (1, taskCSpec), (0, hsmSpec),
    (0, idle0Spec), (1, idle1Spec)]
  mutexes := fun i => i = 0

theorem boot_eq_mainLayout (P : Platform) (m : Memory) (r : Hart → PmpRegs) :
    boot P m r = mainLayout.boot P m r := by
  have hs0 : ∃ s, bootSched P 0 = some s ∧ mainLayout.sched P 0 = some s ∧
      BootLayout.firstName s = watchdogSpec.name := ⟨_, rfl, rfl, rfl⟩
  have hs1 : ∃ s, bootSched P 1 = some s ∧ mainLayout.sched P 1 = some s ∧
      BootLayout.firstName s = taskBSpec.name := ⟨_, rfl, rfl, rfl⟩
  obtain ⟨s0, hb0, hm0, hn0⟩ := hs0
  obtain ⟨s1, hb1, hm1, hn1⟩ := hs1
  have hpmp : (fun h : Hart => reprogramPmpStack P.layout
      (if h = 0 then watchdogSpec.name else taskBSpec.name) (initMemoryProtection P.layout (r h))) =
      fun h => reprogramPmpStack P.layout (BootLayout.firstName (if h = 0 then s0 else s1))
        (initMemoryProtection P.layout (r h)) := by
    funext h
    by_cases hh : h = 0
    · simp only [if_pos hh, hn0]
    · simp only [if_neg hh, hn1]
  have hmutexes : (fun i : Fin 8 => if mainLayout.mutexes i then some (⟨false, none, 0#32⟩ : KernelMutex)
      else none) = fun i => if i = 0 then some ⟨false, none, 0#32⟩ else none := by
    funext i
    simp [mainLayout]
  simp only [boot, BootLayout.boot, hb0, hb1, hm0, hm1, hpmp, hmutexes]
  rfl

/-! ## The Watchdog's restarts -/

/-- Reset the stack of the task in slot `i` and make it `Ready`; its check-in starts afresh. -/
def restart (P : Platform) (st : StackTask) (h : Hart) (i : Fin MAX_PARTITIONS) (k : Kernel) :
    Kernel :=
  let r := initializeStack (P.layout.base st) 1024#32 (P.entry st) k.mem
  let k := (k.setMem r.2).setSched h (((k.scheds h).setSavedSp i r.1).setState i .ready)
  { k with lastCheckin := Function.update k.lastCheckin i 0#32 }

/-- Task C is restarted for the next test, twice at most. -/
def restartTaskC (P : Platform) (k : Kernel) : Kernel :=
  if k.stateOf 1 3 = some .terminated ∧ k.testCounter < 2#32 then
    restart P .taskC 1 3 { k with testCounter := k.testCounter + 1#32 }
  else k

/-- HSM Task is restarted whenever it is found terminated. -/
def restartHsm (P : Platform) (k : Kernel) : Kernel :=
  if k.stateOf 0 4 = some .terminated then restart P .hsm 0 4 k else k

/-! ## The system -/

/-- `inPass` holds while the Watchdog is between taking and releasing `SCHED_LOCK` in its pass. -/
structure System where
  kernel : Kernel
  inPass : Bool

/-- A trap comes with the memory its handler finds. `nestedTrap` is a trap whose M-mode copy faults,
followed by the trap that this fault raises. -/
inductive Event where
  | trap (h : Hart) (t : Trap) (m : Memory)
  | nestedTrap (h : Hart) (t : Trap) (m : Memory) (t' : Trap) (m' : Memory)
  | watchdogLock
  | watchdogRestartTaskC
  | watchdogRestartHsm
  | watchdogUnlock

def watchdogRuns (k : Kernel) : Prop := k.current 0 = 0

instance (k : Kernel) : Decidable (watchdogRuns k) := by
  unfold watchdogRuns
  infer_instance

def afterTrap (P : Platform) (h : Hart) (t : Trap) (k : Kernel) : Option Kernel :=
  match trapHandler P h t k with
  | .ok (_, k') => some k'
  | .error _ => none

/-- The kernel after a copy fault and its trap, if that one returns. The handler that faulted never
resumes. -/
def afterNested (P : Platform) (h : Hart) (t : Trap) (t' : Trap) (m' : Memory) (k : Kernel) :
    Option Kernel :=
  match trapHandler P h t k with
  | .error (.copyFault cause kf) =>
    if t'.mcause = cause then afterTrap P h t' (kf.setMem m') else none
  | _ => none

def System.next (P : Platform) (s : System) : Event → Option System
  | .trap h t m => (afterTrap P h t (s.kernel.setMem m)).map fun k => { s with kernel := k }
  | .nestedTrap h t m t' m' =>
    (afterNested P h t t' m' (s.kernel.setMem m)).map fun k => { s with kernel := k }
  | .watchdogLock =>
    if watchdogRuns s.kernel ∧ s.inPass = false then
      (s.kernel.schedLock.lock 0).map fun l => ⟨{ s.kernel with schedLock := l }, true⟩
    else none
  | .watchdogRestartTaskC =>
    if watchdogRuns s.kernel ∧ s.inPass = true then
      some { s with kernel := restartTaskC P s.kernel }
    else none
  | .watchdogRestartHsm =>
    if watchdogRuns s.kernel ∧ s.inPass = true then
      some { s with kernel := restartHsm P s.kernel }
    else none
  | .watchdogUnlock =>
    if watchdogRuns s.kernel ∧ s.inPass = true then
      some ⟨{ s.kernel with schedLock := s.kernel.schedLock.unlock }, false⟩
    else none

def Step (P : Platform) (s : System) (e : Event) (s' : System) : Prop := s.next P e = some s'

/-- The states the system starts in: any memory, and the PMP registers as after reset. -/
def Initial (P : Platform) (s : System) : Prop :=
  ∃ m r, (∀ h, (r h).Reset) ∧ boot P m r = some s.kernel ∧ s.inPass = false

/-- A trap on hart `h` in state `s`, with the frame of the task that was executing and the kernel its
handler finds. The trap interrupts the task, or the M-mode copy of one of its syscalls. -/
inductive Takes (P : Platform) (s : System) (h : Hart) : Trap → Word → Kernel → Prop where
  | task (t : Trap) (m : Memory) : Takes P s h t t.userSp (s.kernel.setMem m)
  | nested {t0 t : Trap} {m0 : Memory} {kf : Kernel}
      (hf : trapHandler P h t0 (s.kernel.setMem m0) = .error (.copyFault t.mcause kf)) (m : Memory) :
      Takes P s h t t0.userSp (kf.setMem m)

end Cerberus.Kernel
