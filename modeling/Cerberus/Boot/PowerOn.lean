import Cerberus.Boot.SecureBoot
import Cerberus.Kernel.Primitive
import Cerberus.Network.Can

/-! # Power-on

`kmain` of `kernel/src/main.rs` on the two harts, from the state the start-up code leaves to the first
`mret` of each hart and on. A hart in `kmain` makes one step at a time; the other hart, which may be in
U-mode by then, runs between any two of them. `kmain` enables the timer interrupt before `mscratch` has
been written, and a hart that takes it before its first task runs is not followed any further. Log
output and the cycle measurements of the self-test are left out. -/
namespace Cerberus.Boot
open Kernel Scheduler Sync Memory Signing Network Transition
set_option autoImplicit false

/-- The linked image: `trapEntry` is the address of `_trap_entry`. -/
structure Board where
  platform : Platform
  build : Build
  trapEntry : Word

/-! ## The program -/

scoped instance neZero_tasks : NeZero 7 := ⟨by decide⟩

/-- The registered tasks, in the order in which their stacks are initialised. -/
def bootTask (i : Fin 7) : Hart × TaskSpec := mainLayout.tasks.get (i.cast rfl)

inductive BootStep where
  | setTrapVector
  | initMemoryProtection
  | verifySecureBoot
  | verifyTamperedSecureBoot
  | verifyNetworkAndSecurity
  | initializeStack (i : Fin 7)
  | registerTask (i : Fin 7)
  | initTimer
  | releaseCore1
  | awaitCore1
  | awaitBarrier
  | signalReady
  | startFirstTask
  deriving DecidableEq

/-- The path of each hart through `kmain`. -/
def kmain (h : Hart) : List BootStep :=
  if h = 0 then
    [.setTrapVector, .initMemoryProtection, .verifySecureBoot, .verifyTamperedSecureBoot,
      .verifyNetworkAndSecurity,
      .initializeStack 0, .initializeStack 1, .initializeStack 2, .initializeStack 3,
      .initializeStack 4, .initializeStack 5, .initializeStack 6,
      .registerTask 0, .registerTask 1, .registerTask 4, .registerTask 5,
      .registerTask 2, .registerTask 3, .registerTask 6,
      .initTimer, .releaseCore1, .awaitCore1, .startFirstTask]
  else
    [.awaitBarrier, .setTrapVector, .initMemoryProtection, .initTimer, .signalReady, .startFirstTask]

/-! ## The state -/

inductive Mode where
  /-- in `kmain` -/
  | kmain
  /-- its first task has been started -/
  | user
  /-- in the `wfi` loop after a failed check or assertion -/
  | halted
  /-- it took a timer interrupt in `kmain` -/
  | lost
  deriving DecidableEq

/-- A hart: what is left of its `kmain`, and the registers `kmain` writes. -/
structure Core where
  mode : Mode
  todo : List BootStep
  mtvec : Word
  mie : Word
  mstatus : Word
  mcounteren : Word
  mscratch : Word
  mtimecmp : ℕ

structure NetworkMetrics where
  framesRx : Word
  framesDropped : Word

/-- Both harts, the kernel's statics and the clock. The 64-bit `mtime` is taken not to wrap. -/
structure Machine where
  system : System
  cores : Hart → Core
  bootBarrier : Bool
  core1Ready : Bool
  metrics : NetworkMetrics
  mtime : ℕ

namespace Machine
variable (m : Machine)

abbrev kernel : Kernel := m.system.kernel

def setKernel (k : Kernel) : Machine := { m with system := { m.system with kernel := k } }

def setCore (h : Hart) (c : Core) : Machine := { m with cores := Function.update m.cores h c }

def setMode (h : Hart) (mode : Mode) : Machine := m.setCore h { m.cores h with mode := mode }

def advance (h : Hart) (todo : List BootStep) : Machine := m.setCore h { m.cores h with todo := todo }

end Machine

/-! ## One step of `kmain` -/

def selfTestFrame : RawFrame := ![0x3E, 0x00, 4, 0xAA, 0xBB, 0xCC, 0xDD, 0, 0, 0, 0, 0, 0]

/-- The CAN self-test; what becomes of the frame in the ring buffer is only logged. -/
def verifyNetworkAndSecurity (m : NetworkMetrics) : NetworkMetrics :=
  match parse selfTestFrame with
  | .ok _ => { m with framesRx := m.framesRx + 1#32 }
  | .error (.blockedId _) => { m with framesDropped := m.framesDropped + 1#32 }
  | .error _ => m

def initializeTask (P : Platform) (s : TaskSpec) (k : Kernel) : Kernel :=
  k.setMem (initializeStack (s.stack P) 1024#32 (s.entry P) k.mem).2

def registerTask (P : Platform) (h : Hart) (s : TaskSpec) (k : Kernel) : Option Kernel :=
  ((k.scheds h).registerTask (s.tcb P)).map (k.setSched h)

/-- `start_first_task` up to the load of the first frame. -/
def startFirst (P : Platform) (h : Hart) (k : Kernel) : Option Kernel :=
  (startFirstTask (k.scheds h)).map fun s =>
    (k.setSched h s).setPmp h (reprogramPmpStack P.layout (BootLayout.firstName s) (k.pmp h))

def TIMER_INTERVAL : ℕ := 40000

def initTimer (mtime : ℕ) (c : Core) : Core :=
  { c with
    mtimecmp := mtime + TIMER_INTERVAL
    mie := c.mie ||| (1#32 <<< 7)
    mstatus := c.mstatus ||| (1#32 <<< 3)
    mcounteren := 1#32 }

/-- The hart leaves for U-mode with the frame of its first task. -/
def enterUser (P : Platform) (h : Hart) (k : Kernel) (c : Core) : Core :=
  { c with
    mode := .user
    mscratch := P.kernelStack h + 1024#32
    mstatus := k.readFrame (((k.scheds h).taskTable (k.current h)).elim 0 TaskControlBlock.savedSp) 29 }

/-- A spin-wait goes round again; a failed check or assertion ends in a `wfi` loop. -/
inductive StepResult where
  | spins
  | halts
  | continues (m : Machine)

def Machine.exec (B : Board) (h : Hart) (m : Machine) : BootStep → StepResult
  | .setTrapVector => .continues (m.setCore h { m.cores h with mtvec := B.trapEntry })
  | .initMemoryProtection => .continues (m.setKernel
      (m.kernel.setPmp h (initMemoryProtection B.platform.layout (m.kernel.pmp h))))
  | .verifySecureBoot => if verifySecureBoot B.build then .continues m else .halts
  -- a tampered image that passes is only logged
  | .verifyTamperedSecureBoot => .continues m
  | .verifyNetworkAndSecurity => .continues { m with metrics := verifyNetworkAndSecurity m.metrics }
  | .initializeStack i => .continues (m.setKernel (initializeTask B.platform (bootTask i).2 m.kernel))
  | .registerTask i =>
    match registerTask B.platform (bootTask i).1 (bootTask i).2 m.kernel with
    | none => .halts
    | some k => .continues (m.setKernel k)
  | .initTimer => .continues (m.setCore h (initTimer m.mtime (m.cores h)))
  | .releaseCore1 => .continues { m with bootBarrier := true }
  | .awaitCore1 => if m.core1Ready then .continues m else .spins
  | .awaitBarrier => if m.bootBarrier then .continues m else .spins
  | .signalReady => .continues { m with core1Ready := true }
  | .startFirstTask =>
    match startFirst B.platform h m.kernel with
    | none => .halts
    | some k => .continues ((m.setKernel k).setCore h (enterUser B.platform h k (m.cores h)))

/-! ## The machine -/

/-- A step of `kmain`, a timer interrupt in `kmain`, the passing of time, or what the tasks and their
traps do. -/
inductive MachineEvent where
  | boot (h : Hart)
  | bootTimer (h : Hart)
  | elapse (n : ℕ)
  | task (ev : Event)

/-- The cause with which the hart enters the trap handler. -/
def eventCause : Event → Option Word
  | .trap _ t _ => some t.mcause
  | .nestedTrap _ t _ _ _ => some t.mcause
  | _ => none

/-- In U-mode an interrupt is taken when it is enabled in `mie` and pending. -/
def Machine.Raised (m : Machine) (h : Hart) (cause : Option Word) : Prop :=
  (cause = some TIMER_INTERRUPT → (m.cores h).mie.getLsbD 7 = true ∧ (m.cores h).mtimecmp ≤ m.mtime) ∧
    (cause = some SOFTWARE_INTERRUPT → (m.cores h).mie.getLsbD 3 = true ∧ m.kernel.msip h = true)

instance (m : Machine) (h : Hart) (cause : Option Word) : Decidable (m.Raised h cause) := by
  unfold Machine.Raised
  infer_instance

/-- The timer handler writes `mtimecmp` of its hart. -/
def Machine.rearm (m : Machine) (ev : Event) : Hart → Core :=
  if eventCause ev = some TIMER_INTERRUPT then
    Function.update m.cores ev.hart
      { m.cores ev.hart with mtimecmp := m.mtime + TIMER_INTERVAL }
  else m.cores

def Machine.next (B : Board) (m : Machine) : MachineEvent → Option Machine
  | .boot h =>
    match (m.cores h).mode, (m.cores h).todo with
    | .kmain, step :: todo =>
      match (m.advance h todo).exec B h step with
      | .spins => none
      | .halts => some (m.setMode h .halted)
      | .continues m' => some m'
    | _, _ => none
  | .bootTimer h =>
    if (m.cores h).mode = .kmain ∧ (m.cores h).mie.getLsbD 7 = true ∧
        (m.cores h).mstatus.getLsbD 3 = true ∧ (m.cores h).mtimecmp ≤ m.mtime then
      some (m.setMode h .lost)
    else none
  | .elapse n => some { m with mtime := m.mtime + n }
  | .task ev =>
    if (m.cores ev.hart).mode = .user ∧ m.Raised ev.hart (eventCause ev) then
      (m.system.next B.platform ev).map fun s => { m with system := s, cores := m.rearm ev }
    else none

def MachineStep (B : Board) (m : Machine) (e : MachineEvent) (m' : Machine) : Prop :=
  m.next B e = some m'

/-- What an event does to the machine. -/
inductive MachineCase (B : Board) (m : Machine) : MachineEvent → Machine → Prop where
  | halts {h : Hart} {x : BootStep} {todo : List BootStep} (hmode : (m.cores h).mode = .kmain)
      (htodo : (m.cores h).todo = x :: todo) (hx : (m.advance h todo).exec B h x = .halts) :
      MachineCase B m (.boot h) (m.setMode h .halted)
  | continues {h : Hart} {x : BootStep} {todo : List BootStep} {m' : Machine}
      (hmode : (m.cores h).mode = .kmain) (htodo : (m.cores h).todo = x :: todo)
      (hx : (m.advance h todo).exec B h x = .continues m') : MachineCase B m (.boot h) m'
  | lost {h : Hart} (hmode : (m.cores h).mode = .kmain) :
      MachineCase B m (.bootTimer h) (m.setMode h .lost)
  | elapse (n : ℕ) : MachineCase B m (.elapse n) { m with mtime := m.mtime + n }
  | task {ev : Event} {s : System} (huser : (m.cores ev.hart).mode = .user)
      (hraised : m.Raised ev.hart (eventCause ev)) (hs : Step B.platform m.system ev s) :
      MachineCase B m (.task ev) { m with system := s, cores := m.rearm ev }

theorem machineStep_cases {B : Board} {m m' : Machine} {e : MachineEvent} (hstep : MachineStep B m e m') :
    MachineCase B m e m' := by
  unfold MachineStep Machine.next at hstep
  cases e with
  | boot h =>
    dsimp only at hstep
    split at hstep
    · split at hstep
      · cases hstep
      · rw [← Option.some.inj hstep]
        exact .halts ‹_› ‹_› ‹_›
      · rename_i hx
        rw [← Option.some.inj hstep]
        exact .continues ‹_› ‹_› hx
    · cases hstep
  | bootTimer h =>
    dsimp only at hstep
    split at hstep
    · rename_i hc
      rw [← Option.some.inj hstep]
      exact .lost hc.1
    · cases hstep
  | elapse n =>
    rw [← Option.some.inj hstep]
    exact .elapse n
  | task ev =>
    dsimp only at hstep
    split at hstep
    · rename_i hc
      obtain ⟨s, hs, rfl⟩ := Option.map_eq_some_iff.mp hstep
      exact .task hc.1 hc.2 hs
    · cases hstep

/-- The kernel's statics before `kmain`. -/
def resetKernel (mem : Memory) (r : Hart → PmpRegs) : Kernel where
  scheds := fun _ => BitMapScheduler.new
  mutexes := fun i => if i = 0 then some ⟨false, none, 0#32⟩ else none
  schedLock := Spinlock.new
  mutexLock := Spinlock.new
  tickCount := 0#32
  lastCheckin := fun _ => 0#32
  testCounter := 0#32
  mem := mem
  msip := fun _ => false
  pmp := r
  trace := []

/-- Both harts at the entry of `kmain`, with interrupts disabled by the start-up code. -/
structure PoweredOn (m : Machine) : Prop where
  kernel : ∃ mem r, (∀ h, (r h).Reset) ∧ m.kernel = resetKernel mem r
  inPass : m.system.inPass = false
  cores : ∀ h, (m.cores h).mode = .kmain ∧ (m.cores h).todo = kmain h ∧ (m.cores h).mie = 0#32 ∧
    (m.cores h).mstatus.getLsbD 3 = false
  bootBarrier : m.bootBarrier = false
  core1Ready : m.core1Ready = false

/-! ## A concrete board -/

def packedBoard : Board where
  platform := packedPlatform
  build := ⟨fun payload => if payload = TRUSTED_PAYLOAD then EXPECTED_HASH else fun _ => 0,
    fun _ => ⟨0, 0, fun _ => 0⟩⟩
  trapEntry := 0x42000100

def powerOn : Machine where
  system := ⟨resetKernel (fun _ => 0) fun _ => zeroRegs, false⟩
  cores := fun h => ⟨.kmain, kmain h, 0, 0, 0, 0, 0, 0⟩
  bootBarrier := false
  core1Ready := false
  metrics := ⟨0, 0⟩
  mtime := 0

theorem powerOn_poweredOn : PoweredOn powerOn :=
  ⟨⟨fun _ => 0, fun _ => zeroRegs, fun _ => zeroRegs_reset, rfl⟩, rfl,
    fun _ => ⟨rfl, rfl, rfl, (by decide : (0 : Word).getLsbD 3 = false)⟩, rfl, rfl⟩

/-- Core 0 up to its wait, core 1 to its first task, and core 0 to its own. -/
def bootBoth : List MachineEvent :=
  List.replicate 21 (.boot 0) ++ List.replicate 6 (.boot 1) ++ List.replicate 2 (.boot 0)

theorem machineRun_of_eval {α : Type} (B : Board) (m : Machine) (es : List MachineEvent)
    (f : Machine → α) (a : α) (heval : (es.foldlM (Machine.next B) m).map f = some a) :
    ∃ m', Run (MachineStep B) m es m' ∧ f m' = a := by
  obtain ⟨m', hm', hf⟩ := Option.map_eq_some_iff.mp heval
  exact ⟨m', Run.of_foldlM hm', hf⟩

end Cerberus.Boot
