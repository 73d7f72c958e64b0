import Cerberus.Kernel.State

/-! # The trap handler

`trap_handler` and `switch_task` of `kernel/src/trap.rs`. A handler runs atomically once it has
`SCHED_LOCK`; `Stop` lists the ways it does not return. `mcycle` and `cycle` are read as one input,
and the metrics, the log output and the re-arming of the timer are left out: nothing in the handler
reads them. -/
namespace Cerberus.Kernel
open Scheduler Sync Memory
set_option autoImplicit false

/-- Why a trap handler does not return: it busy-waits for a lock of the other hart, unwraps an empty
slot, indexes past the end of an array, fails the `assert_eq!` on the owner of a mutex, or reaches
`panic!("unhandled exception")`. With `copyFault` the M-mode copy of a syscall faults, with that
cause and the kernel at that moment. -/
inductive Stop where
  | spinning
  | unwrapNone
  | indexOutOfBounds
  | ownerAssertion
  | unhandledException
  | copyFault (cause : Word) (k : Kernel)

/-- What the assembly passes to the handler, and the cycle counter. -/
structure Trap where
  mcause : Word
  userSp : Word
  cycles : Word

abbrev Outcome := Except Stop (Word × Kernel)

/-! ## Locks and the context switch -/

/-- `lock_guard` for the whole of `body`. -/
def withSchedLock (h : Hart) (k : Kernel) (body : Kernel → Outcome) : Outcome :=
  match k.schedLock.lock h with
  | none => .error .spinning
  | some l =>
    match body { k with schedLock := l } with
    | .error e => .error e
    | .ok (sp, k') => .ok (sp, { k' with schedLock := k'.schedLock.unlock })

def lockMutexes (h : Hart) (k : Kernel) : Except Stop Kernel :=
  match k.mutexLock.lock h with
  | none => .error .spinning
  | some l => .ok { k with mutexLock := l }

def unlockMutexes (k : Kernel) : Kernel := { k with mutexLock := k.mutexLock.unlock }

def switchTask (P : Platform) (h : Hart) (cycles : Word) (isTick : Bool) (currentSp : Word)
    (k : Kernel) : Word × Kernel :=
  match (k.scheds h).schedule isTick with
  | (s, none) => (currentSp, k.setSched h s)
  | (s, some (oldIdx, newSp)) =>
    let k1 := (k.logTelemetry (.taskSwap (BitVec.ofNat 8 (k.current h).val)
      (BitVec.ofNat 8 s.currentPartitionIdx.val) cycles)).setSched h (s.setSavedSp oldIdx currentSp)
    match s.taskTable s.currentPartitionIdx with
    | some newTcb => (newSp, k1.setPmp h (reprogramPmpStack P.layout newTcb.name (k.pmp h)))
    | none => (newSp, k1)

/-! ## Capabilities -/

def lockRight : Capability → Option Byte
  | .mutex mutexIdx true _ => some mutexIdx
  | _ => none

def unlockRight : Capability → Option Byte
  | .mutex mutexIdx _ true => some mutexIdx
  | _ => none

def sendRight : Capability → Option Byte
  | .ipc endpointIdx true _ => some endpointIdx
  | _ => none

def recvRight : Capability → Option Byte
  | .ipc endpointIdx _ true => some endpointIdx
  | _ => none

/-- The resource the running task's C-list entry `capIdx` grants; `none` is `permission_denied`. -/
def granted (k : Kernel) (h : Hart) (capIdx : Word) (right : Capability → Option Byte) :
    Except Stop (Option Byte) :=
  if hc : capIdx.toNat < 8 then
    match (k.scheds h).taskTable (k.current h) with
    | none => .error .unwrapNone
    | some tcb => .ok (right (tcb.capabilities ⟨capIdx.toNat, hc⟩))
  else .ok none

/-- The mutex a capability names; `none` is `permission_denied`. -/
def grantedMutex (k : Kernel) (h : Hart) (capIdx : Word) (right : Capability → Option Byte) :
    Except Stop (Option (Fin 8 × KernelMutex)) :=
  match granted k h capIdx right with
  | .error e => .error e
  | .ok none => .ok none
  | .ok (some mutexIdx) =>
    if hm : mutexIdx.toNat < 8 then
      .ok ((k.mutexes ⟨mutexIdx.toNat, hm⟩).map fun m => (⟨mutexIdx.toNat, hm⟩, m))
    else .error .indexOutOfBounds

def refused : Word := -1#32

/-! ## Mutex waiters -/

def bit (i : Fin MAX_PARTITIONS) : Word := 1#32 <<< i.val

/-- The core a waiter is looked up on: Watchdog (0) and Task A (1) on core 0, the others on
core 1. -/
def waiterHart (w : Fin MAX_PARTITIONS) : Hart := if w.val < 2 then 0 else 1

def waiterPriority (k : Kernel) (w : Fin MAX_PARTITIONS) : Except Stop Byte :=
  match (k.scheds (waiterHart w)).taskTable w with
  | some tcb => .ok tcb.priority
  | none => .error .unwrapNone

/-- One round of the scan for the highest priority waiter. -/
def scanWaiter (k : Kernel) (waitersBitmap : Word) (highest : Option (Fin MAX_PARTITIONS))
    (i : Fin MAX_PARTITIONS) : Except Stop (Option (Fin MAX_PARTITIONS)) :=
  if waitersBitmap &&& bit i ≠ 0#32 then
    match highest with
    | none => .ok (some i)
    | some w =>
      match waiterPriority k w, waiterPriority k i with
      | .ok wPrio, .ok iPrio => .ok (if iPrio < wPrio then some i else some w)
      | _, _ => .error .unwrapNone
  else .ok highest

def highestWaiter (k : Kernel) (waitersBitmap : Word) :
    Except Stop (Option (Fin MAX_PARTITIONS)) :=
  (List.finRange MAX_PARTITIONS).foldlM (scanWaiter k waitersBitmap) none

def KernelMutex.handTo (m : KernelMutex) (w : Fin MAX_PARTITIONS) : KernelMutex where
  locked := true
  ownerTaskIdx := some (BitVec.ofNat 8 w.val)
  waitersBitmap := m.waitersBitmap &&& ~~~bit w

def KernelMutex.free (m : KernelMutex) : KernelMutex :=
  { m with locked := false, ownerTaskIdx := none }

/-- Mutex recovery for one mutex: free it if the terminated task owns it, or hand it to the highest
priority waiter, who becomes `Ready`. -/
def recoverMutex (target : Fin MAX_PARTITIONS) (k : Kernel) (i : Fin 8) : Except Stop Kernel :=
  match k.mutexes i with
  | none => .ok k
  | some m =>
    if m.ownerTaskIdx = some (BitVec.ofNat 8 target.val) then
      match highestWaiter k m.waitersBitmap with
      | .error e => .error e
      | .ok none => .ok (k.setMutex i m.free)
      | .ok (some w) => .ok ((k.setMutex i (m.handTo w)).setState (waiterHart w) w .ready)
    else .ok k

def recoverMutexes (h : Hart) (target : Fin MAX_PARTITIONS) (k : Kernel) : Except Stop Kernel :=
  match lockMutexes h k with
  | .error e => .error e
  | .ok k1 =>
    match (List.finRange 8).foldlM (recoverMutex target) k1 with
    | .error e => .error e
    | .ok k2 => .ok (unlockMutexes k2)

/-! ## Syscalls -/

section Syscalls
variable (P : Platform) (h : Hart) (t : Trap) (k : Kernel)

/-- Syscall 1: Cooperative Yield. -/
def sysYield : Outcome :=
  withSchedLock h k fun k => .ok (switchTask P h t.cycles false t.userSp k)

def blockCaller (st : TaskState) (k : Kernel) : Outcome :=
  match (k.scheds h).taskTable (k.current h) with
  | none => .error .unwrapNone
  | some _ => .ok (switchTask P h t.cycles false t.userSp (k.setState h (k.current h) st))

/-- Syscall 2: Sleep Ticks. -/
def sysSleep : Outcome :=
  let ticks := k.readFrame t.userSp 6
  withSchedLock h k fun k => blockCaller P h t (.blocked (k.tickCount + ticks)) k

/-- The result of the lock syscall, written unless the task is recorded as waiting. -/
def finishLock (runningIdx : Fin MAX_PARTITIONS) (r : Word × Kernel) : Outcome :=
  match (r.2.scheds h).taskTable runningIdx with
  | none => .error .unwrapNone
  | some tcb =>
    match tcb.state with
    | .blockedOnMutex _ => .ok r
    | _ => .ok (r.1, r.2.writeFrame t.userSp 6 0#32)

def lockMutex (capIdx : Word) (k : Kernel) : Outcome :=
  let runningIdx := k.current h
  match lockMutexes h k with
  | .error e => .error e
  | .ok k =>
    match grantedMutex k h capIdx lockRight with
    | .error e => .error e
    | .ok none => .ok (t.userSp, (unlockMutexes k).writeFrame t.userSp 6 refused)
    | .ok (some (i, m)) =>
      if m.locked = false then
        finishLock h t runningIdx (t.userSp, unlockMutexes (k.setMutex i
          { m with locked := true, ownerTaskIdx := some (BitVec.ofNat 8 runningIdx.val) }))
      else
        -- locked: the task blocks and another one is scheduled
        let k := k.setState h runningIdx (.blockedOnMutex (BitVec.ofNat 8 i.val))
        let k := k.setMutex i { m with waitersBitmap := m.waitersBitmap ||| bit runningIdx }
        finishLock h t runningIdx (switchTask P h t.cycles false t.userSp (unlockMutexes k))

/-- Syscall 3: Lock Mutex. -/
def sysLock : Outcome := withSchedLock h k (lockMutex P h t (k.readFrame t.userSp 6))

/-- The transfer of an unlocked mutex: the waiter becomes `Ready` and finds 0 in its saved `a0`. -/
def handOff (i : Fin 8) (m : KernelMutex) (w : Fin MAX_PARTITIONS) (k : Kernel) :
    Except Stop Kernel :=
  match (k.scheds (waiterHart w)).taskTable w with
  | none => .error .unwrapNone
  | some waiterTcb =>
    -- `locked` is left as it is
    let k := (k.setMutex i { m.handTo w with locked := m.locked }).setState (waiterHart w) w .ready
    let k := unlockMutexes (k.writeFrame waiterTcb.savedSp 6 0#32)
    .ok (if waiterHart w ≠ h then k.setMsip (waiterHart w) true else k)

def releaseMutex (i : Fin 8) (m : KernelMutex) (k : Kernel) : Except Stop Kernel :=
  match highestWaiter k m.waitersBitmap with
  | .error e => .error e
  | .ok none => .ok (unlockMutexes (k.setMutex i m.free))
  | .ok (some w) => handOff h i m w k

def unlockMutex (capIdx : Word) (k : Kernel) : Outcome :=
  let runningIdx := k.current h
  match lockMutexes h k with
  | .error e => .error e
  | .ok k =>
    match grantedMutex k h capIdx unlockRight with
    | .error e => .error e
    | .ok none => .ok (t.userSp, (unlockMutexes k).writeFrame t.userSp 6 refused)
    | .ok (some (i, m)) =>
      if m.ownerTaskIdx = some (BitVec.ofNat 8 runningIdx.val) then
        match releaseMutex h i m k with
        | .error e => .error e
        | .ok k =>
          let r := switchTask P h t.cycles false t.userSp k
          .ok (r.1, r.2.writeFrame t.userSp 6 0#32)
      else .error .ownerAssertion

/-- Syscall 4: Unlock Mutex. -/
def sysUnlock : Outcome := withSchedLock h k (unlockMutex P h t (k.readFrame t.userSp 6))

/-- Syscall 5: Watchdog Check-in. -/
def sysCheckin : Outcome :=
  withSchedLock h k fun k =>
    .ok (t.userSp,
      { k with lastCheckin := Function.update k.lastCheckin (k.current h) k.tickCount })

def slots : List (Hart × Fin MAX_PARTITIONS) :=
  [0, 1].flatMap fun h => (List.finRange MAX_PARTITIONS).map fun i => (h, i)

/-- The first task whose state `want` accepts, with what `want` reads from it. -/
def findPartner {α : Type} (want : TaskState → Option α) (k : Kernel) :
    Option (Hart × Fin MAX_PARTITIONS × α) :=
  slots.findSome? fun x => ((k.stateOf x.1 x.2).bind want).map fun a => (x.1, x.2, a)

def waitingReceiver (endpointIdx : Byte) : TaskState → Option (Word × Word)
  | .blockedOnIpcRecv rxEp bufAddr maxLen =>
    if rxEp = endpointIdx then some (bufAddr, maxLen) else none
  | _ => none

def waitingSender (endpointIdx : Byte) : TaskState → Option (Word × Word)
  | .blockedOnIpcSend txEp msgAddr msgLen =>
    if txEp = endpointIdx then some (msgAddr, msgLen) else none
  | _ => none

/-- `copy_nonoverlapping`, byte by byte in M-mode; a fault keeps the bytes copied so far. -/
def copyBytes (P : Platform) (r : PmpRegs) : ℕ → Word → Word → Memory → Except (Word × Memory) Memory
  | 0, _, _, m => .ok m
  | n + 1, src, dst, m =>
    if P.mapped src && mModeMay r .read src then
      if P.mapped dst && mModeMay r .write dst then
        copyBytes P r n (src + 1#32) (dst + 1#32) (Function.update m dst (m src))
      else .error (7#32, m)
    else .error (5#32, m)

def transferLen (msgLen maxLen : Word) : Word := if msgLen ≤ maxLen then msgLen else maxLen

/-- The rendezvous: copy, make the waiting partner `Ready`, write the two results, log, and signal
the partner's core. `mine` and `theirs` are the `a0` of the caller and of the partner. -/
def rendezvous (endpointIdx : Byte) (src dst len : Word) (partner : Hart × Fin MAX_PARTITIONS)
    (mine theirs : Word) (k : Kernel) : Outcome :=
  match (k.scheds partner.1).taskTable partner.2 with
  | none => .error .unwrapNone
  | some tcb =>
    match copyBytes P (k.pmp h) len.toNat src dst k.mem with
    | .error (cause, m) => .error (.copyFault cause (k.setMem m))
    | .ok m =>
      let k := (k.setMem m).setState partner.1 partner.2 .ready
      let k := (k.writeFrame tcb.savedSp 6 theirs).writeFrame t.userSp 6 mine
      let k := k.logTelemetry (.ipcTransfer endpointIdx (len.setWidth 8))
      .ok (t.userSp, if partner.1 ≠ h then k.setMsip partner.1 true else k)

def sendMessage (capIdx msgAddr msgLen : Word) (k : Kernel) : Outcome :=
  match granted k h capIdx sendRight with
  | .error e => .error e
  | .ok none => .ok (t.userSp, k.writeFrame t.userSp 6 refused)
  | .ok (some endpointIdx) =>
    match findPartner (waitingReceiver endpointIdx) k with
    | some (rxHart, rxIdx, bufAddr, maxLen) =>
      let len := transferLen msgLen maxLen
      rendezvous P h t endpointIdx msgAddr bufAddr len (rxHart, rxIdx) 0#32 len k
    | none => blockCaller P h t (.blockedOnIpcSend endpointIdx msgAddr msgLen) k

/-- Syscall 6: Send IPC (Synchronous Rendezvous). -/
def sysSend : Outcome :=
  withSchedLock h k (sendMessage P h t (k.readFrame t.userSp 6) (k.readFrame t.userSp 7)
    (k.readFrame t.userSp 8))

def receiveMessage (capIdx bufAddr maxLen : Word) (k : Kernel) : Outcome :=
  match granted k h capIdx recvRight with
  | .error e => .error e
  | .ok none => .ok (t.userSp, k.writeFrame t.userSp 6 refused)
  | .ok (some endpointIdx) =>
    match findPartner (waitingSender endpointIdx) k with
    | some (txHart, txIdx, msgAddr, msgLen) =>
      let len := transferLen msgLen maxLen
      rendezvous P h t endpointIdx msgAddr bufAddr len (txHart, txIdx) len 0#32 k
    | none => blockCaller P h t (.blockedOnIpcRecv endpointIdx bufAddr maxLen) k

/-- Syscall 7: Receive IPC (Synchronous Rendezvous). -/
def sysRecv : Outcome :=
  withSchedLock h k (receiveMessage P h t (k.readFrame t.userSp 6) (k.readFrame t.userSp 7)
    (k.readFrame t.userSp 8))

/-- The task with index `targetPrio`, searched on core 0 first. -/
def findTask (k : Kernel) (targetPrio : Word) : Option (Hart × Fin MAX_PARTITIONS) :=
  if ht : targetPrio.toNat < MAX_PARTITIONS then
    if ((k.scheds 0).taskTable ⟨targetPrio.toNat, ht⟩).isSome then some (0, ⟨targetPrio.toNat, ht⟩)
    else if ((k.scheds 1).taskTable ⟨targetPrio.toNat, ht⟩).isSome then
      some (1, ⟨targetPrio.toNat, ht⟩)
    else none
  else none

def terminateTask (targetPrio : Word) (k : Kernel) : Outcome :=
  match findTask k targetPrio with
  | none => .ok (t.userSp, k.writeFrame t.userSp 6 refused)
  | some (foundHart, target) =>
    match recoverMutexes h target (k.setState foundHart target .terminated) with
    | .error e => .error e
    | .ok k =>
      let k := k.writeFrame t.userSp 6 0#32
      if foundHart ≠ h then .ok (t.userSp, k.setMsip foundHart true)
      else if target = k.current h then .ok (switchTask P h t.cycles false t.userSp k)
      else .ok (t.userSp, k)

/-- Syscall 8: Terminate Task. -/
def sysTerminate : Outcome := withSchedLock h k (terminateTask P h t (k.readFrame t.userSp 6))

/-- An environment call: the saved pc moves past the `ecall`, then `a7` selects the syscall. -/
def ecall : Outcome :=
  let syscallId := k.readFrame t.userSp 13
  let k := k.writeFrame t.userSp 28 (k.readFrame t.userSp 28 + 4#32)
  match syscallId.toNat with
  | 1 => sysYield P h t k
  | 2 => sysSleep P h t k
  | 3 => sysLock P h t k
  | 4 => sysUnlock P h t k
  | 5 => sysCheckin h t k
  | 6 => sysSend P h t k
  | 7 => sysRecv P h t k
  | 8 => sysTerminate P h t k
  | _ => .ok (t.userSp, k)

/-! ## Interrupts and exceptions -/

def wakeState (tick : Word) : TaskState → TaskState
  | .blocked wakeTick => if wakeTick ≤ tick then .ready else .blocked wakeTick
  | st => st

def wakeSleepers (tick : Word) (s : BitMapScheduler) : BitMapScheduler :=
  { s with
    taskTable := fun i => (s.taskTable i).map fun tcb =>
      { tcb with state := wakeState tick tcb.state } }

def timerInterrupt : Outcome :=
  let k := { k with tickCount := k.tickCount + 1#32 }
  withSchedLock h k fun k' =>
    .ok (switchTask P h t.cycles true t.userSp
      (k'.setSched h (wakeSleepers k.tickCount (k'.scheds h))))

def softwareInterrupt : Outcome :=
  withSchedLock h (k.setMsip h false) fun k =>
    .ok (switchTask P h t.cycles false t.userSp k)

/-- The instruction is a CSR access to cycle or mcycle. -/
def readsCounter (instruction : Word) : Bool :=
  instruction &&& 0x7F#32 = 0x73#32 ∧
    (instruction >>> 20 = 0xC00#32 ∨ instruction >>> 20 = 0xB00#32)

def frameIdx (instruction : Word) : Option ℕ :=
  let rdIdx := ((instruction >>> 7) &&& 0x1F#32).toNat
  if rdIdx = 1 then some 0 else if 5 ≤ rdIdx then some (rdIdx - 4) else none

def emulateCounter (instruction : Word) : Kernel :=
  let mepc := k.readFrame t.userSp 28
  let k := match frameIdx instruction with
    | some idx => k.writeFrame t.userSp idx t.cycles
    | none => k
  k.writeFrame t.userSp 28 (mepc + 4#32)

/-- Containment under `SCHED_LOCK`: terminate the running task, recover its mutexes, and
reschedule. -/
def terminateRunning (k : Kernel) : Outcome :=
  let runningIdx := k.current h
  match (k.scheds h).taskTable runningIdx with
  | none => .ok (switchTask P h t.cycles false t.userSp k)
  | some _ =>
    match recoverMutexes h runningIdx (k.setState h runningIdx .terminated) with
    | .error e => .error e
    | .ok k => .ok (switchTask P h t.cycles false t.userSp k)

def containFault : Outcome :=
  withSchedLock h (k.logTelemetry (.faultInterception t.mcause (k.readFrame t.userSp 28)))
    (terminateRunning P h t)

def contained (cause : Word) : Bool := cause.toNat ∈ [1, 2, 4, 5, 6, 7]

def exception : Outcome :=
  let instruction := k.mem.readWord (k.readFrame t.userSp 28)
  if t.mcause = 2#32 ∧ readsCounter instruction = true then
    .ok (t.userSp, emulateCounter t k instruction)
  else if contained t.mcause then containFault P h t k
  else .error .unhandledException

def TIMER_INTERRUPT : Word := 0x80000007#32
def SOFTWARE_INTERRUPT : Word := 0x80000003#32
def ECALL_UMODE : Word := 8#32

def trapHandler : Outcome :=
  if t.mcause = TIMER_INTERRUPT then timerInterrupt P h t k
  else if t.mcause = SOFTWARE_INTERRUPT then softwareInterrupt P h t k
  else if t.mcause = ECALL_UMODE then ecall P h t k
  else exception P h t k

end Syscalls
end Cerberus.Kernel
