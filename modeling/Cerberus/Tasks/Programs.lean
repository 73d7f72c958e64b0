import Cerberus.Containment.Panic
import Cerberus.Signing.Protocol
import Cerberus.Watchdog.Health

/-! # The task programs

`watchdog_task`, `task_a`, `task_b` and `task_c` of `kernel/src/main.rs`, `idle_task`, `hsm_task` and
`verify_frame_secure`, as the system calls they make. A point is named by what the task does next. Where
a task goes on by the result of a call, both ways are open; which task `watchdog_task` terminates is in
`Watchdog/Health`, and here it may be any of the four it monitors. -/
namespace Cerberus.Tasks
open Kernel Scheduler Sync Memory Transition Signing Watchdog Ipc
set_option autoImplicit false

/-! ## Calls -/

/-- The syscall wrappers. -/
inductive Call where
  | yieldNow
  | sleepTicks (ticks : Word)
  | lockMutex (idx : Word)
  | unlockMutex (idx : Word)
  | watchdogCheckin
  | sysSend (capIdx : Word)
  | sysRecv (capIdx : Word)
  | sysTerminateTask (prio : Word)
  deriving DecidableEq

namespace Call

/-- `a7` at the `ecall`. -/
def id : Call → ℕ
  | yieldNow => 1
  | sleepTicks _ => 2
  | lockMutex _ => 3
  | unlockMutex _ => 4
  | watchdogCheckin => 5
  | sysSend _ => 6
  | sysRecv _ => 7
  | sysTerminateTask _ => 8

/-- `a0` at the `ecall`, where the wrapper sets it. -/
def arg : Call → Option Word
  | sleepTicks a | lockMutex a | unlockMutex a | sysSend a | sysRecv a | sysTerminateTask a => some a
  | yieldNow | watchdogCheckin => none

/-- The saved frame of the trap is that of the call. -/
def Made (c : Call) (t : Trap) (k : Kernel) : Prop :=
  (k.readFrame t.userSp 13).toNat = c.id ∧ (c.arg = none ∨ c.arg = some (k.readFrame t.userSp 6))

instance (c : Call) (t : Trap) (k : Kernel) : Decidable (c.Made t k) :=
  inferInstanceAs (Decidable (_ ∧ _))

theorem Made.a0 {c : Call} {t : Trap} {k : Kernel} (hmade : c.Made t k) {a : Word} (ha : c.arg = some a) :
    k.readFrame t.userSp 6 = a := by
  rcases hmade.2 with hnone | hsome
  · cases hnone.symm.trans ha
  · exact Option.some.inj (hsome.symm.trans ha)

end Call

/-! ## Points -/

inductive Point where
  | watchdogSleep
  | watchdogLock
  | watchdogCheck
  | watchdogRestartTaskC
  | watchdogRestartHsm
  | watchdogUnlock
  | aCheckin
  | aLock
  | aUnlock
  | aRequest
  | aReply
  /-- after the first exchange, at `verify_frame_secure` -/
  | aVerify
  | aExpected
  | aReport
  | aYield
  | bRecv (loops : Word)
  | bCheckin (loops : Word)
  | bYield (loops : Word)
  | cStart
  | cYieldLocked
  | cUnlock
  | cYieldUnlocked
  | cYield
  | hsmCheckin
  | hsmRecv
  | hsmReply
  | idle
  deriving DecidableEq

namespace Point

/-- The next calls, each with the point after it. Task C reads `TEST_COUNTER` when it starts. -/
def calls (testCounter : Word) : Point → List (Call × Point)
  | watchdogSleep => [(.sleepTicks 100, watchdogLock)]
  | watchdogCheck => [(.sysTerminateTask 1, watchdogRestartTaskC),
      (.sysTerminateTask 2, watchdogRestartTaskC), (.sysTerminateTask 3, watchdogRestartTaskC),
      (.sysTerminateTask 4, watchdogRestartTaskC)]
  | watchdogLock | watchdogRestartTaskC | watchdogRestartHsm | watchdogUnlock => []
  | aCheckin => [(.watchdogCheckin, aLock)]
  | aLock => [(.lockMutex 0, aUnlock)]
  | aUnlock => [(.unlockMutex 0, aRequest)]
  | aRequest => [(.sysSend 2, aReply)]
  | aReply => [(.sysRecv 3, aVerify)]
  -- the signature is verified if both calls succeeded
  | aVerify => [(.sysSend 2, aExpected), (.sysSend 1, aYield)]
  | aExpected => [(.sysRecv 3, aReport), (.sysSend 1, aYield)]
  | aReport => [(.sysSend 1, aYield)]
  | aYield => [(.yieldNow, aCheckin)]
  | bRecv loops => [(.sysRecv 0, bCheckin loops)]
  | bCheckin loops =>
    if loops < 5 then [(.watchdogCheckin, bYield loops)] else [(.yieldNow, bRecv (loops + 1))]
  | bYield loops => [(.yieldNow, bRecv (loops + 1))]
  | cStart =>
    if testCounter = 0 then [(.lockMutex 0, cYieldLocked)]
    else if testCounter = 1 then [(.yieldNow, cYield)]
    else [(.watchdogCheckin, cYield)]
  | cYieldLocked => [(.yieldNow, cUnlock)]
  | cUnlock => [(.unlockMutex 0, cYieldUnlocked)]
  | cYieldUnlocked => [(.yieldNow, cYield)]
  | cYield => [(.yieldNow, cYield)]
  | hsmCheckin => [(.watchdogCheckin, hsmRecv)]
  | hsmRecv => [(.sysRecv 0, hsmReply)]
  -- a request of the wrong size is not answered
  | hsmReply => [(.sysSend 1, hsmCheckin), (.watchdogCheckin, hsmRecv)]
  | idle => []

/-- The pass of `watchdog_task`, which makes no call but `sys_terminate_task`. -/
def pass : Event → Point → Option Point
  | .watchdogLock, watchdogLock => some watchdogCheck
  | .watchdogRestartTaskC, watchdogCheck => some watchdogRestartHsm
  | .watchdogRestartTaskC, watchdogRestartTaskC => some watchdogRestartHsm
  | .watchdogRestartHsm, watchdogRestartHsm => some watchdogUnlock
  | .watchdogUnlock, watchdogUnlock => some watchdogSleep
  | _, _ => none

/-- The task whose program has the point. -/
def task : Point → Option TaskId
  | watchdogSleep | watchdogLock | watchdogCheck | watchdogRestartTaskC | watchdogRestartHsm
  | watchdogUnlock => some watchdog
  | aCheckin | aLock | aUnlock | aRequest | aReply | aVerify | aExpected | aReport | aYield =>
    some taskA
  | bRecv _ | bCheckin _ | bYield _ => some taskB
  | cStart | cYieldLocked | cUnlock | cYieldUnlocked | cYield => some taskC
  | hsmCheckin | hsmRecv | hsmReply => some hsmTask
  | idle => none

/-- Between the lock and the unlock of mutex 0. -/
def Critical (p : Point) : Prop := p = aUnlock ∨ p = cYieldLocked ∨ p = cUnlock

instance (p : Point) : Decidable p.Critical := inferInstanceAs (Decidable (_ ∨ _))

theorem task_of_call {p : Point} {testCounter : Word} : ∀ c ∈ p.calls testCounter, c.2.task = p.task := by
  cases p with
  | bCheckin loops =>
    simp only [calls]
    split <;> simp [task]
  | cStart =>
    simp only [calls]
    split
    · simp [task]
    · split <;> simp [task]
  | _ => simp [calls, task]

end Point

/-! ## The fleet -/

/-- Where each task starts, or starts again. -/
def entry (x : TaskId) : Point :=
  if x = watchdog then .watchdogSleep else if x = taskA then .aCheckin
  else if x = taskB then .bRecv 0 else if x = taskC then .cStart
  else if x = hsmTask then .hsmCheckin else .idle

theorem eq_of_entry_task {x y : TaskId} (hx : (entry x).task = some y) : x = y := by
  unfold entry at hx
  split at hx
  · exact ‹x = watchdog›.trans (Option.some.inj hx)
  split at hx
  · exact ‹x = taskA›.trans (Option.some.inj hx)
  split at hx
  · exact ‹x = taskB›.trans (Option.some.inj hx)
  split at hx
  · exact ‹x = taskC›.trans (Option.some.inj hx)
  split at hx
  · exact ‹x = hsmTask›.trans (Option.some.inj hx)
  · cases hx

/-- The system and the point each task has reached. -/
structure Fleet where
  sys : System
  point : TaskId → Point

def Interrupt (cause : Word) : Prop := cause = TIMER_INTERRUPT ∨ cause = SOFTWARE_INTERRUPT

instance (cause : Word) : Decidable (Interrupt cause) := inferInstanceAs (Decidable (_ ∨ _))

namespace Fleet
variable (σ : Fleet)

/-- The points after a trap of the running task: an `ecall` is one of its next calls, an interrupt may
come at any time and so may a fault, except in `idle_task`. -/
def afterTrap (h : Hart) (t : Trap) (m : Memory) : Option (TaskId → Point) :=
  let x := (view σ.sys.kernel).running h
  if t.mcause = ECALL_UMODE then
    (((σ.point x).calls σ.sys.kernel.testCounter).find? fun c =>
      decide (c.1.Made t (σ.sys.kernel.setMem m))).map fun c => Function.update σ.point x c.2
  else if σ.point x = .idle ∧ ¬ Interrupt t.mcause then none
  else some σ.point

/-- The points after a step of the pass; a restarted task starts again. -/
def afterPass (ev : Event) : Option (TaskId → Point) :=
  ((σ.point watchdog).pass ev).map fun p =>
    let point := Function.update σ.point watchdog p
    match ev.restartsNow σ.sys.kernel with
    | some x => Function.update point x (entry x)
    | none => point

def advance : Event → Option (TaskId → Point)
  | .trap h t m => σ.afterTrap h t m
  | .nestedTrap h t m _ _ => σ.afterTrap h t m
  | ev => σ.afterPass ev

def next (P : Platform) (ev : Event) : Option Fleet :=
  (σ.advance ev).bind fun point => (σ.sys.next P ev).map fun s => ⟨s, point⟩

end Fleet

def FleetStep (P : Platform) (σ : Fleet) (ev : Event) (σ' : Fleet) : Prop := σ.next P ev = some σ'

def FleetInitial (P : Platform) (σ : Fleet) : Prop := Initial P σ.sys ∧ σ.point = entry

/-- The Watchdog does not terminate Task C while core 1 runs it. -/
def SparesRunning (σ : Fleet) (ev : Event) : Prop :=
  match ev.effect σ.sys.kernel with
  | some (h, .kill x) => x = taskC → x.1 = h ∨ (view σ.sys.kernel).running x.1 ≠ x
  | _ => True

instance (σ : Fleet) (ev : Event) : Decidable (SparesRunning σ ev) :=
  match he : ev.effect σ.sys.kernel with
  | some (h, .kill x) =>
    decidable_of_iff (x = taskC → x.1 = h ∨ (view σ.sys.kernel).running x.1 ≠ x)
      (by simp only [SparesRunning, he])
  | none | some (_, .none) | some (_, .tick _) | some (_, .resched) | some (_, .block _)
  | some (_, .grant _) | some (_, .wait _) | some (_, .release _) | some (_, .transfer _) =>
    isTrue (by simp [SparesRunning, he])

/-- What the programs do in a step. -/
inductive Moves (σ : Fleet) (ev : Event) : (TaskId → Point) → Prop where
  | call {h : Hart} {t : Trap} {m : Memory} {c : Call} {p : Point} (hev : firstTrap ev = some (h, t, m))
      (hecall : t.mcause = ECALL_UMODE) (hmade : c.Made t (σ.sys.kernel.setMem m))
      (hc : (c, p) ∈ (σ.point ((view σ.sys.kernel).running h)).calls σ.sys.kernel.testCounter) :
      Moves σ ev (Function.update σ.point ((view σ.sys.kernel).running h) p)
  | other {h : Hart} {t : Trap} {m : Memory} (hev : firstTrap ev = some (h, t, m))
      (hecall : t.mcause ≠ ECALL_UMODE)
      (hidle : σ.point ((view σ.sys.kernel).running h) = .idle → Interrupt t.mcause) : Moves σ ev σ.point
  | pass {p : Point} (hev : firstTrap ev = none) (hp : (σ.point watchdog).pass ev = some p)
      (hnow : ev.restartsNow σ.sys.kernel = none) : Moves σ ev (Function.update σ.point watchdog p)
  | restart {p : Point} {x : TaskId} (hev : firstTrap ev = none)
      (hp : (σ.point watchdog).pass ev = some p) (hnow : ev.restartsNow σ.sys.kernel = some x) :
      Moves σ ev (Function.update (Function.update σ.point watchdog p) x (entry x))

theorem moves_of_afterTrap {σ : Fleet} {ev : Event} {h : Hart} {t : Trap} {m : Memory}
    {point : TaskId → Point} (hev : firstTrap ev = some (h, t, m))
    (hafter : σ.afterTrap h t m = some point) : Moves σ ev point := by
  unfold Fleet.afterTrap at hafter
  dsimp only at hafter
  split at hafter
  · obtain ⟨⟨c, p⟩, hfind, rfl⟩ := Option.map_eq_some_iff.mp hafter
    have hmade := List.find?_some hfind
    exact .call hev ‹_› (of_decide_eq_true hmade) (List.mem_of_find?_eq_some hfind)
  · split at hafter
    · cases hafter
    · rename_i hidle
      rw [← Option.some.inj hafter]
      refine .other hev ‹_› fun hpoint => ?_
      by_contra hno
      exact hidle ⟨hpoint, hno⟩

theorem moves_of_afterPass {σ : Fleet} {ev : Event} {point : TaskId → Point}
    (hev : firstTrap ev = none) (hafter : σ.afterPass ev = some point) : Moves σ ev point := by
  obtain ⟨p, hp, rfl⟩ := Option.map_eq_some_iff.mp hafter
  cases hnow : ev.restartsNow σ.sys.kernel with
  | none => exact .pass hev hp hnow
  | some x => exact .restart hev hp hnow

theorem moves_of_advance {σ : Fleet} {ev : Event} {point : TaskId → Point}
    (hadvance : σ.advance ev = some point) : Moves σ ev point := by
  cases ev with
  | trap h t m => exact moves_of_afterTrap rfl hadvance
  | nestedTrap h t m t' m' => exact moves_of_afterTrap rfl hadvance
  | _ => exact moves_of_afterPass rfl hadvance

theorem FleetStep.cases {P : Platform} {σ σ' : Fleet} {ev : Event} (hstep : FleetStep P σ ev σ') :
    Moves σ ev σ'.point ∧ Step P σ.sys ev σ'.sys := by
  obtain ⟨point, hadvance, hnext⟩ := Option.bind_eq_some_iff.mp hstep
  obtain ⟨s, hs, rfl⟩ := Option.map_eq_some_iff.mp hnext
  exact ⟨moves_of_advance hadvance, hs⟩

/-! ## What the calls do -/

/-- The resource entry `capIdx` of the C-list of `x` grants, as it was registered. -/
def entitled (x : TaskId) (capIdx : Word) (right : Capability → Option Byte) : Option Byte :=
  (bootStatic x).bind fun s =>
    if hc : capIdx.toNat < 8 then right (s.capabilities ⟨capIdx.toNat, hc⟩) else none

/-- The slot `sys_terminate_task` looks the task up in. -/
def registered (prio : Word) : Option TaskId :=
  if ht : prio.toNat < MAX_PARTITIONS then
    if (bootStatic (0, ⟨prio.toNat, ht⟩)).isSome then some (0, ⟨prio.toNat, ht⟩)
    else if (bootStatic (1, ⟨prio.toNat, ht⟩)).isSome then some (1, ⟨prio.toNat, ht⟩)
    else none
  else none

/-- The task has the right to its call. -/
def Call.Entitled (x : TaskId) : Call → Prop
  | lockMutex idx => entitled x idx lockRight = some 0
  | unlockMutex idx => entitled x idx unlockRight = some 0
  | sysSend capIdx => (entitled x capIdx sendRight).isSome
  | sysRecv capIdx => (entitled x capIdx recvRight).isSome
  | sysTerminateTask prio => (registered prio).isSome
  | yieldNow | sleepTicks _ | watchdogCheckin => True

instance (x : TaskId) (c : Call) : Decidable (c.Entitled x) := by
  unfold Call.Entitled
  split <;> infer_instance

/-- The effects a call of `x` can have when it is not refused. A partner waits on the same endpoint. -/
inductive Serves (v : View) (x : TaskId) : Call → Effect → Prop where
  | yieldNow : Serves v x .yieldNow .resched
  | sleepTicks (ticks wakeTick : Word) : Serves v x (.sleepTicks ticks) (.block (.blocked wakeTick))
  | grant (idx : Word) : Serves v x (.lockMutex idx) (.grant 0)
  | wait (idx : Word) : Serves v x (.lockMutex idx) (.wait 0)
  | unlock (idx : Word) : Serves v x (.unlockMutex idx) (.release 0)
  | checkin : Serves v x .watchdogCheckin .none
  | sends {capIdx : Word} {e : Byte} {y : TaskId} {a l : Word} (he : entitled x capIdx sendRight = some e)
      (hy : v.state y = some (.blockedOnIpcRecv e a l)) : Serves v x (.sysSend capIdx) (.transfer y)
  | sendWaits {capIdx : Word} {e : Byte} (a l : Word) (he : entitled x capIdx sendRight = some e) :
      Serves v x (.sysSend capIdx) (.block (.blockedOnIpcSend e a l))
  | receives {capIdx : Word} {e : Byte} {y : TaskId} {a l : Word} (he : entitled x capIdx recvRight = some e)
      (hy : v.state y = some (.blockedOnIpcSend e a l)) : Serves v x (.sysRecv capIdx) (.transfer y)
  | recvWaits {capIdx : Word} {e : Byte} (a l : Word) (he : entitled x capIdx recvRight = some e) :
      Serves v x (.sysRecv capIdx) (.block (.blockedOnIpcRecv e a l))
  | terminate {prio : Word} {y : TaskId} (hy : registered prio = some y) :
      Serves v x (.sysTerminateTask prio) (.kill y)

theorem entitled_of_call {p : Point} {x : TaskId} (hx : p.task = some x) {testCounter : Word} :
    ∀ c ∈ p.calls testCounter, c.1.Entitled x := by
  cases p with
  | bCheckin loops =>
    simp only [Point.calls]
    split <;> simp [Call.Entitled]
  | cStart =>
    obtain rfl := Option.some.inj hx
    simp only [Point.calls]
    split
    · decide
    · split <;> simp [Call.Entitled]
  | bRecv loops =>
    obtain rfl := Option.some.inj hx
    simp only [Point.calls, List.mem_singleton, forall_eq]
    decide
  | bYield loops => simp [Point.calls, Call.Entitled]
  | idle => cases hx
  | _ =>
    obtain rfl := Option.some.inj hx
    simp only [Point.calls]
    decide

section Served
variable {k : Kernel} {h : Hart} {t : Trap}

theorem granted_eq_entitled (hv : (view k).BootShape) (capIdx : Word) (right : Capability → Option Byte) :
    granted k h capIdx right = .ok (entitled ((view k).running h) capIdx right) := by
  obtain ⟨tcb, htcb⟩ := Option.isSome_iff_exists.mp (view_state_isSome k _ ▸ hv.running h)
  have hrun : (k.scheds h).taskTable (k.current h) = some tcb := htcb
  have hstatic : bootStatic ((view k).running h) = some (static tcb) := by
    rw [← hv.static]
    simp only [view, View.running, hrun, Option.map_some]
  unfold granted entitled
  rw [hstatic, Option.bind_some]
  by_cases hc : capIdx.toNat < 8
  · simp only [dif_pos hc, hrun]
    rfl
  · simp only [dif_neg hc]

theorem findTask_eq_registered (hv : (view k).BootShape) (prio : Word) :
    findTask k prio = registered prio := by
  have hslot : ∀ x : TaskId, ((k.scheds x.1).taskTable x.2).isSome = (bootStatic x).isSome := fun x => by
    rw [← hv.isSome, view_state_isSome]
  unfold findTask registered
  simp only [hslot (0, _), hslot (1, _)]

theorem grantedMutex_of_entitled (hv : (view k).BootShape) {m : KernelMutex} (hm : k.mutexes 0 = some m)
    {capIdx : Word} {right : Capability → Option Byte}
    (hcap : entitled ((view k).running h) capIdx right = some 0) :
    grantedMutex k h capIdx right = .ok (some (0, m)) := by
  have hzero : k.mutexes ⟨(0 : Byte).toNat, by decide⟩ = some m := hm
  unfold grantedMutex
  rw [granted_eq_entitled hv, hcap]
  simp only [hzero]
  rfl

theorem ipcEffect_of_entitled {α : Type} (hv : (view k).BootShape) {capIdx : Word}
    {right : Capability → Option Byte} {e : Byte}
    (hcap : entitled ((view k).running h) capIdx right = some e) (want : Byte → TaskState → Option α)
    (st : Byte → TaskState) : (∃ y st' a, ipcEffect k h capIdx right want st = .transfer y ∧
      (view k).state y = some st' ∧ want e st' = some a) ∨
      ipcEffect k h capIdx right want st = .block (st e) := by
  unfold ipcEffect
  rw [granted_eq_entitled hv, hcap]
  dsimp only
  split
  · rename_i ph pi a hf
    obtain ⟨st', hst', hwant⟩ := findPartner_state hf
    exact Or.inl ⟨(ph, pi), st', a, rfl, hst', hwant⟩
  · exact Or.inr rfl

/-- A call its task has the right to is not refused. -/
theorem serves_of_made (hv : (view k).BootShape) (hpresent : (k.mutexes 0).isSome)
    (hecall : t.mcause = ECALL_UMODE) {c : Call} (hmade : c.Made t k)
    (hent : c.Entitled ((view k).running h)) : Serves (view k) ((view k).running h) c (effect k h t) := by
  have hid := hmade.1
  have harg : ∀ a, c.arg = some a → k.readFrame t.userSp 6 = a := fun _ => hmade.a0
  obtain ⟨m, hm⟩ := Option.isSome_iff_exists.mp hpresent
  rw [effect_of_ecall hecall, ecallEffect]
  cases c with
  | yieldNow =>
    simp only [hid, Call.id]
    exact .yieldNow
  | sleepTicks ticks =>
    simp only [hid, Call.id]
    exact .sleepTicks ticks _
  | lockMutex idx =>
    simp only [hid, Call.id, harg idx rfl, lockEffect, grantedMutex_of_entitled hv hm hent]
    split
    · exact .grant idx
    · exact .wait idx
  | unlockMutex idx =>
    simp only [hid, Call.id, harg idx rfl, unlockEffect, grantedMutex_of_entitled hv hm hent]
    exact .unlock idx
  | watchdogCheckin =>
    simp only [hid, Call.id]
    exact .checkin
  | sysSend capIdx =>
    obtain ⟨e, he⟩ := Option.isSome_iff_exists.mp hent
    simp only [hid, Call.id, harg capIdx rfl]
    rcases ipcEffect_of_entitled hv he waitingReceiver (fun e => .blockedOnIpcSend e _ _) with
      ⟨y, st, a, hy, hst, hwant⟩ | hwait
    · rw [hy]
      rw [waitingReceiver_eq_some.mp hwant] at hst
      exact .sends he hst
    · rw [hwait]
      exact .sendWaits _ _ he
  | sysRecv capIdx =>
    obtain ⟨e, he⟩ := Option.isSome_iff_exists.mp hent
    simp only [hid, Call.id, harg capIdx rfl]
    rcases ipcEffect_of_entitled hv he waitingSender (fun e => .blockedOnIpcRecv e _ _) with
      ⟨y, st, a, hy, hst, hwant⟩ | hwait
    · rw [hy]
      rw [waitingSender_eq_some.mp hwant] at hst
      exact .receives he hst
    · rw [hwait]
      exact .recvWaits _ _ he
  | sysTerminateTask prio =>
    obtain ⟨y, hy⟩ := Option.isSome_iff_exists.mp hent
    simp only [hid, Call.id, harg prio rfl, findTask_eq_registered hv, hy]
    exact .terminate hy

end Served
end Cerberus.Tasks
