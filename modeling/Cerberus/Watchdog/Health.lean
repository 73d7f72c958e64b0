import Cerberus.Kernel.Footprint

/-! # The Watchdog's pass, step by step

`watchdog_task` loads `TICK_COUNT`, takes `SCHED_LOCK`, reads the four check-in entries, terminates
the task it found last, and restarts Task C and HSM Task. Traps on either core come between any two
of these steps; a timer interrupt counts its tick before it waits for the lock. Beside the state runs
a history in unbounded ticks: when each task was started and when it checked in. -/
namespace Cerberus.Watchdog
open Kernel Scheduler Sync Memory Transition
set_option autoImplicit false

/-! ## The health check -/

/-- `elapsed > timeout` for one entry of `LAST_CHECKIN_TICK`; 0 stands for "not checked in yet". -/
def checkFailed (currentTick lastCheckin : Word) : Bool :=
  let elapsed := if lastCheckin = 0#32 then currentTick else currentTick - lastCheckin
  let timeout := if lastCheckin = 0#32 then 1000#32 else 200#32
  decide (timeout < elapsed)

def taskB : TaskId := (1, 2)

/-- Task A, Task B, Task C and HSM Task, in the order of the checks. -/
def monitored : List TaskId := [taskA, taskB, taskC, hsmTask]

/-- The check of one task; `failed` is `failed_task`, or `none` while `check_failed` is false. -/
def inspectTask (k : Kernel) (currentTick : Word) (failed : Option String) (x : TaskId) :
    Option String :=
  match (k.scheds x.1).taskTable x.2 with
  | some tcb =>
    if tcb.state ≠ .terminated ∧ checkFailed currentTick (k.lastCheckin x.2) = true then some tcb.name
    else failed
  | none => failed

def failedPrio (failedTask : String) : Word :=
  if failedTask = "Task A" then 1#32 else if failedTask = "Task B" then 2#32
  else if failedTask = "HSM Task" then 4#32 else 3#32

/-- `sys_terminate_task`: the trap finds 8 in `a7` and the priority in `a0`. -/
def terminateCall (sp cycles prio : Word) (m : Memory) : Event :=
  .trap 0 ⟨ECALL_UMODE, sp, cycles⟩ ((m.writeWord (slot sp 13) 8#32).writeWord (slot sp 6) prio)

/-- The timer interrupt after `fetch_add` returned `tick - 1`. -/
def timerBody (P : Platform) (h : Hart) (t : Trap) (tick : Word) (k : Kernel) : Outcome :=
  withSchedLock h k fun k =>
    .ok (switchTask P h t.cycles true t.userSp (k.setSched h (wakeSleepers tick (k.scheds h))))

theorem timerInterrupt_eq (P : Platform) (h : Hart) (t : Trap) (k : Kernel) :
    timerInterrupt P h t k =
      timerBody P h t (k.tickCount + 1#32) { k with tickCount := k.tickCount + 1#32 } := rfl

/-! ## The system with its history -/

/-- Where the Watchdog is in its loop. -/
inductive Stage where
  | asleep
  | sampled (currentTick : Word)
  | checking (currentTick : Word) (rest : List TaskId) (failed : Option String)
  | restartTaskC
  | restartHsm
  | unlock

/-- The sampled tick, from the load to the end of the checks. -/
def Stage.currentTick : Stage → Option Word
  | .sampled currentTick => some currentTick
  | .checking currentTick _ _ => some currentTick
  | _ => none

/-- Ticks counted since boot; for each task the tick of its last start or restart, of its last
check-in since then, and of its last check-in at all; and the tick of the Watchdog's last sample. -/
structure History where
  now : ℕ
  started : TaskId → ℕ
  checkin : TaskId → Option ℕ
  lastCheckin : TaskId → Option ℕ
  sample : ℕ

/-- `pending h` is the tick of a timer interrupt on `h` that has not taken `SCHED_LOCK` yet. -/
structure Monitor where
  sys : System
  pending : Hart → Option Word
  stage : Stage
  hist : History

inductive WatchEvent where
  | tick (h : Hart)
  | timer (h : Hart) (t : Trap) (m : Memory)
  | trap (h : Hart) (t : Trap) (m : Memory)
  | nestedTrap (h : Hart) (t : Trap) (m : Memory) (t' : Trap) (m' : Memory)
  | load
  | lock
  | read
  | terminate (sp cycles : Word) (m : Memory)
  | restartTaskC
  | restartHsm
  | unlock

/-- A check-in, if the trap is syscall 5. -/
def History.record (hist : History) (h : Hart) (t : Trap) (k : Kernel) : History :=
  if t.mcause = ECALL_UMODE ∧ (k.readFrame t.userSp 13).toNat = 5 then
    { hist with
      checkin := Function.update hist.checkin (h, k.current h) (some hist.now)
      lastCheckin := Function.update hist.lastCheckin (h, k.current h) (some hist.now) }
  else hist

def History.restart (hist : History) : Option TaskId → History
  | some x =>
    { hist with
      started := Function.update hist.started x hist.now
      checkin := Function.update hist.checkin x none }
  | none => hist

namespace Monitor
variable (P : Platform) (w : Monitor)

/-- The Watchdog's own steps. -/
def act : WatchEvent → Option Monitor
  | .load =>
    match w.stage with
    | .asleep => some { w with
        stage := .sampled w.sys.kernel.tickCount
        hist := { w.hist with sample := w.hist.now } }
    | _ => none
  | .lock =>
    match w.stage with
    | .sampled currentTick => (w.sys.next P .watchdogLock).map fun s =>
        { w with sys := s, stage := .checking currentTick monitored none }
    | _ => none
  | .read =>
    match w.stage with
    | .checking currentTick (x :: rest) failed => some { w with
        stage := .checking currentTick rest (inspectTask w.sys.kernel currentTick failed x) }
    | _ => none
  | .terminate sp cycles m =>
    match w.stage with
    | .checking _ [] none => some { w with stage := .restartTaskC }
    | .checking _ [] (some failedTask) =>
      (w.sys.next P (terminateCall sp cycles (failedPrio failedTask) m)).map fun s =>
        { w with sys := s, stage := .restartTaskC }
    | _ => none
  | .restartTaskC =>
    match w.stage with
    | .restartTaskC => (w.sys.next P .watchdogRestartTaskC).map fun s =>
        { w with
          sys := s
          stage := .restartHsm
          hist := w.hist.restart (Event.restartsNow w.sys.kernel .watchdogRestartTaskC) }
    | _ => none
  | .restartHsm =>
    match w.stage with
    | .restartHsm => (w.sys.next P .watchdogRestartHsm).map fun s =>
        { w with
          sys := s
          stage := .unlock
          hist := w.hist.restart (Event.restartsNow w.sys.kernel .watchdogRestartHsm) }
    | _ => none
  | .unlock =>
    match w.stage with
    | .unlock => (w.sys.next P .watchdogUnlock).map fun s => { w with sys := s, stage := .asleep }
    | _ => none
  | _ => none

def setKernel (k : Kernel) : Monitor := { w with sys := { w.sys with kernel := k } }

/-- `TICK_COUNT.fetch_add(1) + 1`, kept for the rest of the interrupt. -/
def fetchAdd (h : Hart) : Monitor :=
  let tick := w.sys.kernel.tickCount + 1#32
  { w.setKernel { w.sys.kernel with tickCount := tick } with
    pending := Function.update w.pending h (some tick)
    hist := { w.hist with now := w.hist.now + 1 } }

def next : WatchEvent → Option Monitor
  | .tick h => if w.pending h = none then some (w.fetchAdd h) else none
  | .timer h t m =>
    match w.pending h with
    | none => none
    | some tick =>
      match timerBody P h t tick (w.sys.kernel.setMem m) with
      | .ok (_, k) => some { w.setKernel k with pending := Function.update w.pending h none }
      | .error _ => none
  | .trap h t m =>
    if w.pending h = none ∧ t.mcause ≠ TIMER_INTERRUPT then
      (w.sys.next P (.trap h t m)).map fun s =>
        { w with sys := s, hist := w.hist.record h t (w.sys.kernel.setMem m) }
    else none
  | .nestedTrap h t m t' m' =>
    if w.pending h = none ∧ t.mcause ≠ TIMER_INTERRUPT then
      (w.sys.next P (.nestedTrap h t m t' m')).map fun s =>
        { w with sys := s, hist := w.hist.record h t (w.sys.kernel.setMem m) }
    else none
  | ev => if w.pending 0 = none ∧ watchdogRuns w.sys.kernel then w.act P ev else none

end Monitor

def WatchStep (P : Platform) (w : Monitor) (ev : WatchEvent) (w' : Monitor) : Prop :=
  w.next P ev = some w'

def bootHistory : History where
  now := 0
  started := fun _ => 0
  checkin := fun _ => none
  lastCheckin := fun _ => none
  sample := 0

/-- After boot the Watchdog has not begun a pass, and every task counts as started at tick 0. -/
def WatchInitial (P : Platform) (w : Monitor) : Prop :=
  Initial P w.sys ∧ w.pending = (fun _ => none) ∧ w.stage = .asleep ∧ w.hist = bootHistory

/-- The concrete platform after boot. -/
def bootMonitor : Monitor := ⟨bootSystem, fun _ => none, .asleep, bootHistory⟩

theorem bootMonitor_initial : WatchInitial packedPlatform bootMonitor :=
  ⟨bootSystem_initial, rfl, rfl, rfl⟩

/-! ## The clocks of a step -/

/-- `TICK_COUNT` and `LAST_CHECKIN_TICK` after an event. -/
def clocksAfter (k : Kernel) : Event → Word × (Fin MAX_PARTITIONS → Word)
  | .trap h t m => ((clocked (k.setMem m) h t).tickCount, (clocked (k.setMem m) h t).lastCheckin)
  | .nestedTrap h t m _ _ =>
    ((clocked (k.setMem m) h t).tickCount, (clocked (k.setMem m) h t).lastCheckin)
  | ev =>
    (k.tickCount, match ev.restartsNow k with
      | some x => Function.update k.lastCheckin x.2 0#32
      | none => k.lastCheckin)

theorem clocked_of_fault {k : Kernel} {h : Hart} {t : Trap}
    (hcause : t.mcause = 5#32 ∨ t.mcause = 7#32) : clocked k h t = k := by
  refine clocked_of_ne ?_ fun h5 => ?_
  · rcases hcause with hc | hc <;> rw [hc] <;> decide
  · rw [h5.1] at hcause
    exact absurd hcause (by decide)

theorem clocks_of_step {P : Platform} {s s' : System} {ev : Event} (hs : SysInv s)
    (hstep : Step P s ev s') :
    (s'.kernel.tickCount, s'.kernel.lastCheckin) = clocksAfter s.kernel ev := by
  have hcases := stepKernel_of_step hstep
  generalize s'.kernel = k' at hcases
  cases hcases with
  | @trap h t m sp k' hok =>
    have hkeeps := (hs.trap_leaves hok).1
    exact Prod.ext hkeeps.tickCount hkeeps.lastCheckin
  | @nested h t t' m m' kf k' sp hf hok =>
    obtain ⟨hsound, hcause, -, -⟩ := hs.nested hf m'
    have hfault := trap_leaves (P := P) (h := h) (t := t) (hs.sound m)
    rw [hf] at hfault
    have hkill := trap_leaves (P := P) (h := h) (t := t') hsound
    rw [hok, clocked_of_fault hcause] at hkill
    exact Prod.ext (hkill.1.tickCount.trans hfault.tickCount)
      (hkill.1.lastCheckin.trans hfault.lastCheckin)
  | lock hruns => rfl
  | restartTaskC hruns =>
    unfold Kernel.restartTaskC clocksAfter Event.restartsNow
    split
    · rfl
    · rfl
  | restartHsm hruns =>
    unfold Kernel.restartHsm clocksAfter Event.restartsNow
    split
    · rfl
    · rfl
  | unlock hruns => rfl

theorem switchTask_tickCount (P : Platform) (h : Hart) (cycles : Word) (isTick : Bool) (sp a : Word)
    (k : Kernel) :
    switchTask P h cycles isTick sp { k with tickCount := a } =
      ((switchTask P h cycles isTick sp k).1,
        { (switchTask P h cycles isTick sp k).2 with tickCount := a }) := by
  unfold switchTask
  dsimp only
  split
  · rfl
  · split
    · rfl
    · rfl

/-- The body of the timer interrupt passes `TICK_COUNT` through. -/
theorem timerBody_tickCount {P : Platform} {h : Hart} {t : Trap} {tick sp : Word} {k k' : Kernel}
    (hok : timerBody P h t tick k = .ok (sp, k')) (a : Word) :
    timerBody P h t tick { k with tickCount := a } = .ok (sp, { k' with tickCount := a }) := by
  unfold timerBody withSchedLock at hok ⊢
  dsimp only at hok ⊢
  cases hl : k.schedLock.lock h with
  | none =>
    rw [hl] at hok
    cases hok
  | some l =>
    rw [hl] at hok
    dsimp only at hok ⊢
    have hswitch := switchTask_tickCount P h t.cycles true t.userSp a
      (({ k with schedLock := l } : Kernel).setSched h (wakeSleepers tick (k.scheds h)))
    generalize switchTask P h t.cycles true t.userSp
      (({ k with schedLock := l } : Kernel).setSched h (wakeSleepers tick (k.scheds h))) = r
      at hok hswitch
    obtain ⟨hsp, hk'⟩ := Prod.mk.inj (Except.ok.inj hok)
    have hk2 := congrArg (fun o : Word × Kernel => (Except.ok (o.1,
      { o.2 with schedLock := o.2.schedLock.unlock }) : Outcome)) hswitch
    refine hk2.trans ?_
    rw [← hsp, ← hk']

theorem SysInv.setTickCount {s : System} (hs : SysInv s) (a : Word) :
    SysInv { s with kernel := { s.kernel with tickCount := a } } :=
  ⟨hs.shape, hs.mutexLock, hs.pmp⟩

/-- The body of a timer interrupt is the whole interrupt from one tick before. -/
theorem timerBody_step {P : Platform} {s : System} {h : Hart} {t : Trap} {tick sp : Word} {m : Memory}
    {k' : Kernel} (hok : timerBody P h t tick (s.kernel.setMem m) = .ok (sp, k')) :
    Step P { s with kernel := { s.kernel with tickCount := tick - 1#32 } }
      (.trap h ⟨TIMER_INTERRUPT, t.userSp, t.cycles⟩ m)
      { s with kernel := { k' with tickCount := tick } } := by
  have htick : tick - 1#32 + 1#32 = tick := BitVec.sub_add_cancel tick 1#32
  have hbody := timerBody_tickCount hok tick
  show (afterTrap P h ⟨TIMER_INTERRUPT, t.userSp, t.cycles⟩
    { s.kernel with tickCount := tick - 1#32, mem := m }).map _ = _
  unfold afterTrap trapHandler
  rw [if_pos rfl, timerInterrupt_eq]
  dsimp only
  rw [htick]
  have hbody' : timerBody P h ⟨TIMER_INTERRUPT, t.userSp, t.cycles⟩ tick
      { s.kernel with tickCount := tick, mem := m } = .ok (sp, { k' with tickCount := tick }) := hbody
  rw [hbody']
  rfl

theorem timerBody_ok {P : Platform} {s : System} (hs : SysInv s) {h : Hart} {t : Trap}
    {tick sp : Word} {m : Memory} {k' : Kernel}
    (hok : timerBody P h t tick (s.kernel.setMem m) = .ok (sp, k')) :
    SysInv { s with kernel := k' } ∧ k'.tickCount = s.kernel.tickCount ∧
      k'.lastCheckin = s.kernel.lastCheckin := by
  have hstep := timerBody_step hok
  have hinv := sysInv_step _ _ _ (SysInv.setTickCount hs (tick - 1#32)) hstep
  have hclocks := clocks_of_step (SysInv.setTickCount hs (tick - 1#32)) hstep
  have hback := timerBody_tickCount hok (s.kernel.tickCount)
  have hk' : k' = { k' with tickCount := s.kernel.tickCount } :=
    (Prod.mk.inj (Except.ok.inj (hok.symm.trans hback))).2
  have htick := congrArg Kernel.tickCount hk'
  have hcheck := congrArg Prod.snd hclocks
  rw [clocksAfter, clocked, if_pos rfl] at hcheck
  exact ⟨⟨hinv.shape, hinv.mutexLock, hinv.pmp⟩, htick, hcheck⟩

/-- The body of a timer interrupt wakes the sleepers of its hart and reschedules. -/
theorem timerBody_leads {P : Platform} {s : System} (hs : SysInv s) {h : Hart} {t : Trap}
    {tick sp : Word} {m : Memory} {k' : Kernel}
    (hok : timerBody P h t tick (s.kernel.setMem m) = .ok (sp, k')) :
    View.Resched h true ((view s.kernel).wake h tick) (view k') := by
  have hcases := (step_cases (SysInv.setTickCount hs (tick - 1#32)) (timerBody_step hok)).1
  have htick : Event.effect { s.kernel with tickCount := tick - 1#32 }
      (.trap h ⟨TIMER_INTERRUPT, t.userSp, t.cycles⟩ m) = some (h, .tick tick) := by
    show some (h, Effect.tick (tick - 1#32 + 1#32)) = _
    rw [BitVec.sub_add_cancel]
  cases hcases with
  | effect hev hstep =>
    obtain ⟨rfl, rfl⟩ := Prod.mk.inj (Option.some.inj (hev.symm.trans htick))
    exact hstep.leads
  | restart hev _ _ _ => cases hev
  | skip hev _ _ =>
    rw [htick] at hev
    cases hev

/-! ## The history tells the entries -/

/-- What `LAST_CHECKIN_TICK` holds for a task. -/
def entry : Option ℕ → Word
  | some c => BitVec.ofNat 32 c
  | none => 0#32

/-- The clocks of the kernel are those of the history modulo `2 ^ 32`. -/
structure Clocks (w : Monitor) : Prop where
  inv : SysInv w.sys
  now : w.sys.kernel.tickCount = BitVec.ofNat 32 w.hist.now
  entries : ∀ x ∈ monitored, w.sys.kernel.lastCheckin x.2 = entry (w.hist.checkin x)
  started : ∀ x, w.hist.started x ≤ w.hist.now
  checkins : ∀ x c, w.hist.checkin x = some c →
    w.hist.started x ≤ c ∧ c ≤ w.hist.now ∧ w.hist.lastCheckin x = some c
  sample : ∀ currentTick, w.stage.currentTick = some currentTick →
    currentTick = BitVec.ofNat 32 w.hist.sample ∧ w.hist.sample ≤ w.hist.now

/-- A monitored slot is used on one core only. -/
theorem eq_of_slot {x y : TaskId} (hx : x ∈ monitored) (hy : (bootStatic y).isSome)
    (hslot : y.2 = x.2) : y = x := by
  obtain ⟨h, i⟩ := y
  revert h i x
  decide +kernel

theorem registered_of_monitored {y : TaskId} (hy : y ∈ monitored) : (bootStatic y).isSome := by
  revert y
  decide +kernel

section Steps
variable {P : Platform} {w w' : Monitor} {s : System}

theorem Clocks.record (hw : Clocks w) {h : Hart} {t : Trap} {m : Memory} (hinv : SysInv s)
    (htimer : t.mcause ≠ TIMER_INTERRUPT)
    (hclocks : (s.kernel.tickCount, s.kernel.lastCheckin) =
      ((clocked (w.sys.kernel.setMem m) h t).tickCount,
        (clocked (w.sys.kernel.setMem m) h t).lastCheckin)) :
    Clocks { w with sys := s, hist := w.hist.record h t (w.sys.kernel.setMem m) } := by
  obtain ⟨htick, hcheck⟩ := Prod.mk.inj hclocks
  unfold History.record
  by_cases h5 : t.mcause = ECALL_UMODE ∧
      ((w.sys.kernel.setMem m).readFrame t.userSp 13).toNat = 5
  · rw [clocked, if_neg htimer, if_pos h5] at htick hcheck
    rw [if_pos h5]
    refine ⟨hinv, htick.trans hw.now, fun x hx => ?_, hw.started, fun x c hc => ?_, hw.sample⟩
    · have hreg : (bootStatic (h, (w.sys.kernel.setMem m).current h)).isSome := by
        rw [← hw.inv.shape.isSome]
        exact hw.inv.shape.running h
      show s.kernel.lastCheckin x.2 = _
      rw [hcheck]
      dsimp only
      by_cases hslot : x.2 = (w.sys.kernel.setMem m).current h
      · rw [eq_of_slot hx hreg hslot.symm, Function.update_self, ← hslot, Function.update_self]
        exact hw.now
      · have hne : x ≠ (h, (w.sys.kernel.setMem m).current h) := fun he => hslot (he ▸ rfl)
        rw [Function.update_of_ne hne, Function.update_of_ne hslot]
        exact hw.entries x hx
    · dsimp only at hc ⊢
      by_cases hx : x = (h, (w.sys.kernel.setMem m).current h)
      · rw [hx, Function.update_self] at hc ⊢
        obtain rfl := Option.some.inj hc
        exact ⟨hw.started _, le_rfl, rfl⟩
      · rw [Function.update_of_ne hx] at hc ⊢
        exact hw.checkins x c hc
  · rw [clocked_of_ne htimer h5] at htick hcheck
    rw [if_neg h5]
    refine ⟨hinv, htick.trans hw.now, fun x hx => ?_, hw.started, hw.checkins, hw.sample⟩
    show s.kernel.lastCheckin x.2 = _
    rw [hcheck]
    exact hw.entries x hx

theorem Clocks.restart (hw : Clocks w) {ev : Event} (hev : ev.restarts.isSome)
    (hstep : Step P w.sys ev s) :
    Clocks { w with sys := s, hist := w.hist.restart (ev.restartsNow w.sys.kernel) } := by
  have hinv := sysInv_step _ _ _ hw.inv hstep
  have hclocks := clocks_of_step hw.inv hstep
  have hafter : clocksAfter w.sys.kernel ev = (w.sys.kernel.tickCount,
      match ev.restartsNow w.sys.kernel with
      | some x => Function.update w.sys.kernel.lastCheckin x.2 0#32
      | none => w.sys.kernel.lastCheckin) := by
    cases ev with
    | watchdogRestartTaskC => rfl
    | watchdogRestartHsm => rfl
    | _ => cases hev
  have hmonitored : ∀ y, ev.restartsNow w.sys.kernel = some y → y ∈ monitored := by
    intro y hy
    rcases (restartsNow_cases hy).1 with ⟨-, rfl⟩ | ⟨-, rfl⟩
    · decide
    · decide
  rw [hafter] at hclocks
  obtain ⟨htick, hcheck⟩ := Prod.mk.inj hclocks
  generalize ev.restartsNow w.sys.kernel = r at hcheck hmonitored
  cases r with
  | none =>
    refine ⟨hinv, htick.trans hw.now, fun x hx => ?_, hw.started, hw.checkins, hw.sample⟩
    show s.kernel.lastCheckin x.2 = _
    rw [hcheck]
    exact hw.entries x hx
  | some y =>
    dsimp only at hcheck
    refine ⟨hinv, htick.trans hw.now, fun x hx => ?_, fun x => ?_, fun x c hc => ?_, hw.sample⟩
    · show s.kernel.lastCheckin x.2 = entry (Function.update w.hist.checkin y none x)
      rw [hcheck]
      by_cases hxy : x = y
      · rw [hxy, Function.update_self, Function.update_self]
        rfl
      · have hslot : x.2 ≠ y.2 := fun hs => hxy
          (eq_of_slot (hmonitored y rfl) (registered_of_monitored hx) hs)
        rw [Function.update_of_ne hxy, Function.update_of_ne hslot]
        exact hw.entries x hx
    · show Function.update w.hist.started y w.hist.now x ≤ w.hist.now
      by_cases hxy : x = y
      · rw [hxy, Function.update_self]
      · rw [Function.update_of_ne hxy]
        exact hw.started x
    · have hxy : x ≠ y := by
        rintro rfl
        have hnone : Function.update w.hist.checkin x none x = some c := hc
        rw [Function.update_self] at hnone
        cases hnone
      have hc' : Function.update w.hist.checkin y none x = some c := hc
      rw [Function.update_of_ne hxy] at hc'
      show Function.update w.hist.started y w.hist.now x ≤ c ∧ _
      rw [Function.update_of_ne hxy]
      exact hw.checkins x c hc'

/-- A step of the system that touches no clock. -/
theorem Clocks.of_step (hw : Clocks w) {ev : Event} (hstep : Step P w.sys ev s)
    (hclocks : clocksAfter w.sys.kernel ev = (w.sys.kernel.tickCount, w.sys.kernel.lastCheckin))
    {stage : Stage} (hstage : ∀ currentTick, stage.currentTick = some currentTick →
      w.stage.currentTick = some currentTick) : Clocks { w with sys := s, stage := stage } := by
  have hsame := clocks_of_step hw.inv hstep
  rw [hclocks] at hsame
  obtain ⟨htick, hcheck⟩ := Prod.mk.inj hsame
  refine ⟨sysInv_step _ _ _ hw.inv hstep, htick.trans hw.now, fun x hx => ?_, hw.started,
    hw.checkins, fun currentTick hcur => hw.sample currentTick (hstage currentTick hcur)⟩
  show s.kernel.lastCheckin x.2 = _
  rw [hcheck]
  exact hw.entries x hx

theorem readFrame_terminateCall (k : Kernel) (sp prio : Word) (m : Memory) :
    ((k.setMem ((m.writeWord (slot sp 13) 8#32).writeWord (slot sp 6) prio)).readFrame
      sp 13).toNat = 8 := by
  show (Memory.readWord ((m.writeWord (slot sp 13) 8#32).writeWord (slot sp 6) prio)
    (slot sp 13)).toNat = 8
  rw [readWord_slot_writeWord_slot _ _ _ (by omega) (by omega) (by omega), readWord_writeWord_self]
  rfl

/-- `sys_terminate_task` is no timer interrupt and no check-in. -/
theorem clocksAfter_terminateCall (k : Kernel) (sp cycles prio : Word) (m : Memory) :
    clocksAfter k (terminateCall sp cycles prio m) = (k.tickCount, k.lastCheckin) := by
  have hid := readFrame_terminateCall k sp prio m
  unfold terminateCall clocksAfter
  dsimp only
  rw [clocked_of_ne (show ECALL_UMODE ≠ TIMER_INTERRUPT by decide) fun h5 => by
    rw [hid] at h5
    exact absurd h5.2 (by omega)]
  rfl

theorem Clocks.act (hw : Clocks w) {ev : WatchEvent} (hact : w.act P ev = some w') : Clocks w' := by
  obtain ⟨sys, pending, stage, hist⟩ := w
  unfold Monitor.act at hact
  dsimp only at hact
  cases ev with
  | load =>
    dsimp only at hact
    split at hact
    · obtain rfl := Option.some.inj hact
      refine ⟨hw.inv, hw.now, hw.entries, hw.started, hw.checkins, fun currentTick hcur => ?_⟩
      obtain rfl := Option.some.inj hcur
      exact ⟨hw.now, le_rfl⟩
    · cases hact
  | lock =>
    dsimp only at hact
    split at hact
    · obtain ⟨s, hs, rfl⟩ := Option.map_eq_some_iff.mp hact
      exact hw.of_step hs rfl fun currentTick hcur => hcur
    · cases hact
  | read =>
    dsimp only at hact
    split at hact
    · obtain rfl := Option.some.inj hact
      exact ⟨hw.inv, hw.now, hw.entries, hw.started, hw.checkins, hw.sample⟩
    · cases hact
  | terminate sp cycles m =>
    dsimp only at hact
    split at hact
    · obtain rfl := Option.some.inj hact
      exact ⟨hw.inv, hw.now, hw.entries, hw.started, hw.checkins, fun _ hcur => by cases hcur⟩
    · obtain ⟨s, hs, rfl⟩ := Option.map_eq_some_iff.mp hact
      exact hw.of_step hs (clocksAfter_terminateCall ..) fun _ hcur => by cases hcur
    · cases hact
  | restartTaskC =>
    dsimp only at hact
    split at hact
    · obtain ⟨s, hs, rfl⟩ := Option.map_eq_some_iff.mp hact
      have hr := hw.restart rfl hs
      exact ⟨hr.inv, hr.now, hr.entries, hr.started, hr.checkins, fun _ hcur => by cases hcur⟩
    · cases hact
  | restartHsm =>
    dsimp only at hact
    split at hact
    · obtain ⟨s, hs, rfl⟩ := Option.map_eq_some_iff.mp hact
      have hr := hw.restart rfl hs
      exact ⟨hr.inv, hr.now, hr.entries, hr.started, hr.checkins, fun _ hcur => by cases hcur⟩
    · cases hact
  | unlock =>
    dsimp only at hact
    split at hact
    · obtain ⟨s, hs, rfl⟩ := Option.map_eq_some_iff.mp hact
      exact hw.of_step hs rfl fun _ hcur => by cases hcur
    · cases hact
  | _ => cases hact

theorem Clocks.step (hw : Clocks w) {ev : WatchEvent} (hstep : WatchStep P w ev w') : Clocks w' := by
  have hact : (if w.pending 0 = none ∧ watchdogRuns w.sys.kernel then w.act P ev else none) =
      some w' → Clocks w' := by
    intro hif
    split at hif
    · exact hw.act hif
    · cases hif
  unfold WatchStep Monitor.next at hstep
  cases ev with
  | tick h =>
    dsimp only at hstep
    split at hstep
    · obtain rfl := Option.some.inj hstep
      refine ⟨SysInv.setTickCount hw.inv _, ?_, hw.entries, fun x => ?_, fun x c hc => ?_,
        fun currentTick hcur => ?_⟩
      · show w.sys.kernel.tickCount + 1#32 = BitVec.ofNat 32 (w.hist.now + 1)
        rw [hw.now, BitVec.ofNat_add]
      · exact (hw.started x).trans (Nat.le_succ _)
      · obtain ⟨hstarted, hle, hlast⟩ := hw.checkins x c hc
        exact ⟨hstarted, hle.trans (Nat.le_succ _), hlast⟩
      · obtain ⟨hsample, hle⟩ := hw.sample currentTick hcur
        exact ⟨hsample, hle.trans (Nat.le_succ _)⟩
    · cases hstep
  | timer h t m =>
    dsimp only at hstep
    split at hstep
    · cases hstep
    · split at hstep
      · rename_i hok
        obtain rfl := Option.some.inj hstep
        obtain ⟨hinv, htick, hcheck⟩ := timerBody_ok hw.inv hok
        refine ⟨hinv, htick.trans hw.now, fun x hx => ?_, hw.started, hw.checkins, hw.sample⟩
        exact (congrFun hcheck x.2).trans (hw.entries x hx)
      · cases hstep
  | trap h t m =>
    dsimp only at hstep
    split at hstep
    · rename_i hguard
      obtain ⟨s, hs, rfl⟩ := Option.map_eq_some_iff.mp hstep
      exact hw.record (sysInv_step _ _ _ hw.inv hs) hguard.2 (clocks_of_step hw.inv hs)
    · cases hstep
  | nestedTrap h t m t' m' =>
    dsimp only at hstep
    split at hstep
    · rename_i hguard
      obtain ⟨s, hs, rfl⟩ := Option.map_eq_some_iff.mp hstep
      exact hw.record (sysInv_step _ _ _ hw.inv hs) hguard.2 (clocks_of_step hw.inv hs)
    · cases hstep
  | _ => exact hact hstep

theorem clocks_initial (hw : WatchInitial P w) : Clocks w := by
  obtain ⟨hinit, -, hstage, hhist⟩ := hw
  have hinv := sysInv_initial hinit
  obtain ⟨m, r, -, hboot, -⟩ := hinit
  have hclock : w.sys.kernel.tickCount = 0#32 ∧ w.sys.kernel.lastCheckin = fun _ => 0#32 := by
    unfold boot at hboot
    split at hboot
    · rw [← Option.some.inj hboot]
      exact ⟨rfl, rfl⟩
    · cases hboot
  refine ⟨hinv, ?_, fun x _ => ?_, fun x => ?_, fun x c hc => ?_, fun currentTick hcur => ?_⟩
  · rw [hclock.1, hhist]
    rfl
  · rw [hclock.2, hhist]
    rfl
  · rw [hhist]
    exact le_rfl
  · rw [hhist] at hc
    cases hc
  · rw [hstage] at hcur
    cases hcur

theorem clocks_run {es : List WatchEvent} (hw : WatchInitial P w) (hrun : Run (WatchStep P) w es w') :
    Clocks w' :=
  hrun.invariant (fun _ _ _ hu hstep => hu.step hstep) (clocks_initial hw)

end Steps

/-! ## Ticks without a switch -/

/-- The budget after a tick on which the current task stays. -/
def spend (duration r : ℕ) : ℕ := if r = 1 then duration else r - 1

theorem schedule_of_stay {s : BitMapScheduler} (hrun : s.currentRunnable = true)
    (hr : s.remainingMifTicks ≠ 0) (hstay : s.remainingMifTicks ≠ 1 ∨ s.selectNext = none) :
    s.schedule true = ({ s with
      remainingMifTicks := spend (s.partitionDurations s.currentPartitionIdx) s.remainingMifTicks },
      none) := by
  have hspend : s.spendTick true = { s with remainingMifTicks := s.remainingMifTicks - 1 } := by
    unfold BitMapScheduler.spendTick
    rw [if_pos (by simpa using Nat.pos_of_ne_zero hr)]
  unfold BitMapScheduler.schedule
  dsimp only
  rw [BitMapScheduler.selectNext_spendTick, BitMapScheduler.currentRunnable_spendTick, hrun, hspend]
  by_cases h1 : s.remainingMifTicks = 1
  · rw [hstay.resolve_left (fun hne => hne h1), h1]
    rfl
  · have hne : s.remainingMifTicks - 1 ≠ 0 := by omega
    rw [if_neg (by simpa using hne), spend, if_neg h1]

/-- The state of a slot stays as it is while the counter is at most `tick`. -/
def StaysAsleep (tick : ℕ) : Option TaskState → Prop
  | some (.blocked wakeTick) => tick < wakeTick.toNat
  | _ => True

instance (tick : ℕ) (st : Option TaskState) : Decidable (StaysAsleep tick st) := by
  unfold StaysAsleep
  split <;> infer_instance

theorem wakeSleepers_eq {s : BitMapScheduler} {tick : ℕ} (htick : tick < 2 ^ 32)
    (hasleep : ∀ i, StaysAsleep tick (s.stateAt i)) : wakeSleepers (BitVec.ofNat 32 tick) s = s := by
  have htable : (wakeSleepers (BitVec.ofNat 32 tick) s).taskTable = s.taskTable := by
    funext i
    show (s.taskTable i).map _ = s.taskTable i
    cases htcb : s.taskTable i with
    | none => rfl
    | some tcb =>
      have hi := hasleep i
      rw [BitMapScheduler.stateAt, htcb] at hi
      have hsame : wakeState (BitVec.ofNat 32 tick) tcb.state = tcb.state := by
        cases hst : tcb.state with
        | blocked w =>
          have hlt : tick < w.toNat := by
            rw [Option.map_some, hst] at hi
            exact hi
          rw [wakeState, if_neg]
          rw [BitVec.le_def, BitVec.toNat_ofNat, Nat.mod_eq_of_lt htick]
          omega
        | _ => rfl
      rw [Option.map_some, hsame]
  show { s with taskTable := (wakeSleepers (BitVec.ofNat 32 tick) s).taskTable } = s
  rw [htable]

namespace Monitor
variable (w : Monitor) (h : Hart)

def duration : ℕ :=
  (w.sys.kernel.scheds h).partitionDurations (w.sys.kernel.scheds h).currentPartitionIdx

/-- The budget of core `h` after `n` ticks on which its current task stays. -/
def budget (n : ℕ) : ℕ := (spend (w.duration h))^[n] (w.sys.kernel.scheds h).remainingMifTicks

/-- The state after `n` ticks on core `h` on which its current task stays. -/
def idle (n : ℕ) : Monitor :=
  { w.setKernel { w.sys.kernel with
      tickCount := w.sys.kernel.tickCount + BitVec.ofNat 32 n
      scheds := Function.update w.sys.kernel.scheds h
        { w.sys.kernel.scheds h with remainingMifTicks := w.budget h n } } with
    hist := { w.hist with now := w.hist.now + n } }

/-- No sleeper wakes and no switch happens in the next `n` ticks on core `h`. -/
structure Steady (n : ℕ) : Prop where
  pending : w.pending h = none
  lock : w.sys.kernel.schedLock = Spinlock.new
  runnable : (w.sys.kernel.scheds h).currentRunnable = true
  duration : 0 < w.duration h
  slice : 0 < w.budget h 0 ∧ (n < w.budget h 0 ∨ (w.sys.kernel.scheds h).selectNext = none)
  counter : w.sys.kernel.tickCount.toNat + n < 2 ^ 32
  asleep : ∀ i, StaysAsleep (w.sys.kernel.tickCount.toNat + n) ((w.sys.kernel.scheds h).stateAt i)

instance (n : ℕ) : Decidable (w.Steady h n) :=
  decidable_of_iff (w.pending h = none ∧ w.sys.kernel.schedLock = Spinlock.new ∧
      (w.sys.kernel.scheds h).currentRunnable = true ∧ 0 < w.duration h ∧
      (0 < w.budget h 0 ∧ (n < w.budget h 0 ∨ (w.sys.kernel.scheds h).selectNext = none)) ∧
      w.sys.kernel.tickCount.toNat + n < 2 ^ 32 ∧
      ∀ i, StaysAsleep (w.sys.kernel.tickCount.toNat + n) ((w.sys.kernel.scheds h).stateAt i))
    ⟨fun ⟨h1, h2, h3, h4, h5, h6, h7⟩ => ⟨h1, h2, h3, h4, h5, h6, h7⟩, fun hs =>
      ⟨hs.pending, hs.lock, hs.runnable, hs.duration, hs.slice, hs.counter, hs.asleep⟩⟩

/-- The events of `n` timer interrupts. -/
def timerEvents (t : Trap) : ℕ → List WatchEvent
  | 0 => []
  | n + 1 => timerEvents t n ++ [.tick h, .timer h t w.sys.kernel.mem]

end Monitor

section Idle
variable {P : Platform} {w : Monitor} {h : Hart} {n : ℕ}

theorem idle_zero : w.idle h 0 = w := by
  show { w.setKernel { w.sys.kernel with
      tickCount := w.sys.kernel.tickCount + 0#32
      scheds := Function.update w.sys.kernel.scheds h (w.sys.kernel.scheds h) } with
    hist := { w.hist with now := w.hist.now + 0 } } = w
  rw [Function.update_eq_self, BitVec.add_zero]
  rfl

theorem timerBody_of_stay {k : Kernel} {t : Trap} (tick : ℕ) (hlock : k.schedLock = Spinlock.new)
    (hrun : (k.scheds h).currentRunnable = true) (hr : (k.scheds h).remainingMifTicks ≠ 0)
    (hstay : (k.scheds h).remainingMifTicks ≠ 1 ∨ (k.scheds h).selectNext = none)
    (htick : tick < 2 ^ 32) (hasleep : ∀ i, StaysAsleep tick ((k.scheds h).stateAt i)) :
    timerBody P h t (BitVec.ofNat 32 tick) k = .ok (t.userSp, { k with
      scheds := Function.update k.scheds h { k.scheds h with
        remainingMifTicks := spend ((k.scheds h).partitionDurations
          (k.scheds h).currentPartitionIdx) (k.scheds h).remainingMifTicks } }) := by
  have hnew : k.schedLock.lock h = some ⟨some h, 1#32⟩ := by
    rw [hlock]
    rfl
  unfold timerBody withSchedLock
  rw [hnew]
  dsimp only
  rw [wakeSleepers_eq htick hasleep]
  unfold switchTask
  have hsched : ((({ k with schedLock := ⟨some h, 1#32⟩ } : Kernel).setSched h
      (k.scheds h)).scheds h) = k.scheds h := Function.update_self ..
  rw [hsched, schedule_of_stay hrun hr hstay]
  have hunlock : Spinlock.unlock ⟨some h, 1#32⟩ = k.schedLock := by
    rw [hlock]
    simp [Spinlock.unlock, Spinlock.new]
  simp only [Kernel.setSched, Function.update_idem]
  rw [hunlock]

theorem StaysAsleep.mono {tick tick' : ℕ} {st : Option TaskState} (hle : tick' ≤ tick)
    (hst : StaysAsleep tick st) : StaysAsleep tick' st := by
  unfold StaysAsleep at hst ⊢
  split at hst
  · omega
  · trivial

theorem budget_succ : w.budget h (n + 1) = spend (w.duration h) (w.budget h n) :=
  Function.iterate_succ_apply' ..

theorem Monitor.Steady.of_succ (hs : w.Steady h (n + 1)) : w.Steady h n := by
  have hcounter := hs.counter
  exact ⟨hs.pending, hs.lock, hs.runnable, hs.duration, hs.slice.imp_right (Or.imp_left (by omega)),
    by omega, fun i => (hs.asleep i).mono (by omega)⟩

/-- The budget is not used up, or is refilled. -/
theorem Monitor.Steady.budget (hs : w.Steady h n) :
    w.budget h n ≠ 0 ∧ (w.budget h n = w.budget h 0 - n ∨ (w.sys.kernel.scheds h).selectNext = none) := by
  induction n with
  | zero => exact ⟨hs.slice.1.ne', Or.inl rfl⟩
  | succ n ih =>
    obtain ⟨hpos, hbudget⟩ := ih hs.of_succ
    have hduration := hs.duration
    rw [budget_succ, spend]
    refine ⟨?_, ?_⟩
    · split
      · omega
      · omega
    · rcases hs.slice.2 with hlt | hnone
      · rcases hbudget with hsub | hnone
        · refine Or.inl ?_
          split
          · omega
          · omega
        · exact Or.inr hnone
      · exact Or.inr hnone

theorem Monitor.Steady.stays (hs : w.Steady h (n + 1)) :
    w.budget h n ≠ 0 ∧ (w.budget h n ≠ 1 ∨ (w.sys.kernel.scheds h).selectNext = none) := by
  obtain ⟨hpos, hbudget⟩ := hs.of_succ.budget
  refine ⟨hpos, ?_⟩
  rcases hbudget with hsub | hnone
  · rcases hs.slice.2 with hlt | hnone
    · exact Or.inl (by omega)
    · exact Or.inr hnone
  · exact Or.inr hnone

/-- Two steps of one timer interrupt. -/
theorem idle_succ (hs : w.Steady h (n + 1)) (t : Trap) :
    Run (WatchStep P) (w.idle h n) [.tick h, .timer h t w.sys.kernel.mem] (w.idle h (n + 1)) := by
  have hcount : w.sys.kernel.tickCount + BitVec.ofNat 32 n + 1#32 =
      BitVec.ofNat 32 (w.sys.kernel.tickCount.toNat + (n + 1)) := by
    rw [BitVec.ofNat_add, BitVec.ofNat_toNat, BitVec.setWidth_eq, BitVec.ofNat_add, BitVec.add_assoc]
  have hnext : spend ((w.sys.kernel.scheds h).partitionDurations
      (w.sys.kernel.scheds h).currentPartitionIdx) (w.budget h n) = w.budget h (n + 1) :=
    budget_succ.symm
  have hsched : (w.idle h n).sys.kernel.scheds h =
      { w.sys.kernel.scheds h with remainingMifTicks := w.budget h n } := Function.update_self ..
  have hbody := timerBody_of_stay (P := P) (h := h) (t := t)
    (k := { (w.idle h n).sys.kernel with
      tickCount := (w.idle h n).sys.kernel.tickCount + 1#32 })
    (w.sys.kernel.tickCount.toNat + (n + 1)) hs.lock
    (by rw [hsched]; exact hs.runnable) (by rw [hsched]; exact hs.stays.1)
    (by rw [hsched]; exact hs.stays.2) hs.counter
    (fun i => by rw [hsched]; exact hs.asleep i)
  rw [hsched] at hbody
  dsimp only at hbody
  rw [hnext] at hbody
  refine ⟨(w.idle h n).fetchAdd h, if_pos hs.pending, w.idle h (n + 1), ?_, rfl⟩
  have hpending : ((w.idle h n).fetchAdd h).pending h =
      some (BitVec.ofNat 32 (w.sys.kernel.tickCount.toNat + (n + 1))) := by
    rw [← hcount]
    exact Function.update_self ..
  have hcleared : Function.update ((w.idle h n).fetchAdd h).pending h none = w.pending := by
    show Function.update (Function.update w.pending h _) h none = w.pending
    rw [Function.update_idem, ← hs.pending, Function.update_eq_self]
  have htick : w.sys.kernel.tickCount + BitVec.ofNat 32 n + 1#32 =
      w.sys.kernel.tickCount + BitVec.ofNat 32 (n + 1) := by
    rw [BitVec.ofNat_add, BitVec.add_assoc]
  have hbody' : timerBody P h t (BitVec.ofNat 32 (w.sys.kernel.tickCount.toNat + (n + 1)))
      (((w.idle h n).fetchAdd h).sys.kernel.setMem w.sys.kernel.mem) =
      .ok (t.userSp, (w.idle h (n + 1)).sys.kernel) := by
    have hscheds : ∀ s, Function.update (w.idle h n).sys.kernel.scheds h s =
        Function.update w.sys.kernel.scheds h s := fun s => Function.update_idem ..
    have hcounter : (w.idle h n).sys.kernel.tickCount + 1#32 =
        w.sys.kernel.tickCount + BitVec.ofNat 32 (n + 1) := htick
    refine hbody.trans ?_
    rw [hscheds, hcounter]
    rfl
  unfold WatchStep Monitor.next
  dsimp only
  rw [hpending]
  dsimp only
  rw [hbody']
  dsimp only
  rw [hcleared]
  rfl

/-- The run through `n` timer interrupts. -/
theorem idle_run (t : Trap) (hs : w.Steady h n) :
    Run (WatchStep P) w (w.timerEvents h t n) (w.idle h n) := by
  induction n with
  | zero => exact idle_zero.symm
  | succ n ih => exact (ih hs.of_succ).append (idle_succ hs t)

end Idle

end Cerberus.Watchdog
