import Cerberus.Watchdog.Soundness

/-! # Sleeping for a number of ticks

Syscall 2 stores `TICK_COUNT + ticks`, and the timer interrupt of the sleeper's hart compares it with
the tick that its own `fetch_add` returned. Both are 32 bits wide and compared as they stand, while the
counter wraps around. Beside the state runs a count of the increments since the call. -/
namespace Cerberus.Watchdog
open Kernel Scheduler Sync Memory Transition
set_option autoImplicit false

/-! ## The sleep -/

/-- A call of `sleep_ticks`: who, at which `TICK_COUNT`, for how long. -/
structure SleepCall where
  task : TaskId
  tick : Word
  ticks : Word
  deriving DecidableEq

def SleepCall.wakeTick (c : SleepCall) : Word := c.tick + c.ticks

/-- The call that a trap on hart `h` makes. -/
def sleepCall (h : Hart) (t : Trap) (k : Kernel) : SleepCall :=
  ⟨(h, k.current h), k.tickCount, k.readFrame t.userSp 6⟩

/-- The trap is syscall 2. -/
def CallsSleep (t : Trap) (k : Kernel) : Prop :=
  t.mcause = ECALL_UMODE ∧ (k.readFrame t.userSp 13).toNat = 2

/-- `ticks` increments of `TICK_COUNT` since the call; `own` of them up to the `fetch_add` of the timer
interrupt that the sleeper's hart is in; and whether such an interrupt, with as many increments as the
call asked for, has been handled. -/
structure Sleeper where
  mon : Monitor
  ticks : ℕ
  own : Option ℕ
  due : Bool

namespace Sleeper
variable (c : SleepCall) (s : Sleeper)

def after (w : Monitor) : WatchEvent → Sleeper
  | .tick h =>
    ⟨w, s.ticks + 1, if h = c.task.1 then some (s.ticks + 1) else s.own, s.due⟩
  | .timer h _ _ =>
    if h = c.task.1 then ⟨w, s.ticks, none, s.due || s.own.any fun a => decide (c.ticks.toNat ≤ a)⟩
    else { s with mon := w }
  | _ => { s with mon := w }

def state (x : TaskId) : Option TaskState := (view s.mon.sys.kernel).state x

/-- The sleeper is asleep until the interrupt it waits for, and then `Ready` or already running. -/
def Exact : Prop :=
  if s.due then Runnable (s.state c.task) else s.state c.task = some (.blocked c.wakeTick)

end Sleeper

def Sleeper.next (P : Platform) (c : SleepCall) (s : Sleeper) (ev : WatchEvent) : Option Sleeper :=
  (s.mon.next P ev).map fun w => s.after c w ev

def SleepStep (P : Platform) (c : SleepCall) (s : Sleeper) (ev : WatchEvent) (s' : Sleeper) : Prop :=
  s.next P c ev = some s'

/-- `TICK_COUNT` does not wrap around between the tick after `a` increments and the wake tick, or has
come round to the wake tick again. -/
def SleepCall.InStep (c : SleepCall) (a : ℕ) : Prop :=
  (c.tick.toNat + a) / 2 ^ 32 = (c.tick.toNat + c.ticks.toNat) / 2 ^ 32 ∨
    (c.ticks.toNat ≤ a ∧ (c.tick.toNat + c.ticks.toNat) % 2 ^ 32 ≤ (c.tick.toNat + a) % 2 ^ 32)

/-- A timer interrupt of the sleeper's hart, while it sleeps, comes in step with the wake tick. -/
def SleepCall.Fits (c : SleepCall) (s : Sleeper) : WatchEvent → Prop
  | .timer h _ _ => h = c.task.1 → s.due = false → ∀ a ∈ s.own, c.InStep a
  | _ => True

/-! ## Events that leave a task alone -/

/-- The effect neither blocks nor terminates `x` and hands it no mutex. -/
def SparesTask (h : Hart) (v : View) (x : TaskId) : Effect → Prop
  | .block _ | .wait _ => x ≠ v.running h
  | .release i => (Effect.release i).heir v ≠ some x
  | .kill y => x ≠ y ∧ ∀ i, ¬ v.Heir y.2 i x
  | .tick _ => x.1 ≠ h
  | _ => True

/-- The event of the system that an event of the monitor is, if any. -/
def Monitor.event (w : Monitor) : WatchEvent → Option Event
  | .trap h t m => some (.trap h t m)
  | .nestedTrap h t m t' m' => some (.nestedTrap h t m t' m')
  | .lock => some .watchdogLock
  | .terminate sp cycles m =>
    match w.stage with
    | .checking _ [] (some failedTask) => some (terminateCall sp cycles (failedPrio failedTask) m)
    | _ => none
  | .restartTaskC => some .watchdogRestartTaskC
  | .restartHsm => some .watchdogRestartHsm
  | .unlock => some .watchdogUnlock
  | _ => none

/-- Only the timer scan of the sleeper's hart may change its state from asleep or awake. -/
def SleepCall.Undisturbed (c : SleepCall) (s : Sleeper) (ev : WatchEvent) : Prop :=
  ∀ e h eff, s.mon.event ev = some e → e.effect s.mon.sys.kernel = some (h, eff) →
    SparesTask h (view s.mon.sys.kernel) c.task eff

section Effects
variable {h : Hart} {v v' : View} {x : TaskId} {e : Effect} {b : Word}

/-- Asleep with the wake tick `b`, or awake. -/
def AsleepOrAwake (b : Word) (st : Option TaskState) : Prop := st = some (.blocked b) ∨ Runnable st

theorem state_apply_of_spares (hvalid : e.Valid h v) (hx : AsleepOrAwake b (v.state x))
    (hs : SparesTask h v x e) : (e.apply h v).state x = v.state x := by
  cases e with
  | none => rfl
  | resched => rfl
  | tick now => exact if_neg hs
  | block st =>
    rw [Effect.apply, View.state_setState]
    exact if_neg hs
  | grant i =>
    unfold Effect.apply
    dsimp only
    split <;> rfl
  | wait i =>
    unfold Effect.apply
    dsimp only
    split
    · rfl
    · rw [View.setMutex_state, View.state_setState]
      exact if_neg hs
  | release i =>
    obtain ⟨m, hm⟩ := hvalid.1
    rw [Effect.apply]
    rcases View.release_cases hm with ⟨-, hr⟩ | ⟨w, hw, hr⟩
    · rw [hr]
      rfl
    · have hne : x ≠ waiterTask w := by
        rintro rfl
        exact hs (by simp [Effect.heir, hm, hw])
      rw [hr, View.state_setState, if_neg hne]
      rfl
  | transfer y =>
    obtain ⟨st, hst, hwaits⟩ := hvalid
    have hne : x ≠ y := by
      rintro rfl
      rw [hst] at hx
      rcases hx with hb | hr | hr
      · obtain rfl := Option.some.inj hb
        exact hwaits
      · obtain rfl := Option.some.inj hr
        exact hwaits
      · obtain rfl := Option.some.inj hr
        exact hwaits
    rw [Effect.apply, View.state_setState, if_neg hne]
  | kill y =>
    have hsame : ((v.setState y .terminated).recoverAll y.2).state x = (v.setState y .terminated).state x :=
      View.state_recoverAll_of_not_heir hs.2
    rw [Effect.apply, hsame, View.state_setState, if_neg hs.1]

theorem runnable_of_resched {isTick : Bool} (hr : View.Resched h isTick v v')
    (hx : Runnable (v.state x)) : Runnable (v'.state x) := by
  rcases hr with ⟨rfl, -⟩ | ⟨n, -, rfl⟩
  · exact hx
  · rw [View.state_swap]
    split
    · obtain ⟨st, hst⟩ : ∃ st, v.state x = some st := by
        rcases hx with hx | hx <;> exact ⟨_, hx⟩
      rw [hst]
      exact Or.inl rfl
    · split
      · exact Or.inr rfl
      · exact hx

/-- A context switch wakes nobody and puts nobody to sleep. -/
theorem asleep_of_resched {isTick : Bool} (hr : View.Resched h isTick v v') :
    (v.state x = some (.blocked b) → v'.state x = some (.blocked b)) ∧
      (Runnable (v.state x) → Runnable (v'.state x)) :=
  ⟨(hr.state_iff (by simp) (by simp)).mpr, runnable_of_resched hr⟩

end Effects

section Steps
variable {P : Platform} {x : TaskId} {b : Word}

/-- A step of the system that spares `x` leaves it asleep or awake. -/
theorem asleep_of_step {s s' : System} {e : Event} (hs : SysInv s) (hstep : Step P s e s')
    (hspares : ∀ h eff, e.effect s.kernel = some (h, eff) → SparesTask h (view s.kernel) x eff) :
    ((view s.kernel).state x = some (.blocked b) → (view s'.kernel).state x = some (.blocked b)) ∧
      (Runnable ((view s.kernel).state x) → Runnable ((view s'.kernel).state x)) := by
  have hkept : ∀ {v' : View}, v'.state x = (view s.kernel).state x →
      ((view s.kernel).state x = some (.blocked b) → v'.state x = some (.blocked b)) ∧
        (Runnable ((view s.kernel).state x) → Runnable (v'.state x)) := by
    intro v' hsame
    rw [hsame]
    exact ⟨id, id⟩
  obtain ⟨hcases, -⟩ := step_cases hs hstep
  generalize view s'.kernel = v' at hcases
  cases hcases with
  | @effect h eff hev heff =>
    have happly : AsleepOrAwake b ((view s.kernel).state x) →
        (eff.apply h (view s.kernel)).state x = (view s.kernel).state x := fun hx =>
      state_apply_of_spares heff.valid hx (hspares h eff hev)
    have hswitch : ∀ {u : View}, (u = eff.apply h (view s.kernel) ∨
        ∃ isTick, View.Resched h isTick (eff.apply h (view s.kernel)) u) →
        ((eff.apply h (view s.kernel)).state x = some (.blocked b) → u.state x = some (.blocked b)) ∧
          (Runnable ((eff.apply h (view s.kernel)).state x) → Runnable (u.state x)) := by
      rintro u (rfl | ⟨isTick, hr⟩)
      · exact ⟨id, id⟩
      · exact asleep_of_resched hr
    have hleads := hswitch (heff.leads.cases.imp_right fun ⟨isTick, _, hr⟩ => ⟨isTick, hr⟩)
    refine ⟨fun hx => hleads.1 ?_, fun hx => hleads.2 ?_⟩
    · rw [happly (Or.inl hx)]
      exact hx
    · rw [happly (Or.inr hx)]
      exact hx
  | @restart y hev hnow hterm hv =>
    subst hv
    by_cases hxy : x = y
    · subst hxy
      rw [hterm]
      refine ⟨fun hx => (by cases hx), ?_⟩
      rintro (hx | hx) <;> cases hx
    · refine hkept ?_
      rw [View.state_setState, if_neg hxy]
  | skip hev hnow hv =>
    subst hv
    exact ⟨id, id⟩

variable {w w' : Monitor} {ev : WatchEvent}

theorem act_cases (hact : w.act P ev = some w') : w'.pending = w.pending ∧
    w'.hist.now = w.hist.now ∧ (w'.sys = w.sys ∨ ∃ e, w.event ev = some e ∧ Step P w.sys e w'.sys) := by
  have hrestart : ∀ hist : History, ∀ y, (hist.restart y).now = hist.now := by
    intro hist y
    cases y <;> rfl
  unfold Monitor.act at hact
  unfold Monitor.event
  cases ev with
  | load =>
    dsimp only at hact
    split at hact
    · obtain rfl := Option.some.inj hact
      exact ⟨rfl, rfl, Or.inl rfl⟩
    · cases hact
  | lock =>
    dsimp only at hact
    split at hact
    · obtain ⟨s, hs, rfl⟩ := Option.map_eq_some_iff.mp hact
      exact ⟨rfl, rfl, Or.inr ⟨_, rfl, hs⟩⟩
    · cases hact
  | read =>
    dsimp only at hact
    split at hact
    · obtain rfl := Option.some.inj hact
      exact ⟨rfl, rfl, Or.inl rfl⟩
    · cases hact
  | terminate sp cycles m =>
    dsimp only at hact ⊢
    split at hact
    · obtain rfl := Option.some.inj hact
      exact ⟨rfl, rfl, Or.inl rfl⟩
    · rename_i hstage
      obtain ⟨s, hs, rfl⟩ := Option.map_eq_some_iff.mp hact
      exact ⟨rfl, rfl, Or.inr ⟨_, by rw [hstage], hs⟩⟩
    · cases hact
  | restartTaskC =>
    dsimp only at hact
    split at hact
    · obtain ⟨s, hs, rfl⟩ := Option.map_eq_some_iff.mp hact
      exact ⟨rfl, hrestart _ _, Or.inr ⟨_, rfl, hs⟩⟩
    · cases hact
  | restartHsm =>
    dsimp only at hact
    split at hact
    · obtain ⟨s, hs, rfl⟩ := Option.map_eq_some_iff.mp hact
      exact ⟨rfl, hrestart _ _, Or.inr ⟨_, rfl, hs⟩⟩
    · cases hact
  | unlock =>
    dsimp only at hact
    split at hact
    · obtain ⟨s, hs, rfl⟩ := Option.map_eq_some_iff.mp hact
      exact ⟨rfl, rfl, Or.inr ⟨_, rfl, hs⟩⟩
    · cases hact
  | _ => cases hact

/-- No increment of `TICK_COUNT`, and no timer scan. -/
def OffClock : WatchEvent → Prop
  | .tick _ | .timer _ _ _ => False
  | _ => True

theorem after_of_offClock (hoff : OffClock ev) (c : SleepCall) (s : Sleeper) :
    s.after c w' ev = { s with mon := w' } := by
  cases ev with
  | tick h => exact absurd hoff id
  | timer h t m => exact absurd hoff id
  | _ => rfl

theorem fits_of_offClock (hoff : OffClock ev) (c : SleepCall) (s : Sleeper) : c.Fits s ev := by
  cases ev with
  | timer h t m => exact absurd hoff id
  | _ => trivial

/-- An event is an increment, the rest of a timer interrupt, or leaves the clock alone. -/
inductive WatchCase (P : Platform) (w : Monitor) : WatchEvent → Monitor → Prop where
  | tick (h : Hart) : WatchCase P w (.tick h) (w.fetchAdd h)
  | timer {h : Hart} {t : Trap} {m : Memory} {tick sp : Word} {k : Kernel}
      (hpending : w.pending h = some tick)
      (hok : timerBody P h t tick (w.sys.kernel.setMem m) = .ok (sp, k)) :
      WatchCase P w (.timer h t m) { w.setKernel k with pending := Function.update w.pending h none }
  | other {ev : WatchEvent} {w' : Monitor} (hoff : OffClock ev)
      (hpending : w'.pending = w.pending) (hnow : w'.hist.now = w.hist.now)
      (hsys : w'.sys = w.sys ∨ ∃ e, w.event ev = some e ∧ Step P w.sys e w'.sys) :
      WatchCase P w ev w'

theorem record_now (hist : History) (h : Hart) (t : Trap) (k : Kernel) :
    (hist.record h t k).now = hist.now := by
  unfold History.record
  split <;> rfl

theorem watchStep_cases (hstep : WatchStep P w ev w') : WatchCase P w ev w' := by
  have hact : (if w.pending 0 = none ∧ watchdogRuns w.sys.kernel then w.act P ev else none) =
      some w' → OffClock ev → WatchCase P w ev w' := by
    intro hif hoff
    split at hif
    · obtain ⟨hpending, hnow, hsys⟩ := act_cases hif
      exact .other hoff hpending hnow hsys
    · cases hif
  unfold WatchStep Monitor.next at hstep
  cases ev with
  | tick h =>
    dsimp only at hstep
    split at hstep
    · obtain rfl := Option.some.inj hstep
      exact .tick h
    · cases hstep
  | timer h t m =>
    dsimp only at hstep
    split at hstep
    · cases hstep
    · rename_i hpending
      split at hstep
      · rename_i hok
        obtain rfl := Option.some.inj hstep
        exact .timer hpending hok
      · cases hstep
  | trap h t m =>
    dsimp only at hstep
    split at hstep
    · obtain ⟨s, hs, rfl⟩ := Option.map_eq_some_iff.mp hstep
      exact .other trivial rfl (record_now _ _ _ _) (Or.inr ⟨_, rfl, hs⟩)
    · cases hstep
  | nestedTrap h t m t' m' =>
    dsimp only at hstep
    split at hstep
    · obtain ⟨s, hs, rfl⟩ := Option.map_eq_some_iff.mp hstep
      exact .other trivial rfl (record_now _ _ _ _) (Or.inr ⟨_, rfl, hs⟩)
    · cases hstep
  | _ => exact hact hstep trivial

end Steps

/-! ## The count and the clock -/

/-- The count of increments tells `TICK_COUNT` and the tick of the interrupt in progress; `t` is the
tick of the call. -/
structure Counted (c : SleepCall) (t : ℕ) (s : Sleeper) : Prop where
  clocks : Clocks s.mon
  now : s.mon.hist.now = t + s.ticks
  own : s.mon.pending c.task.1 = s.own.map fun a => BitVec.ofNat 32 (t + a)

/-- The sleeper wakes at the interrupt if its tick is not below the wake tick. -/
theorem wakeTick_le_iff {c : SleepCall} {t : ℕ} (ht : c.tick = BitVec.ofNat 32 t) (a : ℕ) :
    c.wakeTick ≤ BitVec.ofNat 32 (t + a) ↔
      (c.tick.toNat + c.ticks.toNat) % 2 ^ 32 ≤ (c.tick.toNat + a) % 2 ^ 32 := by
  have htick : c.tick.toNat = t % 2 ^ 32 := by
    rw [ht, BitVec.toNat_ofNat]
  rw [BitVec.le_def, SleepCall.wakeTick, BitVec.toNat_add, BitVec.toNat_ofNat, htick]
  omega

/-- The 32-bit comparison is right exactly in step. -/
theorem inStep_iff (c : SleepCall) (a : ℕ) :
    ((c.tick.toNat + c.ticks.toNat) % 2 ^ 32 ≤ (c.tick.toNat + a) % 2 ^ 32 ↔ c.ticks.toNat ≤ a) ↔
      c.InStep a := by
  have htick := c.tick.isLt
  have hticks := c.ticks.isLt
  unfold SleepCall.InStep
  omega

section Run
variable {P : Platform} {c : SleepCall} {t : ℕ} {s s' : Sleeper} {ev : WatchEvent}

theorem Counted.step (hs : Counted c t s) (hstep : SleepStep P c s ev s') : Counted c t s' := by
  obtain ⟨w, hw, rfl⟩ := Option.map_eq_some_iff.mp hstep
  have hclocks := hs.clocks.step hw
  cases watchStep_cases (P := P) hw with
  | tick h =>
    refine ⟨hclocks, ?_, ?_⟩
    · show s.mon.hist.now + 1 = t + (s.ticks + 1)
      rw [hs.now]
      rfl
    · show Function.update s.mon.pending h (some (s.mon.sys.kernel.tickCount + 1#32)) c.task.1 =
        Option.map (fun a => BitVec.ofNat 32 (t + a))
          (if h = c.task.1 then some (s.ticks + 1) else s.own)
      by_cases hh : h = c.task.1
      · rw [if_pos hh, hh, Function.update_self, hs.clocks.now, hs.now, Option.map_some, ← Nat.add_assoc,
          BitVec.ofNat_add (t + s.ticks)]
      · rw [if_neg hh, Function.update_of_ne (Ne.symm hh), hs.own]
  | @timer h tr m tick sp k hpending hok =>
    unfold Sleeper.after
    dsimp only
    split
    · rename_i hh
      refine ⟨hclocks, hs.now, ?_⟩
      show Function.update s.mon.pending h none c.task.1 = none
      rw [hh, Function.update_self]
    · rename_i hh
      refine ⟨hclocks, hs.now, ?_⟩
      show Function.update s.mon.pending h none c.task.1 = _
      rw [Function.update_of_ne (Ne.symm hh), hs.own]
  | other hoff hpending hnow hsys =>
    rw [after_of_offClock hoff]
    exact ⟨hclocks, hnow.trans hs.now, (congrFun hpending _).trans hs.own⟩

/-- The scan of a timer interrupt wakes a sleeper of its hart whose wake tick is not above the tick. -/
theorem state_of_scan {y : System} (hy : SysInv y) {x : TaskId} {tr : Trap} {m : Memory}
    {tick sp b : Word} {k : Kernel}
    (hok : timerBody P x.1 tr tick (y.kernel.setMem m) = .ok (sp, k)) :
    ((view y.kernel).state x = some (.blocked b) → (b ≤ tick → Runnable ((view k).state x)) ∧
      (¬ b ≤ tick → (view k).state x = some (.blocked b))) ∧
    (Runnable ((view y.kernel).state x) → Runnable ((view k).state x)) := by
  have hkept := asleep_of_resched (x := x) (b := b) (timerBody_leads hy hok)
  have hwake : ((view y.kernel).wake x.1 tick).state x =
      ((view y.kernel).state x).map (wakeState tick) := if_pos rfl
  rw [hwake] at hkept
  refine ⟨fun hx => ⟨fun hle => hkept.2 ?_, fun hlt => hkept.1 ?_⟩, fun hx => hkept.2 ?_⟩
  · rw [hx, Option.map_some, wakeState, if_pos hle]
    exact Or.inr rfl
  · rw [hx, Option.map_some, wakeState, if_neg hlt]
  · rcases hx with hx | hx <;> rw [hx]
    · exact Or.inl rfl
    · exact Or.inr rfl

theorem not_runnable_of_blocked {st : Option TaskState} {b : Word} (hst : st = some (.blocked b)) :
    ¬ Runnable st := by
  rw [hst]
  rintro (hr | hr) <;> cases hr

theorem exact_of_kept {w : Monitor} (he : s.Exact c)
    (hkept : ((view s.mon.sys.kernel).state c.task = some (.blocked c.wakeTick) →
      (view w.sys.kernel).state c.task = some (.blocked c.wakeTick)) ∧
      (Runnable ((view s.mon.sys.kernel).state c.task) → Runnable ((view w.sys.kernel).state c.task))) :
    Sleeper.Exact c { s with mon := w } := by
  unfold Sleeper.Exact at he ⊢
  split
  · rename_i hdue
    rw [if_pos hdue] at he
    exact hkept.2 he
  · rename_i hdue
    rw [if_neg hdue] at he
    exact hkept.1 he

/-- The sleeper's own timer interrupt after `a` increments. -/
theorem exact_of_scan (hs : Counted c t s) (ht : c.tick = BitVec.ofNat 32 t) (he : s.Exact c)
    {tr : Trap} {m : Memory} {sp : Word} {w : Monitor} {a : ℕ} (ha : s.own = some a)
    (hok : timerBody P c.task.1 tr (BitVec.ofNat 32 (t + a)) (s.mon.sys.kernel.setMem m) =
      .ok (sp, w.sys.kernel)) :
    (s.after c w (.timer c.task.1 tr m)).Exact c ↔ (s.due = false → c.InStep a) := by
  have hafter : s.after c w (.timer c.task.1 tr m) =
      ⟨w, s.ticks, none, s.due || decide (c.ticks.toNat ≤ a)⟩ := by
    unfold Sleeper.after
    dsimp only
    rw [if_pos rfl, ha]
    rfl
  obtain ⟨hscan, hawake⟩ := state_of_scan (b := c.wakeTick) hs.clocks.inv hok
  rw [hafter]
  cases hdue : s.due with
  | true =>
    unfold Sleeper.Exact at he
    rw [hdue, if_pos rfl] at he
    exact iff_of_true (hawake he) fun hno => by cases hno
  | false =>
    unfold Sleeper.Exact at he
    rw [hdue, if_neg (by simp)] at he
    obtain ⟨hwoken, hasleep⟩ := hscan he
    have hexact : Sleeper.Exact c ⟨w, s.ticks, none, false || decide (c.ticks.toNat ≤ a)⟩ ↔
        (c.wakeTick ≤ BitVec.ofNat 32 (t + a) ↔ c.ticks.toNat ≤ a) := by
      unfold Sleeper.Exact Sleeper.state
      by_cases hn : c.ticks.toNat ≤ a
      · rw [decide_eq_true hn, Bool.false_or, if_pos rfl]
        refine ⟨fun hr => iff_of_true ?_ hn, fun hiff => hwoken (hiff.mpr hn)⟩
        by_contra hlt
        exact not_runnable_of_blocked (hasleep hlt) hr
      · rw [decide_eq_false hn, Bool.false_or, if_neg (by simp)]
        refine ⟨fun hb => iff_of_false ?_ hn, fun hiff => hasleep fun hle => hn (hiff.mp hle)⟩
        exact fun hle => not_runnable_of_blocked hb (hwoken hle)
    rw [hexact, wakeTick_le_iff ht, inStep_iff]
    exact ⟨fun hin _ => hin, fun hin => hin rfl⟩

/-- One step: the sleep stays exact if and only if the interrupt comes in step. -/
theorem exact_step_iff (hs : Counted c t s) (ht : c.tick = BitVec.ofNat 32 t) (he : s.Exact c)
    (hstep : SleepStep P c s ev s') (hu : c.Undisturbed s ev) : s'.Exact c ↔ c.Fits s ev := by
  obtain ⟨w, hw, rfl⟩ := Option.map_eq_some_iff.mp hstep
  cases watchStep_cases (P := P) hw with
  | tick h => exact iff_of_true he trivial
  | @timer h tr m tick sp k hpending hok =>
    by_cases hh : h = c.task.1
    · subst hh
      have hown := hs.own
      rw [hpending] at hown
      obtain ⟨a, ha, htick⟩ := Option.map_eq_some_iff.mp hown.symm
      rw [← htick] at hok
      rw [exact_of_scan hs ht he ha hok]
      refine ⟨fun hin _ hdue a' ha' => ?_, fun hfits hdue => hfits rfl hdue a ha⟩
      obtain rfl := Option.some.inj (ha.symm.trans ha')
      exact hin hdue
    · refine iff_of_true ?_ fun hno => absurd hno hh
      have hresched := timerBody_leads hs.clocks.inv hok
      have hsame : ((view s.mon.sys.kernel).wake h tick).state c.task =
          (view s.mon.sys.kernel).state c.task := if_neg (Ne.symm hh)
      have hkept := asleep_of_resched (x := c.task) (b := c.wakeTick) hresched
      rw [hsame] at hkept
      unfold Sleeper.after
      dsimp only
      rw [if_neg hh]
      exact exact_of_kept he hkept
  | other hoff hpending hnow hsys =>
    refine iff_of_true ?_ (fits_of_offClock hoff c s)
    rw [after_of_offClock hoff]
    refine exact_of_kept he ?_
    rcases hsys with hsame | ⟨e, hev, hstep⟩
    · rw [hsame]
      exact ⟨id, id⟩
    · exact asleep_of_step hs.clocks.inv hstep fun h eff heff => hu e h eff hev heff

/-- The call leaves the caller asleep, and the count at 0. -/
theorem exact_of_call {h : Hart} {tr : Trap} {m : Memory} {w0 w1 : Monitor} (hw : Clocks w0)
    (hcall : CallsSleep tr (w0.sys.kernel.setMem m)) (hstep : WatchStep P w0 (.trap h tr m) w1) :
    Counted (sleepCall h tr (w0.sys.kernel.setMem m)) w0.hist.now ⟨w1, 0, none, false⟩ ∧
      Sleeper.Exact (sleepCall h tr (w0.sys.kernel.setMem m)) ⟨w1, 0, none, false⟩ := by
  have hclocks := hw.step hstep
  unfold WatchStep Monitor.next at hstep
  dsimp only at hstep
  split at hstep
  · rename_i hguard
    obtain ⟨s, hs, rfl⟩ := Option.map_eq_some_iff.mp hstep
    refine ⟨⟨hclocks, record_now _ _ _ _, hguard.1⟩, ?_⟩
    have heff : Event.effect w0.sys.kernel (.trap h tr m) = some (h, .block (.blocked
        (w0.sys.kernel.tickCount + (w0.sys.kernel.setMem m).readFrame tr.userSp 6))) := by
      unfold Event.effect
      dsimp only
      rw [effect_of_ecall hcall.1, ecallEffect]
      simp only [hcall.2]
      rfl
    have hcases := (step_cases hw.inv hs).1
    show (view s.kernel).state (h, w0.sys.kernel.current h) = some (.blocked
      (w0.sys.kernel.tickCount + (w0.sys.kernel.setMem m).readFrame tr.userSp 6))
    cases hcases with
    | @effect h' eff hev hstep =>
      obtain ⟨hh, heff'⟩ := Prod.mk.inj (Option.some.inj (hev.symm.trans heff))
      rw [hh, heff'] at hstep
      have hresched : View.Resched h false _ (view s.kernel) := hstep.leads
      refine (hresched.state_iff (by simp) (by simp)).mpr ?_
      obtain ⟨st, hst⟩ := Option.isSome_iff_exists.mp (hw.inv.shape.running h)
      have hself : (h, w0.sys.kernel.current h) = (view w0.sys.kernel).running h := rfl
      rw [hself, Effect.apply, View.state_setState, if_pos rfl, hst]
      rfl
    | restart hev _ _ _ => cases hev
    | skip hev _ _ =>
      rw [heff] at hev
      cases hev
  · cases hstep

end Run

/-- For every state, every duration and every interleaving of events that leave the sleeper alone: as
long as the timer interrupts of its hart come in step with the wake tick, it sleeps until the first one
with as many increments as it asked for, and is awake from then on; and the first interrupt that does
not come in step cuts the sleep short or loses it. -/
theorem sleep_exact_iff (P : Platform) (w0 w1 : Monitor) (h : Hart) (tr : Trap) (m : Memory)
    (c : SleepCall) (es : List WatchEvent) (s : Sleeper) (hw : Clocks w0)
    (hcall : CallsSleep tr (w0.sys.kernel.setMem m))
    (hc : c = sleepCall h tr (w0.sys.kernel.setMem m)) (hstep : WatchStep P w0 (.trap h tr m) w1)
    (hrun : Run (Guarded (SleepStep P c) fun s ev => c.Undisturbed s ev ∧ c.Fits s ev)
      ⟨w1, 0, none, false⟩ es s) :
    s.Exact c ∧ ∀ ev s', SleepStep P c s ev s' → c.Undisturbed s ev →
      (s'.Exact c ↔ c.Fits s ev) := by
  have ht : c.tick = BitVec.ofNat 32 w0.hist.now := by
    rw [hc]
    exact hw.now
  have hbegin : Counted c w0.hist.now ⟨w1, 0, none, false⟩ ∧ Sleeper.Exact c ⟨w1, 0, none, false⟩ := by
    rw [hc]
    exact exact_of_call hw hcall hstep
  have hinv : Counted c w0.hist.now s ∧ s.Exact c := by
    refine hrun.invariant (I := fun u => Counted c w0.hist.now u ∧ u.Exact c) ?_ hbegin
    rintro u ev u' ⟨hcount, hexact⟩ ⟨hstep', hund, hfits⟩
    exact ⟨hcount.step hstep', (exact_step_iff hcount ht hexact hstep' hund).mpr hfits⟩
  exact ⟨hinv.2, fun ev s' hstep' hund => exact_step_iff hinv.1 ht hinv.2 hstep' hund⟩

/-- One timer interrupt on core 0. -/
def oneTick : List WatchEvent := [.tick 0, .timer 0 timerTrap fun _ => 0]

/-- The Watchdog sleeps for `n` ticks. -/
def sleepFrame (n : Word) : Memory := syscallFrame 0x3FC82400 2 n 0 0

def sleepTrap : Trap := ⟨ECALL_UMODE, 0x3FC82400, 0⟩

theorem undisturbed_of_none {c : SleepCall} {s : Sleeper} {ev : WatchEvent}
    (hnone : s.mon.event ev = none) : c.Undisturbed s ev := by
  intro e h eff he
  rw [hnone] at he
  cases he

instance (t : Trap) (k : Kernel) : Decidable (CallsSleep t k) := inferInstanceAs (Decidable (_ ∧ _))

/-- The Watchdog sleeps for one tick and is awake after the next timer interrupt. -/
theorem sleep_exact_iff_one :
    ∃ w0 w1 s, Run (WatchStep packedPlatform) bootMonitor oneTick w0 ∧
      WatchStep packedPlatform w0 (.trap 0 sleepTrap (sleepFrame 1)) w1 ∧
      Run (SleepStep packedPlatform ⟨watchdog, 1, 1⟩) ⟨w1, 0, none, false⟩ oneTick s ∧
      s.due = true ∧ Runnable (s.state watchdog) := by
  have heval : ((oneTick.foldlM (Monitor.next packedPlatform) bootMonitor).bind fun w0 =>
      (w0.next packedPlatform (.trap 0 sleepTrap (sleepFrame 1))).bind fun w1 =>
      (Sleeper.next packedPlatform ⟨watchdog, 1, 1⟩ ⟨w1, 0, none, false⟩ (.tick 0)).bind fun s1 =>
      (s1.next packedPlatform ⟨watchdog, 1, 1⟩ (.timer 0 timerTrap fun _ => 0)).map fun s =>
        decide (CallsSleep sleepTrap (w0.sys.kernel.setMem (sleepFrame 1)) ∧
          ⟨watchdog, 1, 1⟩ = sleepCall 0 sleepTrap (w0.sys.kernel.setMem (sleepFrame 1)) ∧
          s1.own = some 1 ∧ s.due = true)) = some true := by
    decide +kernel
  simp only [Option.bind_eq_some_iff, Option.map_eq_some_iff, decide_eq_true_eq] at heval
  obtain ⟨w0, hw0, w1, hw1, s1, hs1, s, hs, hcalls, hcall, hown, hdue⟩ := heval
  have hrun := Run.of_foldlM hw0
  have hfits : SleepCall.Fits ⟨watchdog, 1, 1⟩ s1 (.timer 0 timerTrap fun _ => 0) := by
    intro _ _ a ha
    obtain rfl := Option.some.inj (hown.symm.trans ha)
    exact Or.inl rfl
  have hexact := (sleep_exact_iff packedPlatform w0 w1 0 sleepTrap (sleepFrame 1) ⟨watchdog, 1, 1⟩ oneTick
    s (clocks_run bootMonitor_initial hrun) hcalls hcall hw1
    ⟨s1, ⟨hs1, undisturbed_of_none rfl, trivial⟩, s, ⟨hs, undisturbed_of_none rfl, hfits⟩, rfl⟩).1
  unfold Sleeper.Exact at hexact
  rw [hdue, if_pos rfl] at hexact
  exact ⟨w0, w1, s, hrun, hw1, ⟨s1, hs1, s, hs, rfl⟩, hdue, hexact⟩

/-- The Watchdog sleeps for `2 ^ 32 - 1` ticks at tick 1: the wake tick is 0, and it is woken after
one tick. -/
theorem long_sleep_cut_short :
    (∃ w0 w1 s, Run (WatchStep packedPlatform) bootMonitor oneTick w0 ∧
      WatchStep packedPlatform w0 (.trap 0 sleepTrap (sleepFrame 0xFFFFFFFF)) w1 ∧
      Run (SleepStep packedPlatform ⟨watchdog, 1, 0xFFFFFFFF⟩) ⟨w1, 0, none, false⟩ oneTick s ∧
      s.ticks = 1 ∧ s.state watchdog = some .ready) ∧
    ¬ ∀ P w0 w1 h tr m (c : SleepCall) es s, Clocks w0 → CallsSleep tr (w0.sys.kernel.setMem m) →
      c = sleepCall h tr (w0.sys.kernel.setMem m) → WatchStep P w0 (.trap h tr m) w1 →
      Run (Guarded (SleepStep P c) c.Undisturbed) ⟨w1, 0, none, false⟩ es s → s.Exact c := by
  have heval : ((oneTick.foldlM (Monitor.next packedPlatform) bootMonitor).bind fun w0 =>
      (w0.next packedPlatform (.trap 0 sleepTrap (sleepFrame 0xFFFFFFFF))).bind fun w1 =>
      (Sleeper.next packedPlatform ⟨watchdog, 1, 0xFFFFFFFF⟩ ⟨w1, 0, none, false⟩ (.tick 0)).bind fun s1 =>
      (s1.next packedPlatform ⟨watchdog, 1, 0xFFFFFFFF⟩ (.timer 0 timerTrap fun _ => 0)).map fun s =>
        decide (CallsSleep sleepTrap (w0.sys.kernel.setMem (sleepFrame 0xFFFFFFFF)) ∧
          ⟨watchdog, 1, 0xFFFFFFFF⟩ = sleepCall 0 sleepTrap (w0.sys.kernel.setMem (sleepFrame 0xFFFFFFFF)) ∧
          s.ticks = 1 ∧ s.due = false ∧ s.state watchdog = some .ready)) = some true := by
    decide +kernel
  simp only [Option.bind_eq_some_iff, Option.map_eq_some_iff, decide_eq_true_eq] at heval
  obtain ⟨w0, hw0, w1, hw1, s1, hs1, s, hs, hcalls, hcall, hticks, hdue, hready⟩ := heval
  have hrun := Run.of_foldlM hw0
  refine ⟨⟨w0, w1, s, hrun, hw1, ⟨s1, hs1, s, hs, rfl⟩, hticks, hready⟩, fun hall => ?_⟩
  have hexact := hall packedPlatform w0 w1 0 sleepTrap (sleepFrame 0xFFFFFFFF) ⟨watchdog, 1, 0xFFFFFFFF⟩
    oneTick s (clocks_run bootMonitor_initial hrun) hcalls hcall hw1
    ⟨s1, ⟨hs1, undisturbed_of_none rfl⟩, s, ⟨hs, undisturbed_of_none rfl⟩, rfl⟩
  unfold Sleeper.Exact at hexact
  rw [hdue, if_neg (by simp)] at hexact
  have hblocked : s.state watchdog = _ := hexact
  rw [hready] at hblocked
  cases hblocked

end Cerberus.Watchdog
