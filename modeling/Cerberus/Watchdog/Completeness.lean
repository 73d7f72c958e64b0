import Cerberus.Containment.Panic
import Cerberus.Watchdog.Sampling

/-! # Which overdue tasks an atomic pass terminates

The four checks share one `failed_task`, so of all the tasks that fail their check a pass terminates
the last one only. A check-in at a multiple of `2 ^ 32` is held against the timeout of a task that has
not checked in yet, and a task that waits for a mutex of its own inherits it and comes back `Ready`. -/
namespace Cerberus.Watchdog
open Kernel Scheduler Sync Memory Transition Containment
set_option autoImplicit false

/-- A task that is not terminated has last checked in, since its start, more than 200 ticks ago. -/
def Overdue (w : Monitor) (x : TaskId) : Prop :=
  Live w.sys.kernel x ∧ ∃ c, w.hist.checkin x = some c ∧ c + 200 < w.hist.now

/-- The pass finds `x` and terminates it: the 32-bit difference shows the timeout, no task checked
after `x` fails its check, and `x` does not wait first in line for a mutex of its own. -/
structure Noticed (w : Monitor) (x : TaskId) : Prop where
  timeout : ∀ c, w.hist.checkin x = some c → timeoutOf c < (w.hist.now - c) % 2 ^ 32
  last : ∀ z ∈ later x, ¬ Flags w.sys.kernel w.sys.kernel.tickCount z
  noHeir : ∀ i, ¬ (view w.sys.kernel).Heir x.2 i x

/-- The Watchdog is about to begin a pass, and can take `SCHED_LOCK`. -/
structure BeginsPass (w : Monitor) : Prop where
  stage : w.stage = .asleep
  pending : w.pending 0 = none
  runs : watchdogRuns w.sys.kernel
  outside : w.sys.inPass = false
  lock : (w.sys.kernel.schedLock.lock 0).isSome

instance (w : Monitor) (x : TaskId) : Decidable (Overdue w x) := by
  unfold Overdue Live
  cases w.hist.checkin x with
  | none => exact isFalse fun ho => by simpa using ho.2
  | some c => exact decidable_of_iff (((view w.sys.kernel).state x ≠ none ∧
      (view w.sys.kernel).state x ≠ some .terminated) ∧ c + 200 < w.hist.now) (by simp)

deriving instance DecidableEq for Stage

instance (w : Monitor) : Decidable (BeginsPass w) :=
  decidable_of_iff (w.stage = .asleep ∧ w.pending 0 = none ∧ watchdogRuns w.sys.kernel ∧
      w.sys.inPass = false ∧ (w.sys.kernel.schedLock.lock 0).isSome)
    ⟨fun ⟨hstage, hpending, hruns, hout, hlock⟩ => ⟨hstage, hpending, hruns, hout, hlock⟩, fun hb =>
      ⟨hb.stage, hb.pending, hb.runs, hb.outside, hb.lock⟩⟩

section Steps
variable {P : Platform} {w w' : Monitor}

theorem act_step {ev : WatchEvent} (hpending : w.pending 0 = none) (hruns : watchdogRuns w.sys.kernel)
    (hnext : w.next P ev =
      if w.pending 0 = none ∧ watchdogRuns w.sys.kernel then w.act P ev else none)
    (hact : w.act P ev = some w') : WatchStep P w ev w' := by
  unfold WatchStep
  rw [hnext, if_pos ⟨hpending, hruns⟩, hact]

theorem lock_owner {l l' : Spinlock} {h : Hart} (hl : l.lock h = some l') : l'.owner = some h := by
  unfold Spinlock.lock at hl
  split at hl
  · rename_i howner
    obtain rfl := Option.some.inj hl
    exact howner
  · split at hl
    · obtain rfl := Option.some.inj hl
      rfl
    · cases hl

/-- The state in which the checks leave the Watchdog. -/
def Monitor.checked (w : Monitor) (l : Spinlock) : Monitor :=
  { w with
    sys := ⟨{ w.sys.kernel with schedLock := l }, true⟩
    stage := .checking w.sys.kernel.tickCount [] (healthCheck w.sys.kernel w.sys.kernel.tickCount)
    hist := { w.hist with sample := w.hist.now } }

theorem checks_run (hw : BeginsPass w) {l : Spinlock} (hl : w.sys.kernel.schedLock.lock 0 = some l) :
    Run (WatchStep P) w checkEvents (w.checked l) := by
  obtain ⟨sys, pending, stage, hist⟩ := w
  obtain ⟨hstage, hpending, hruns, hout, -⟩ := hw
  obtain rfl : stage = .asleep := hstage
  have hlock : WatchStep P ⟨sys, pending, .sampled sys.kernel.tickCount, { hist with sample := hist.now }⟩
      .lock ⟨⟨{ sys.kernel with schedLock := l }, true⟩, pending,
        .checking sys.kernel.tickCount monitored none, { hist with sample := hist.now }⟩ := by
    refine act_step hpending hruns rfl ?_
    unfold Monitor.act System.next
    dsimp only
    rw [if_pos ⟨hruns, hout⟩, hl]
    rfl
  exact ⟨_, act_step hpending hruns rfl rfl, _, hlock, _, act_step hpending hruns rfl rfl, _,
    act_step hpending hruns rfl rfl, _, act_step hpending hruns rfl rfl, _,
    act_step hpending hruns rfl rfl, rfl⟩

theorem restartTaskC_current (P : Platform) (k : Kernel) : (restartTaskC P k).current = k.current := by
  unfold restartTaskC
  split
  · exact congrArg View.current (view_restart P .taskC 1 3 _)
  · rfl

theorem restartHsm_current (P : Platform) (k : Kernel) : (restartHsm P k).current = k.current := by
  unfold restartHsm
  split
  · exact congrArg View.current (view_restart P .hsm 0 4 _)
  · rfl

/-- The restarts and the release of the lock end the pass. -/
theorem restarts_run (hstage : w.stage = .restartTaskC) (hpending : w.pending 0 = none)
    (hruns : watchdogRuns w.sys.kernel) (hin : w.sys.inPass = true) :
    ∃ w', Run (WatchStep P) w [.restartTaskC, .restartHsm, .unlock] w' := by
  obtain ⟨⟨k, inPass⟩, pending, stage, hist⟩ := w
  obtain rfl : stage = .restartTaskC := hstage
  obtain rfl : inPass = true := hin
  have hruns1 : watchdogRuns (restartTaskC P k) := (congrFun (restartTaskC_current P k) 0).trans hruns
  have hruns2 : watchdogRuns (restartHsm P (restartTaskC P k)) :=
    (congrFun (restartHsm_current P _) 0).trans hruns1
  have htaskC : WatchStep P ⟨⟨k, true⟩, pending, .restartTaskC, hist⟩ .restartTaskC
      ⟨⟨restartTaskC P k, true⟩, pending, .restartHsm,
        hist.restart (Event.restartsNow k .watchdogRestartTaskC)⟩ :=
    act_step hpending hruns rfl (congrArg (Option.map _) (if_pos ⟨hruns, rfl⟩))
  generalize hist.restart (Event.restartsNow k .watchdogRestartTaskC) = hist1 at htaskC
  have hhsm : WatchStep P ⟨⟨restartTaskC P k, true⟩, pending, .restartHsm, hist1⟩ .restartHsm
      ⟨⟨restartHsm P (restartTaskC P k), true⟩, pending, .unlock,
        hist1.restart (Event.restartsNow (restartTaskC P k) .watchdogRestartHsm)⟩ :=
    act_step hpending hruns1 rfl (congrArg (Option.map _) (if_pos ⟨hruns1, rfl⟩))
  generalize hist1.restart (Event.restartsNow (restartTaskC P k) .watchdogRestartHsm) = hist2 at hhsm
  have hunlock : WatchStep P ⟨⟨restartHsm P (restartTaskC P k), true⟩, pending, .unlock, hist2⟩ .unlock
      ⟨⟨{ restartHsm P (restartTaskC P k) with
        schedLock := (restartHsm P (restartTaskC P k)).schedLock.unlock }, false⟩, pending, .asleep,
        hist2⟩ :=
    act_step hpending hruns2 rfl (congrArg (Option.map _) (if_pos ⟨hruns2, rfl⟩))
  exact ⟨_, _, htaskC, _, hhsm, _, hunlock, rfl⟩

/-- The termination syscall of a pass returns, and `y` is killed. -/
theorem terminateCall_step {k : Kernel} (hs : SysInv ⟨k, true⟩) (hlock : k.schedLock.owner = some 0)
    {y : TaskId} (hy : y ∈ monitored) (sp cycles : Word) (m : Memory) :
    ∃ s', Step P ⟨k, true⟩ (terminateCall sp cycles (failedPrio (nameOf y)) m) s' ∧
      s'.inPass = true ∧ (Effect.kill y).Leads 0 (view k) (view s'.kernel) := by
  have heff := effect_terminateCall hs.shape hy sp cycles m
  have hid := readFrame_terminateCall k sp (failedPrio (nameOf y)) m
  unfold terminateCall Event.effect at heff
  dsimp only at heff
  have hk := hs.sound ((m.writeWord (slot sp 13) 8#32).writeWord (slot sp 6) (failedPrio (nameOf y)))
  have hcompletes : Completes P 0 ⟨ECALL_UMODE, sp, cycles⟩ (k.setMem ((m.writeWord (slot sp 13)
      8#32).writeWord (slot sp 6) (failedPrio (nameOf y)))) := by
    refine (completes_iff hk).1.mpr ⟨Or.inr (Or.inr (Or.inl rfl)), fun _ h4 => ?_, fun _ => Or.inr hlock,
      fun p hp => ?_⟩
    · rw [hid] at h4
      cases h4
    · unfold transferPlan at hp
      dsimp only at hp
      rw [if_pos rfl, hid] at hp
      cases hp
  obtain ⟨⟨sp', k'⟩, hok⟩ := hcompletes
  refine ⟨⟨k', true⟩, step_of_ok hok, rfl, ?_⟩
  obtain ⟨hstep, -⟩ := effectStep_of_ok hk hok
  rw [(Prod.mk.inj (Option.some.inj heff)).2] at hstep
  exact hstep.leads

end Steps

/-! ## The tasks a pass leaves terminated -/

section Pass
variable {P : Platform} {w : Monitor} {x y : TaskId}

/-- The check of an overdue task fails if the 32-bit difference shows the timeout. -/
theorem flags_iff_of_overdue (hw : Clocks w) (hx : x ∈ monitored) (ho : Overdue w x) :
    Flags w.sys.kernel w.sys.kernel.tickCount x ↔
      ∀ c, w.hist.checkin x = some c → timeoutOf c < (w.hist.now - c) % 2 ^ 32 := by
  obtain ⟨hlive, c, hc, hold⟩ := ho
  have hlag : lag w.hist.now c = (w.hist.now - c) % 2 ^ 32 := by
    unfold lag
    omega
  rw [flags_iff hw hx, hc, checkFailed_some, hlag]
  refine ⟨fun hflags c' hc' => ?_, fun hall => ⟨hlive, hall c rfl⟩⟩
  obtain rfl := Option.some.inj hc'
  exact hflags.2

theorem later_or_later (hx : x ∈ monitored) (hy : y ∈ monitored) (hne : x ≠ y) :
    x ∈ later y ∨ y ∈ later x := by
  simp only [monitored, List.mem_cons, List.not_mem_nil, or_false] at hx hy
  rcases hx with rfl | rfl | rfl | rfl <;> rcases hy with rfl | rfl | rfl | rfl <;>
    first | exact absurd rfl hne | decide

/-- The task that a pass reports is `Terminated` afterwards if it is noticed, and no other task is. -/
theorem terminated_iff_noticed (hw : Clocks w) (hx : x ∈ monitored) (hy : y ∈ monitored)
    (hflags : Flags w.sys.kernel w.sys.kernel.tickCount y)
    (hlast : ∀ z ∈ later y, ¬ Flags w.sys.kernel w.sys.kernel.tickCount z) (ho : Overdue w x) :
    ((Effect.kill y).apply 0 (view w.sys.kernel)).state x = some .terminated ↔ Noticed w x := by
  by_cases hxy : x = y
  · subst hxy
    have hsome : ((view w.sys.kernel).state x).isSome := Option.isSome_iff_ne_none.mpr ho.1.1
    rw [Effect.kill_state_iff hsome]
    exact ⟨fun hno => ⟨(flags_iff_of_overdue hw hx ho).mp hflags, hlast, hno⟩, fun hn => hn.noHeir⟩
  · refine iff_of_false (fun hterm => ho.1.2 (Effect.kill_state_of_ne hxy hterm)) fun hn => ?_
    rcases later_or_later hx hy hxy with hlater | hlater
    · exact hlast x hlater ((flags_iff_of_overdue hw hx ho).mpr hn.timeout)
    · exact hn.last y hlater hflags

/-- The kill leaves the Watchdog running, and its view is the effect's. -/
theorem view_of_kill {v v' : View} (hy : y ∈ monitored) (hcur : v.current 0 = 0)
    (hl : (Effect.kill y).Leads 0 v v') : v' = (Effect.kill y).apply 0 v := by
  have hne : y ≠ v.running 0 := by
    rw [View.running, hcur]
    rintro rfl
    exact absurd hy (by decide)
  exact hl.eq_of_kill hne

end Pass

/-- For every state in which the Watchdog begins a pass: the pass runs to its end, and terminates an
overdue task if and only if it notices it. -/
theorem watchdog_complete_iff (P : Platform) (w : Monitor) (sp cycles : Word) (m : Memory)
    (hw : Clocks w) (hbegin : BeginsPass w) :
    ∃ w1 w', Run (WatchStep P) w (checkEvents ++ [.terminate sp cycles m]) w1 ∧
      Run (WatchStep P) w1 [.restartTaskC, .restartHsm, .unlock] w' ∧
      ∀ x ∈ monitored, Overdue w x →
        ((view w1.sys.kernel).state x = some .terminated ↔ Noticed w x) := by
  obtain ⟨l, hl⟩ := Option.isSome_iff_exists.mp hbegin.lock
  have hchecks := checks_run (P := P) hbegin hl
  have hpending := hbegin.pending
  have hruns : watchdogRuns w.sys.kernel := hbegin.runs
  cases hcheck : healthCheck w.sys.kernel w.sys.kernel.tickCount with
  | none =>
    have hterm : WatchStep P (w.checked l) (.terminate sp cycles m)
        { w.checked l with stage := .restartTaskC } := by
      refine act_step hpending hruns rfl ?_
      unfold Monitor.act Monitor.checked
      dsimp only
      rw [hcheck]
    obtain ⟨w', hrest⟩ := restarts_run (P := P) (w := { w.checked l with stage := .restartTaskC }) rfl
      hpending hruns rfl
    refine ⟨_, w', hchecks.append ⟨_, hterm, rfl⟩, hrest, fun x hx ho => ?_⟩
    refine iff_of_false ho.1.2 fun hn => ?_
    have hsome := (healthCheck_eq_some hw.inv.shape).mpr
      ⟨x, hx, (flags_iff_of_overdue hw hx ho).mpr hn.timeout, hn.last, rfl⟩
    rw [hcheck] at hsome
    cases hsome
  | some failedTask =>
    obtain ⟨y, hy, hflags, hlast, rfl⟩ := (healthCheck_eq_some hw.inv.shape).mp hcheck
    have hinv : SysInv ⟨{ w.sys.kernel with schedLock := l }, true⟩ :=
      ⟨hw.inv.shape, hw.inv.mutexLock, hw.inv.pmp⟩
    obtain ⟨s', hs', hin, hleads⟩ := terminateCall_step (P := P) hinv (lock_owner hl) hy sp cycles m
    have hterm : WatchStep P (w.checked l) (.terminate sp cycles m)
        { w.checked l with sys := s', stage := .restartTaskC } := by
      refine act_step hpending hruns rfl ?_
      unfold Monitor.act Monitor.checked
      dsimp only
      rw [hcheck]
      exact congrArg (Option.map _) hs'
    have hview : view s'.kernel = (Effect.kill y).apply 0 (view w.sys.kernel) :=
      view_of_kill hy hruns hleads
    have hruns' : watchdogRuns s'.kernel := by
      have hcur := congrFun (Effect.apply_shape 0 (view w.sys.kernel) (.kill y)).current 0
      rw [← hview] at hcur
      exact hcur.trans hruns
    obtain ⟨w', hrest⟩ := restarts_run (P := P)
      (w := { w.checked l with sys := s', stage := .restartTaskC }) rfl hpending hruns' hin
    refine ⟨_, w', hchecks.append ⟨_, hterm, rfl⟩, hrest, fun x hx ho => ?_⟩
    show (view s'.kernel).state x = _ ↔ _
    rw [hview]
    exact terminated_iff_noticed hw hx hy hflags hlast ho

/-- Task B and Task C fault, the Watchdog sleeps for 100 ticks, and Task A and HSM Task check in. -/
def checkins : List Block :=
  crash ++ [.tick 0, .timer 0 timerTrap fun _ => 0, call 0 5 0 0 0, call 0 1 0 0 0, call 0 5 0 0 0,
    call 0 1 0 0 0]

/-- Task A checks in again before the pass, HSM Task does not. -/
def oneSilent : List Block :=
  [.tick 0, .timer 0 timerTrap fun _ => 0, call 0 5 0 0 0, call 0 1 0 0 0, call 0 7 0 0x3FC81000 12]

/-- HSM Task is overdue alone and is terminated. -/
theorem watchdog_complete_iff_hsm :
    ∃ es w w1, Run (WatchStep packedPlatform) bootMonitor es w ∧ Overdue w hsmTask ∧
      Run (WatchStep packedPlatform) w (checkEvents ++ [.terminate 0x3FC82400 0 fun _ => 0]) w1 ∧
      (view w1.sys.kernel).state hsmTask = some .terminated := by
  have heval : ((after checkins bootMonitor).bind fun w1 => (after oneSilent (w1.idle 1 300)).map
      fun w => (decide (w1.Steady 1 300 ∧ BeginsPass w ∧ Overdue w hsmTask ∧
        ∀ i, ∀ m ∈ w.sys.kernel.mutexes i, m.ownerTaskIdx ≠ some 4), w.hist.checkin hsmTask,
        w.hist.now)) = some (true, some 1, 302) := by
    decide +kernel
  simp only [Option.bind_eq_some_iff, Option.map_eq_some_iff, Prod.mk.injEq, decide_eq_true_eq] at heval
  obtain ⟨w1, hw1, w, hw, ⟨hsteady, hbegin, hover, howner⟩, hcheck, hnow⟩ := heval
  have hrun := run_of_idle (run_of_after hw1) hsteady hw
  obtain ⟨w2, -, hpass, -, hall⟩ := watchdog_complete_iff packedPlatform w 0x3FC82400 0 (fun _ => 0)
    (clocks_run bootMonitor_initial hrun) hbegin
  have hlast : later hsmTask = [] := by decide
  refine ⟨_, w, w2, hrun, hover, hpass, (hall hsmTask (by decide) hover).mpr ⟨fun c hc => ?_, ?_, ?_⟩⟩
  · obtain rfl := Option.some.inj (hcheck.symm.trans hc)
    rw [hnow]
    decide
  · rw [hlast]
    exact fun z hz => by cases hz
  · rintro i ⟨m, -, hm, ho, -, -⟩
    exact howner i m hm ho

/-- Task A and HSM Task are overdue at once: HSM Task is terminated, Task A is not. -/
theorem overdue_task_spared :
    (∃ es w w', Run (WatchStep packedPlatform) bootMonitor es w ∧ Overdue w taskA ∧ Overdue w hsmTask ∧
      Run (WatchStep packedPlatform) w (checkEvents ++ [.terminate 0x3FC82400 0 fun _ => 0]) w' ∧
      (view w'.sys.kernel).state hsmTask = some .terminated ∧
      (view w'.sys.kernel).state taskA = some .ready) ∧
    ¬ ∀ P w sp cycles m, Clocks w → BeginsPass w → ∃ w1, Run (WatchStep P) w
      (checkEvents ++ [.terminate sp cycles m]) w1 ∧ ∀ x ∈ monitored, Overdue w x →
        (view w1.sys.kernel).state x = some .terminated := by
  have heval : ((after checkins bootMonitor).bind fun w1 => (after silence (w1.idle 1 300)).bind
      fun w => ((checkEvents ++ [WatchEvent.terminate 0x3FC82400 0 fun _ => 0]).foldlM
        (Monitor.next packedPlatform) w).map fun w' => (decide (w1.Steady 1 300 ∧ BeginsPass w ∧
          Overdue w taskA ∧ Overdue w hsmTask), (view w'.sys.kernel).state hsmTask,
          (view w'.sys.kernel).state taskA)) = some (true, some .terminated, some .ready) := by
    decide +kernel
  simp only [Option.bind_eq_some_iff, Option.map_eq_some_iff, Prod.mk.injEq, decide_eq_true_eq] at heval
  obtain ⟨w1, hw1, w, hw, w', hw', ⟨hsteady, hbegin, hA, hhsm⟩, hdead, hready⟩ := heval
  have hrun := run_of_idle (run_of_after hw1) hsteady hw
  refine ⟨⟨_, w, w', hrun, hA, hhsm, Run.of_foldlM hw', hdead, hready⟩, fun hall => ?_⟩
  obtain ⟨w2, hpass, hterm⟩ := hall packedPlatform w 0x3FC82400 0 (fun _ => 0)
    (clocks_run bootMonitor_initial hrun) hbegin
  obtain rfl : w' = w2 := Run.unique (fun _ _ _ _ h1 h2 => Option.some.inj (h1.symm.trans h2))
    (Run.of_foldlM hw') hpass
  have hA' := hterm taskA (by decide) hA
  rw [hready] at hA'
  cases hA'

end Cerberus.Watchdog
