import Cerberus.Watchdog.Soundness

/-! # A check-in between the sample and the read

The Watchdog loads `TICK_COUNT` before it takes `SCHED_LOCK`, and reads the entries after. A check-in
that comes between the two carries a later tick than the sample, and the 32-bit difference wraps: the
task that has just checked in is flagged. -/
namespace Cerberus.Watchdog
open Kernel Scheduler Sync Memory Transition
set_option autoImplicit false

/-- The timeout an entry is held against. -/
def timeoutOf (c : ℕ) : ℕ := if c % 2 ^ 32 = 0 then 1000 else 200

/-- The check-in at `c` counts for a check with the tick `sample`: it is not later, or later by so
much that the difference wraps round to the timeout or less. -/
def Counts (sample c : ℕ) : Prop :=
  c ≤ sample ∨ (c - sample) % 2 ^ 32 = 0 ∨ 2 ^ 32 ≤ (c - sample) % 2 ^ 32 + timeoutOf c

/-- Where the check of `x` is right about a check-in at `c`: it counts and `x` was not restarted since,
or `x` was restarted and the sample is within the first 1000 ticks. -/
def SeenInTime (w : Monitor) (x : TaskId) (c : ℕ) : Prop :=
  (w.hist.checkin x = some c ∧ Counts w.hist.sample c) ∨
    (w.hist.checkin x = none ∧ w.hist.sample % 2 ^ 32 ≤ 1000)

theorem lag_of_lt {sample c : ℕ} (hlt : sample < c) :
    lag sample c = (2 ^ 32 - (c - sample) % 2 ^ 32) % 2 ^ 32 := by
  unfold lag
  omega

/-- A fresh check-in passes the check exactly when it counts. -/
theorem not_checkFailed_iff {sample c now : ℕ} (hsample : sample ≤ now) (hfresh : now - c ≤ 200) :
    ¬ checkFailed (BitVec.ofNat 32 sample) (entry (some c)) = true ↔ Counts sample c := by
  have htimeout : 200 ≤ timeoutOf c ∧ timeoutOf c ≤ 1000 := by
    unfold timeoutOf
    split <;> omega
  rw [checkFailed_some, show (if c % 2 ^ 32 = 0 then 1000 else 200) = timeoutOf c from rfl]
  unfold Counts
  by_cases hle : c ≤ sample
  · have hlag := lag_le hle
    exact iff_of_true (by omega) (Or.inl hle)
  · rw [lag_of_lt (by omega)]
    omega

section Read
variable {P : Platform} {w w' : Monitor} {currentTick : Word} {x : TaskId} {rest : List TaskId}
  {failed : Option String}

theorem flags_of_sample (hw : Clocks w) (hx : x ∈ monitored)
    (hstage : w.stage.currentTick = some currentTick) :
    Flags w.sys.kernel currentTick x ↔ Live w.sys.kernel x ∧
      checkFailed (BitVec.ofNat 32 w.hist.sample) (entry (w.hist.checkin x)) = true := by
  unfold Flags
  rw [(hw.sample currentTick hstage).1, hw.entries x hx]

theorem stage_of_read (hw : Clocks w) (hx : x ∈ monitored)
    (hstage : w.stage = .checking currentTick (x :: rest) failed) (hread : WatchStep P w .read w') :
    w'.stage = .checking currentTick rest
      (if Flags w.sys.kernel currentTick x then some (nameOf x) else failed) := by
  rw [read_step hstage hread, inspectTask_eq hw.inv.shape hx]

end Read

/-- The tasks still to be checked, and the task found last. -/
def Stage.queue : Stage → Option (List TaskId × Option String)
  | .checking _ rest failed => some (rest, failed)
  | _ => none

theorem stage_of_queue {stage : Stage} {rest : List TaskId} {failed : Option String}
    (hqueue : stage.queue = some (rest, failed)) :
    ∃ currentTick, stage = .checking currentTick rest failed := by
  cases stage with
  | checking currentTick rest' failed' =>
    cases hqueue
    exact ⟨currentTick, rfl⟩
  | _ => cases hqueue

/-- Along every interleaving: when the entry of a task is read whose last check-in is at most 200 ticks
old, the task is not flagged if and only if it is terminated or the check sees the check-in in
time. -/
theorem watchdog_read_iff (P : Platform) (w0 w w' : Monitor) (es : List WatchEvent)
    (currentTick : Word) (x : TaskId) (rest : List TaskId) (failed : Option String) (c : ℕ)
    (hinit : WatchInitial P w0) (hrun : Run (WatchStep P) w0 es w)
    (hstage : w.stage = .checking currentTick (x :: rest) failed) (hread : WatchStep P w .read w')
    (hx : x ∈ monitored) (hlast : w.hist.lastCheckin x = some c) (hfresh : w.hist.now - c ≤ 200) :
    w'.stage = .checking currentTick rest
        (if Flags w.sys.kernel currentTick x then some (nameOf x) else failed) ∧
      (¬ Flags w.sys.kernel currentTick x ↔ (Live w.sys.kernel x → SeenInTime w x c)) := by
  have hw : Clocks w := clocks_run hinit hrun
  have hsampled : w.stage.currentTick = some currentTick := by
    rw [hstage]
    rfl
  have hsample := (hw.sample currentTick hsampled).2
  refine ⟨stage_of_read hw hx hstage hread, ?_⟩
  rw [flags_of_sample hw hx hsampled, not_and]
  refine imp_congr_right fun _ => ?_
  cases hc : w.hist.checkin x with
  | none =>
    have hnone := checkFailed_none w.hist.sample
    unfold SeenInTime
    rw [hc, hnone]
    simp
  | some c' =>
    obtain rfl := Option.some.inj ((hw.checkins x c' hc).2.2.symm.trans hlast)
    unfold SeenInTime
    rw [hc, not_checkFailed_iff hsample hfresh]
    simp

/-- The Watchdog sleeps for 100 ticks while Task B runs on core 1. -/
def sleep : List Block := [call 0 2 100 0 0]

/-- At tick 100 the Watchdog wakes, and Task A and HSM Task leave the core to it. -/
def turn : List Block :=
  [.tick 0, .timer 0 timerTrap fun _ => 0, .tick 0, .timer 0 timerTrap fun _ => 0, call 0 1 0 0 0,
    call 0 7 0 0x3FC81000 12]

def checkin : WatchEvent := .trap 1 ⟨ECALL_UMODE, 0x3FC82400, 0⟩ (syscallFrame 0x3FC82400 5 0 0 0)

/-- Task B checks in before the sample and is found healthy. -/
theorem watchdog_read_iff_task_b :
    ∃ es w w' currentTick, Run (WatchStep packedPlatform) bootMonitor es w ∧
      w.stage = .checking currentTick [taskB, taskC, hsmTask] none ∧
      WatchStep packedPlatform w .read w' ∧ w.hist.lastCheckin taskB = some 100 ∧
      w'.stage = .checking currentTick [taskC, hsmTask] none := by
  have heval : ((after sleep bootMonitor).bind fun w1 => (after turn (w1.idle 1 98)).bind fun w2 =>
      ([checkin, .load, .lock, .read].foldlM (Monitor.next packedPlatform) w2).bind fun w =>
        (w.next packedPlatform .read).map fun _ => decide (w1.Steady 1 98 ∧
          w.hist.checkin taskB = some 100 ∧ w.hist.lastCheckin taskB = some 100 ∧
          w.hist.sample = 100 ∧ w.hist.now = 100 ∧
          w.stage.queue = some ([taskB, taskC, hsmTask], none))) = some true := by
    decide +kernel
  simp only [Option.bind_eq_some_iff, Option.map_eq_some_iff, decide_eq_true_eq] at heval
  obtain ⟨w1, hw1, w2, hw2, w, hw, w', hw', h1, hcheck, hlast, hsample, hnow, hqueue⟩ := heval
  have hrun := (run_of_idle (run_of_after hw1) h1 hw2).append (Run.of_foldlM hw)
  obtain ⟨currentTick, hstage⟩ := stage_of_queue hqueue
  obtain ⟨hafter, hflags⟩ := watchdog_read_iff _ _ w w' _ _ _ _ _ 100 bootMonitor_initial hrun hstage
    hw' (by decide) hlast (by rw [hnow]; omega)
  have hnot : ¬ Flags w.sys.kernel currentTick taskB := hflags.mpr fun _ =>
    Or.inl ⟨hcheck, Or.inl (by rw [hsample])⟩
  rw [if_neg hnot] at hafter
  exact ⟨_, w, w', currentTick, hrun, hstage, hw', hlast, hafter⟩

/-- Task B checks in one tick after the sample, before the Watchdog has the lock, and is flagged. -/
theorem late_checkin_flagged :
    (∃ es w w' currentTick, Run (WatchStep packedPlatform) bootMonitor es w ∧
      w.stage = .checking currentTick [taskB, taskC, hsmTask] none ∧
      WatchStep packedPlatform w .read w' ∧ w.hist.lastCheckin taskB = some 101 ∧ w.hist.now = 101 ∧
      w'.stage = .checking currentTick [taskC, hsmTask] (some "Task B")) ∧
    ¬ ∀ P w0 w w' es currentTick x rest failed c, WatchInitial P w0 → Run (WatchStep P) w0 es w →
      w.stage = .checking currentTick (x :: rest) failed → WatchStep P w .read w' → x ∈ monitored →
      w.hist.lastCheckin x = some c → w.hist.now - c ≤ 200 → ¬ Flags w.sys.kernel currentTick x := by
  have heval : ((after sleep bootMonitor).bind fun w1 => (after turn (w1.idle 1 98)).bind fun w2 =>
      ([.load, .tick 1, .timer 1 timerTrap fun _ => 0, checkin, .lock, .read].foldlM
        (Monitor.next packedPlatform) w2).bind fun w =>
        (w.next packedPlatform .read).map fun w' => decide (w1.Steady 1 98 ∧
          w.hist.lastCheckin taskB = some 101 ∧ w.hist.now = 101 ∧
          w.stage.queue = some ([taskB, taskC, hsmTask], none) ∧
          w'.stage.queue = some ([taskC, hsmTask], some "Task B"))) = some true := by
    decide +kernel
  simp only [Option.bind_eq_some_iff, Option.map_eq_some_iff, decide_eq_true_eq] at heval
  obtain ⟨w1, hw1, w2, hw2, w, hw, w', hw', h1, hlast, hnow, hqueue, hqueue'⟩ := heval
  have hrun := (run_of_idle (run_of_after hw1) h1 hw2).append (Run.of_foldlM hw)
  obtain ⟨currentTick, hstage⟩ := stage_of_queue hqueue
  obtain ⟨currentTick', hstage'⟩ := stage_of_queue hqueue'
  have hw := clocks_run bootMonitor_initial hrun
  have hafter := stage_of_read hw (by decide) hstage hw'
  obtain ⟨rfl, -, hfailed⟩ := Stage.checking.inj (hafter.symm.trans hstage')
  refine ⟨⟨_, w, w', currentTick, hrun, hstage, hw', hlast, hnow, hstage'⟩, fun hall => ?_⟩
  have hnot := hall _ _ w w' _ currentTick taskB _ _ 101 bootMonitor_initial hrun hstage hw'
    (by decide) hlast (by rw [hnow]; omega)
  rw [if_neg hnot] at hfailed
  cases hfailed

end Cerberus.Watchdog
