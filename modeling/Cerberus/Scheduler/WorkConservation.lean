import Cerberus.Scheduler.Starvation

/-! # Work conservation

When a call of `schedule` goes to the idle partition 31. Pass 1 looks at every slot but 31, the
current one included, for a `Ready` task; pass 2 falls back to 31, before the current task is
considered; and a tick with budget left does not look at all. So idle never takes the place of a
`Ready` task, but it does take the place of a current task that is still `Running`, and once current
it keeps its slot for as long as ticks find budget left. -/
namespace Cerberus.Scheduler
open CyclicScan Transition BitMapScheduler
set_option autoImplicit false

/-! ## Runs with tasks blocked and woken in between -/

inductive WorkEvent where
  | call (isTick : Bool)
  | outside

/-- Tasks are blocked and woken from outside: any states, the same tasks. -/
structure StatesChange (s s' : BitMapScheduler) : Prop where
  current : s'.currentPartitionIdx = s.currentPartitionIdx
  durations : s'.partitionDurations = s.partitionDurations
  remaining : s'.remainingMifTicks = s.remainingMifTicks
  registered : ∀ i, (s'.taskTable i).isSome = (s.taskTable i).isSome

inductive WorkStep : BitMapScheduler → WorkEvent → BitMapScheduler → Prop where
  | call (s : BitMapScheduler) (isTick : Bool) : WorkStep s (.call isTick) (s.schedule isTick).1
  | outside {s s' : BitMapScheduler} (h : StatesChange s s') : WorkStep s .outside s'

/-- The call ends on partition `n` by a swap: the index changed, or a stack to load is returned. -/
def SwapsTo (s : BitMapScheduler) (isTick : Bool) (n : Fin MAX_PARTITIONS) : Prop :=
  (s.schedule isTick).1.currentPartitionIdx = n ∧
    (n ≠ s.currentPartitionIdx ∨ (s.schedule isTick).2.isSome)

/-- `Ready`, or current and `Running`. -/
def Runnable (s : BitMapScheduler) (i : Fin MAX_PARTITIONS) : Prop :=
  s.stateAt i = some .ready ∨ (i = s.currentPartitionIdx ∧ s.stateAt i = some .running)

/-- Idle gets the core only if nothing else is runnable, and gives it up to any `Ready` task. -/
def FullyConserving (s : BitMapScheduler) (isTick : Bool) : Prop :=
  (SwapsTo s isTick 31 → ∀ i, i ≠ 31 → ¬ Runnable s i) ∧
    (s.currentPartitionIdx = 31 → ∀ j, j ≠ 31 → s.stateAt j = some .ready →
      ∃ n, n ≠ 31 ∧ SwapsTo s isTick n)

/-- Idle gets the core only if nothing else is `Ready`, and gives it up to any `Ready` task at a call
that reschedules. -/
def Conserving (s : BitMapScheduler) (isTick : Bool) : Prop :=
  (SwapsTo s isTick 31 → ∀ i, i ≠ 31 → s.stateAt i ≠ some .ready) ∧
    (s.currentPartitionIdx = 31 → ∀ j, j ≠ 31 → s.stateAt j = some .ready → s.Triggers isTick →
      ∃ n, n ≠ 31 ∧ SwapsTo s isTick n)

/-! ## One call -/

section Call
variable {s : BitMapScheduler} {isTick : Bool} {n j : Fin MAX_PARTITIONS}

theorem selectNext_ne_idle (hj : j ≠ 31) (hready : s.stateAt j = some .ready)
    (hn : s.selectNext = some n) : n ≠ 31 := by
  rw [selectNext_of_ready hj hready] at hn
  have hp := (next_eq_some_iff.mp hn).1
  rw [readyNotIdle_iff] at hp
  exact hp.1

theorem swapsTo_select (hs : SwapsTo s isTick n) : s.selectNext = some n := by
  obtain ⟨hcur, hswap⟩ := hs
  rcases schedule_stays_or_swaps s isTick with ⟨r, hs, -⟩ | ⟨m, -, hm, hs, -⟩
  · rw [hs] at hcur hswap
    rcases hswap with hne | hsome
    · exact absurd hcur.symm hne
    · cases hsome
  · rw [hs, swapTo_currentPartitionIdx] at hcur
    rw [hm, hcur]

theorem conserving (s : BitMapScheduler) (isTick : Bool) : Conserving s isTick := by
  constructor
  · intro hs i hi hready
    exact selectNext_ne_idle hi hready (swapsTo_select hs) rfl
  · intro hcur j hj hready ht
    rcases schedule_stays_or_swaps s isTick with ⟨r, -, hno⟩ | ⟨m, -, hm, hs, -⟩
    · rcases hno with ⟨hno, -⟩ | ⟨-, hnone⟩
      · exact absurd ht hno
      · exact absurd hready (selectNext_eq_none_iff.mp hnone j)
    · have hne := selectNext_ne_idle hj hready hm
      refine ⟨m, hne, ?_, Or.inl ?_⟩
      · rw [hs, swapTo_currentPartitionIdx]
      · rw [hcur]
        exact hne

end Call

/-! ## Every call of a run -/

/-- In every run, at every call: idle is swapped in only while no other partition is `Ready`, and a
call that reschedules while idle is current swaps to another partition if one is `Ready`. -/
theorem work_conserving (s s' : BitMapScheduler) (es : List WorkEvent)
    (hrun : Run WorkStep s es s') (before after : List WorkEvent) (isTick : Bool)
    (hes : es = before ++ .call isTick :: after) :
    ∃ u, Run WorkStep s before u ∧ Run WorkStep (u.schedule isTick).1 after s' ∧
      Conserving u isTick := by
  rw [hes] at hrun
  obtain ⟨u, hbefore, v, hcall, hafter⟩ := hrun.split
  cases hcall with
  | call => exact ⟨u, hbefore, hafter, conserving u isTick⟩

/-- Two partitions: 0 in state `st0` and idle in state `st31`, with budget left. -/
def withIdle (current : Fin MAX_PARTITIONS) (st0 st31 : TaskState) : BitMapScheduler where
  taskTable := fun i =>
    if i = 0 then some ⟨0, 0, 0, st0, "test", fun _ => .none⟩
    else if i = 31 then some ⟨0, 31, 31, st31, "test", fun _ => .none⟩ else none
  currentPartitionIdx := current
  partitionDurations := fun _ => 100
  remainingMifTicks := 50

theorem work_conserving_blocked :
    SwapsTo (withIdle 0 (.blocked 10) .ready) true 31 ∧
    ∃ u, Run WorkStep (withIdle 0 (.blocked 10) .ready) [] u ∧
      Run WorkStep (u.schedule true).1 [] ((withIdle 0 (.blocked 10) .ready).schedule true).1 ∧
      Conserving u true :=
  ⟨⟨rfl, Or.inl (by decide)⟩, work_conserving _ _ [.call true] (Run.single (.call _ true)) [] [] true
    rfl⟩

/-- A partition that yields while it is the only one goes to idle; and a tick within the idle slot
does not look for the `Ready` partition. -/
theorem idle_replaces_running :
    (SwapsTo (withIdle 0 .running .ready) false 31 ∧ Runnable (withIdle 0 .running .ready) 0 ∧
      ¬ FullyConserving (withIdle 0 .running .ready) false) ∧
    ((withIdle 31 .ready .running).currentPartitionIdx = 31 ∧
      (withIdle 31 .ready .running).stateAt 0 = some .ready ∧
      ¬ FullyConserving (withIdle 31 .ready .running) true) := by
  have hswap : SwapsTo (withIdle 0 .running .ready) false 31 := ⟨rfl, Or.inl (by decide)⟩
  have hrunnable : Runnable (withIdle 0 .running .ready) 0 := Or.inr ⟨rfl, rfl⟩
  refine ⟨⟨hswap, hrunnable, fun h => h.1 hswap 0 (by decide) hrunnable⟩, rfl, rfl, fun h => ?_⟩
  obtain ⟨n, hn, hcur, -⟩ := h.2 rfl 0 (by decide) rfl
  have hstay : ((withIdle 31 .ready .running).schedule true).1.currentPartitionIdx = 31 := rfl
  exact hn (hcur.symm.trans hstay)

end Cerberus.Scheduler
