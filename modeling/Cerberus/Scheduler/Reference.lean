import Cerberus.Scheduler.Selection

/-! # The reference selection

What `schedule` is for, without its loop: among the `Ready` partitions other than 31 the next one is
the nearest above the current one in cyclic order, partition 31 is the fallback, and a call either
lets the current partition go on or hands the hart to the next one. -/
namespace Cerberus.Scheduler.BitMapScheduler
open CyclicScan
set_option autoImplicit false

/-- How far above the successor of `c` the slot `i` is, in cyclic order. -/
def cyclicDistance (c i : Fin MAX_PARTITIONS) : ℤ := ((i.val : ℤ) - c.val - 1) % 32

/-- The next partition is the `Ready` slot other than 31 of least distance if there is one, else 31 if
it is `Ready`, else there is none. -/
def ReferenceNext (s : BitMapScheduler) : Option (Fin MAX_PARTITIONS) → Prop
  | some n => s.stateAt n = some .ready ∧ ∀ i, i ≠ 31 → s.stateAt i = some .ready →
      n ≠ 31 ∧ cyclicDistance s.currentPartitionIdx n ≤ cyclicDistance s.currentPartitionIdx i
  | none => ∀ i, s.stateAt i ≠ some .ready

def ReadyOrRunning (s : BitMapScheduler) (i : Fin MAX_PARTITIONS) : Prop :=
  s.stateAt i = some .ready ∨ s.stateAt i = some .running

instance (s : BitMapScheduler) (i : Fin MAX_PARTITIONS) : Decidable (s.ReadyOrRunning i) :=
  inferInstanceAs (Decidable (_ ∨ _))

/-- The budget after the tick of the call, if it is one. -/
def remainingAfter (s : BitMapScheduler) (isTick : Bool) : ℕ :=
  if isTick = true ∧ 0 < s.remainingMifTicks then s.remainingMifTicks - 1 else s.remainingMifTicks

/-- The table once `n` has taken the hart from `c`: only the states of the two slots are touched. -/
def handedOver (s : BitMapScheduler) (c n : Fin MAX_PARTITIONS) (i : Fin MAX_PARTITIONS) :
    Option TaskControlBlock :=
  (s.taskTable i).map fun tcb =>
    if i = n then { tcb with state := .running }
    else if i = c ∧ tcb.state = .running then { tcb with state := .ready }
    else tcb

/-! ## The search is the nearest slot -/

theorem gap_eq_cyclicDistance (c i : Fin MAX_PARTITIONS) : (gap c i : ℤ) = cyclicDistance c i := by
  have hc := c.isLt
  have hi := i.isLt
  unfold gap cyclicDistance
  unfold MAX_PARTITIONS at hc hi ⊢
  split <;> omega

variable {s : BitMapScheduler} {isTick : Bool}

theorem gap_le_iff {c i j : Fin MAX_PARTITIONS} :
    gap c i ≤ gap c j ↔ cyclicDistance c i ≤ cyclicDistance c j := by
  rw [← gap_eq_cyclicDistance, ← gap_eq_cyclicDistance, Int.ofNat_le]

/-- The reference determines the next partition. -/
theorem ReferenceNext.unique {o o' : Option (Fin MAX_PARTITIONS)} (h : s.ReferenceNext o)
    (h' : s.ReferenceNext o') : o = o' := by
  cases o with
  | none =>
    cases o' with
    | none => rfl
    | some n' => exact absurd h'.1 (h n')
  | some n =>
    cases o' with
    | none => exact absurd h.1 (h' n)
    | some n' =>
      congr 1
      by_cases hn : n = 31
      · by_contra hne
        exact (h.2 n' (fun hn' => hne (hn.trans hn'.symm)) h'.1).1 hn
      · by_cases hn' : n' = 31
        · exact absurd hn' (h'.2 n hn h.1).1
        · have hle := gap_le_iff.mpr (h.2 n' hn' h'.1).2
          have hge := gap_le_iff.mpr (h'.2 n hn h.1).2
          exact gap_injective _ (Nat.le_antisymm hle hge)

/-- The two passes find the reference's next partition. -/
theorem referenceNext_selectNext (s : BitMapScheduler) : s.ReferenceNext s.selectNext := by
  cases hsel : s.selectNext with
  | none => exact selectNext_eq_none_iff.mp hsel
  | some n =>
    refine ⟨stateAt_of_selectNext hsel, fun i hi hready => ?_⟩
    rw [selectNext_of_ready hi hready, next_eq_some_iff] at hsel
    obtain ⟨hn, hmin⟩ := hsel
    exact ⟨((readyNotIdle_iff s n).mp hn).1,
      gap_le_iff.mp (hmin i ((readyNotIdle_iff s i).mpr ⟨hi, hready⟩))⟩

theorem selectNext_eq_iff {o : Option (Fin MAX_PARTITIONS)} :
    s.selectNext = o ↔ s.ReferenceNext o := by
  constructor
  · rintro rfl
    exact referenceNext_selectNext s
  · exact fun h => (referenceNext_selectNext s).unique h

/-! ## The call -/

theorem spendTick_eq (s : BitMapScheduler) (isTick : Bool) :
    s.spendTick isTick = { s with remainingMifTicks := s.remainingAfter isTick } := by
  unfold spendTick remainingAfter
  cases isTick with
  | false => rfl
  | true =>
    by_cases hpos : 0 < s.remainingMifTicks
    · simp [hpos]
    · simp [hpos]

theorem currentRunnable_iff : s.currentRunnable = true ↔ s.ReadyOrRunning s.currentPartitionIdx := by
  simp only [currentRunnable, ReadyOrRunning, decide_eq_true_eq, Or.comm]

/-- The call goes on with the current partition exactly at a tick that leaves it some budget. -/
theorem not_triggers_iff : ¬ s.Triggers isTick ↔
    0 < s.remainingAfter isTick ∧ isTick = true ∧ s.ReadyOrRunning s.currentPartitionIdx := by
  unfold Triggers
  rw [spendTick_eq, ← currentRunnable_iff]
  simp only [not_or, Bool.not_eq_false, Nat.pos_iff_ne_zero]

theorem setState_taskTable (i j : Fin MAX_PARTITIONS) (st : TaskState) :
    (s.setState i st).taskTable j =
      (s.taskTable j).map fun tcb => if j = i then { tcb with state := st } else tcb := by
  by_cases h : j = i
  · subst h
    simp [setState]
  · simp [setState, h]

theorem releaseSlot_taskTable (i j : Fin MAX_PARTITIONS) :
    (s.releaseSlot i).taskTable j = (s.taskTable j).map fun tcb =>
      if j = i ∧ tcb.state = .running then { tcb with state := .ready } else tcb := by
  unfold releaseSlot
  cases hj : s.taskTable j with
  | none =>
    split
    · simp [setState_taskTable, hj]
    · simp [hj]
  | some tcb =>
    by_cases hji : j = i
    · subst hji
      have hstate : s.stateAt j = some tcb.state := by simp [stateAt, hj]
      rw [hstate]
      split
      · rename_i hrun
        simp [setState_taskTable, hj, Option.some.inj hrun]
      · rename_i hrun
        have hrun' : tcb.state ≠ .running := fun he => hrun (congrArg some he)
        simp [hj, hrun']
    · split
      · simp [setState_taskTable, hj, hji]
      · simp [hj, hji]

/-- The two state transitions of the swap, as one table. -/
theorem swapTo_eq (s : BitMapScheduler) (n : Fin MAX_PARTITIONS) :
    s.swapTo n = { s with
      currentPartitionIdx := n
      remainingMifTicks := s.partitionDurations n
      taskTable := s.handedOver s.currentPartitionIdx n } := by
  have htable : (s.swapTo n).taskTable = s.handedOver s.currentPartitionIdx n := by
    funext i
    unfold swapTo handedOver
    rw [setState_taskTable, releaseSlot_taskTable, Option.map_map]
    have henter : (s.enterSlot n).taskTable i = s.taskTable i := rfl
    rw [henter]
    congr 1
    funext tcb
    simp only [Function.comp_apply]
    split
    · split <;> rfl
    · rfl
  cases hs : s.swapTo n with
  | mk table current durations remaining =>
    have h1 := swapTo_currentPartitionIdx s n
    have h2 := swapTo_partitionDurations s n
    have h3 := swapTo_remainingMifTicks s n
    rw [hs] at htable h1 h2 h3
    simp only at htable h1 h2 h3
    rw [htable, h1, h2, h3]

/-- No other branch of the call is left: it goes on, finds nothing, or hands over. -/
theorem schedule_eq (isTick : Bool) (hreg : (s.taskTable s.currentPartitionIdx).isSome) :
    (¬ s.Triggers isTick ∧
      s.schedule isTick = ({ s with remainingMifTicks := s.remainingAfter isTick }, none)) ∨
    (s.Triggers isTick ∧ s.selectNext = none ∧ s.schedule isTick =
      ({ s with remainingMifTicks :=
          if s.remainingAfter isTick = 0 ∧ s.ReadyOrRunning s.currentPartitionIdx then
            s.partitionDurations s.currentPartitionIdx
          else s.remainingAfter isTick }, none)) ∨
    (∃ n tcb, s.Triggers isTick ∧ s.selectNext = some n ∧ s.taskTable n = some tcb ∧
      s.schedule isTick = ({ s with
          currentPartitionIdx := n
          remainingMifTicks := s.partitionDurations n
          taskTable := s.handedOver s.currentPartitionIdx n },
        some (s.currentPartitionIdx, tcb.savedSp))) := by
  by_cases ht : s.Triggers isTick
  · refine Or.inr ?_
    cases hsel : s.selectNext with
    | none =>
      refine Or.inl ⟨ht, rfl, ?_⟩
      have ht' : (s.spendTick isTick).remainingMifTicks = 0 ∨ isTick = false ∨
          (s.spendTick isTick).currentRunnable = false := by
        simpa [Triggers] using ht
      unfold schedule
      simp only [if_pos ht', selectNext_spendTick, hsel]
      simp only [currentRunnable_spendTick]
      simp only [currentRunnable_iff, spendTick_eq]
      by_cases hrenew : s.ReadyOrRunning s.currentPartitionIdx ∧ s.remainingAfter isTick = 0
      · rw [if_pos hrenew, if_pos hrenew.symm]
      · rw [if_neg hrenew, if_neg fun h => hrenew h.symm]
    | some n =>
      rcases schedule_cases (b := isTick) hreg with
        ⟨r, -, hstay⟩ | ⟨n', tcb, -, hsel', htcb, hsched⟩
      · rcases hstay with ⟨hnot, -⟩ | ⟨-, hnone⟩
        · exact absurd ht hnot
        · rw [hsel] at hnone
          cases hnone
      · obtain rfl := Option.some.inj (hsel.symm.trans hsel')
        rw [swapTo_eq, spendTick_eq] at hsched htcb
        obtain ⟨old, hold, hsp⟩ := Option.map_eq_some_iff.mp htcb
        simp only [if_true] at hsp
        refine Or.inr ⟨n, old, ht, rfl, hold, ?_⟩
        rw [hsched, ← hsp]
        rfl
  · refine Or.inl ⟨ht, ?_⟩
    rcases schedule_cases (b := isTick) hreg with ⟨r, hsched, hstay⟩ | ⟨n', tcb, ht', -⟩
    · rcases hstay with ⟨-, hr⟩ | ⟨ht', -⟩
      · rw [hsched, hr, spendTick_eq]
      · exact absurd ht' ht
    · exact absurd ht' ht

/-- `schedule` is the reference: it goes on with the current partition while a tick leaves budget,
and else hands the hart to the reference's next partition, or to none. -/
theorem schedule_refines_reference (s : BitMapScheduler) (isTick : Bool)
    (hreg : (s.taskTable s.currentPartitionIdx).isSome) :
    (0 < s.remainingAfter isTick ∧ isTick = true ∧ s.ReadyOrRunning s.currentPartitionIdx →
      s.schedule isTick = ({ s with remainingMifTicks := s.remainingAfter isTick }, none)) ∧
    (¬ (0 < s.remainingAfter isTick ∧ isTick = true ∧ s.ReadyOrRunning s.currentPartitionIdx) →
      ∃ next, s.ReferenceNext next ∧ (∀ o, s.ReferenceNext o → o = next) ∧
        (next = none → s.schedule isTick =
          ({ s with remainingMifTicks :=
              if s.remainingAfter isTick = 0 ∧ s.ReadyOrRunning s.currentPartitionIdx then
                s.partitionDurations s.currentPartitionIdx
              else s.remainingAfter isTick }, none)) ∧
        (∀ n, next = some n → ∃ tcb, s.taskTable n = some tcb ∧ s.schedule isTick =
          ({ s with
              currentPartitionIdx := n
              remainingMifTicks := s.partitionDurations n
              taskTable := s.handedOver s.currentPartitionIdx n },
            some (s.currentPartitionIdx, tcb.savedSp)))) := by
  rw [← not_triggers_iff, not_not]
  rcases schedule_eq isTick hreg with
    ⟨hnot, hsched⟩ | ⟨ht, hsel, hsched⟩ | ⟨n, tcb, ht, hsel, htcb, hsched⟩
  · exact ⟨fun _ => hsched, fun ht => absurd ht hnot⟩
  · refine ⟨fun hnot => absurd ht hnot, fun _ => ⟨none, selectNext_eq_iff.mp hsel, ?_, ?_, ?_⟩⟩
    · exact fun o ho => ho.unique (selectNext_eq_iff.mp hsel)
    · exact fun _ => hsched
    · intro n hn
      cases hn
  · refine ⟨fun hnot => absurd ht hnot, fun _ => ⟨some n, selectNext_eq_iff.mp hsel, ?_, ?_, ?_⟩⟩
    · exact fun o ho => ho.unique (selectNext_eq_iff.mp hsel)
    · intro hn
      cases hn
    · intro n' hn'
      obtain rfl := Option.some.inj hn'
      exact ⟨tcb, htcb, hsched⟩

/-- `setup_benchmark_scheduler` of `benchmarks/src/lib.rs`: every task is registered as `Ready`, the
current one included. `none` is the assertion of `register_task`. -/
def setupBenchmarkScheduler (numTasks : ℕ) : Option BitMapScheduler :=
  (List.range numTasks).foldlM (fun sched i => sched.registerTask
    { savedSp := 0x1000#32 + BitVec.ofNat 32 i * 0x100#32
      priority := BitVec.ofNat 8 i
      activePriority := BitVec.ofNat 8 i
      state := .ready
      name := "Mock Task"
      capabilities := fun _ => .none }) new

def benchmarkScheduler (numTasks : ℕ) : BitMapScheduler := (setupBenchmarkScheduler numTasks).getD new

theorem schedule_refines_reference_benchmark :
    ((benchmarkScheduler 3).taskTable (benchmarkScheduler 3).currentPartitionIdx).isSome = true ∧
      ((benchmarkScheduler 3).schedule false).1.currentPartitionIdx = 1 := by
  have hreg : ((benchmarkScheduler 3).taskTable
      (benchmarkScheduler 3).currentPartitionIdx).isSome = true := by decide
  obtain ⟨next, -, hunique, -, hsome⟩ :=
    (schedule_refines_reference (benchmarkScheduler 3) false hreg).2 (by decide)
  have hnext : some 1 = next := hunique (some 1) ⟨by decide, by decide⟩
  obtain ⟨tcb, -, hsched⟩ := hsome 1 hnext.symm
  exact ⟨hreg, by rw [hsched]⟩

end Cerberus.Scheduler.BitMapScheduler
