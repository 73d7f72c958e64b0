import Mathlib.Algebra.BigOperators.Group.Finset.Basic
import Cerberus.Scheduler.Selection

/-! # The major frame

A set `R` of partitions that are all ready, with nothing else to run: the ticks of one major frame
give every member its duration, in cyclic order, and end in the state they started from. The states
in between are `slotState`: member `c` runs with `r` ticks left and the others are ready. -/
namespace Cerberus.Scheduler
open CyclicScan BitMapScheduler
set_option autoImplicit false

/-- The scheduler after `k` timer ticks. -/
def afterTicks (s : BitMapScheduler) (k : ℕ) : BitMapScheduler :=
  (fun s => (s.schedule true).1)^[k] s

/-- The partition that is current at each of the first `k` calls. -/
def visits (s : BitMapScheduler) (k : ℕ) : List (Fin MAX_PARTITIONS) :=
  (List.range k).map fun i => (afterTicks s i).currentPartitionIdx

/-- The start of a major frame of `R`: the current member has its whole duration left, the others
are `Ready`, and of the rest only idle may be. -/
structure FrameStart (R : Finset (Fin MAX_PARTITIONS)) (s : BitMapScheduler) : Prop where
  two : 2 ≤ R.card
  notIdle : 31 ∉ R
  durations : ∀ i ∈ R, 1 ≤ s.partitionDurations i
  current : s.currentPartitionIdx ∈ R
  running : s.stateAt s.currentPartitionIdx = some .running
  budget : s.remainingMifTicks = s.partitionDurations s.currentPartitionIdx
  ready : ∀ i ∈ R, i ≠ s.currentPartitionIdx → s.stateAt i = some .ready
  outside : ∀ i, i ∉ R → i ≠ 31 → s.stateAt i ≠ some .ready ∧ s.stateAt i ≠ some .running
  idle : s.stateAt 31 = none ∨ s.stateAt 31 = some .ready

/-- Member `c` runs with `r` ticks left, the other members are ready. -/
def slotState (R : Finset (Fin MAX_PARTITIONS)) (s : BitMapScheduler) (c : Fin MAX_PARTITIONS)
    (r : ℕ) : BitMapScheduler :=
  { s with
    currentPartitionIdx := c
    remainingMifTicks := r
    taskTable := fun i =>
      if i ∈ R then (s.taskTable i).map fun tcb =>
        { tcb with state := if i = c then .running else .ready }
      else s.taskTable i }

section Slot
variable {R : Finset (Fin MAX_PARTITIONS)} {s : BitMapScheduler} {c i : Fin MAX_PARTITIONS} {r : ℕ}

theorem FrameStart.isSome (hs : FrameStart R s) (hi : i ∈ R) : (s.taskTable i).isSome := by
  rw [← stateAt_isSome]
  by_cases hc : i = s.currentPartitionIdx
  · rw [hc, hs.running]
    rfl
  · rw [hs.ready i hi hc]
    rfl

theorem slotState_start (hs : FrameStart R s) :
    slotState R s s.currentPartitionIdx (s.partitionDurations s.currentPartitionIdx) = s := by
  have htable : (slotState R s s.currentPartitionIdx
      (s.partitionDurations s.currentPartitionIdx)).taskTable = s.taskTable := by
    funext i
    simp only [slotState]
    split
    · rename_i hi
      obtain ⟨tcb, htcb⟩ := Option.isSome_iff_exists.mp (hs.isSome hi)
      have hst : s.stateAt i = some (if i = s.currentPartitionIdx then .running else .ready) := by
        by_cases hc : i = s.currentPartitionIdx
        · rw [if_pos hc, hc, hs.running]
        · rw [if_neg hc, hs.ready i hi hc]
      have hstate : tcb.state = if i = s.currentPartitionIdx then .running else .ready := by
        simpa [stateAt, htcb] using hst
      rw [htcb, Option.map_some, ← hstate]
    · rfl
  have hbudget := hs.budget
  cases s with
  | mk table cur dur rem =>
    simp only [slotState] at htable hbudget ⊢
    rw [htable, hbudget]

theorem stateAt_slotState_of_mem (hs : FrameStart R s) (hi : i ∈ R) :
    (slotState R s c r).stateAt i = some (if i = c then .running else .ready) := by
  obtain ⟨tcb, htcb⟩ := Option.isSome_iff_exists.mp (hs.isSome hi)
  simp [stateAt, slotState, hi, htcb]

theorem stateAt_slotState_of_notMem (hi : i ∉ R) : (slotState R s c r).stateAt i = s.stateAt i := by
  simp [stateAt, slotState, hi]

/-- The next slot belongs to the member that follows in cyclic order. -/
theorem selectNext_slotState (hs : FrameStart R s) (hc : c ∈ R) :
    (slotState R s c r).selectNext = some (follow (· ∈ R) c) ∧ follow (· ∈ R) c ≠ c := by
  obtain ⟨j, hj, hjc⟩ := Finset.exists_mem_ne hs.two c
  have hnext := next_eq_follow (p := fun i => decide (i ∈ R)) (decide_eq_true hc) c
  obtain ⟨hmem, hmin⟩ := next_eq_some_iff.mp hnext
  have hmem : follow (· ∈ R) c ∈ R := of_decide_eq_true hmem
  have hne : follow (· ∈ R) c ≠ c := by
    -- `c` itself is the last slot of the scan, and `j` comes before it
    intro he
    have hle := hmin j (decide_eq_true hj)
    rw [he] at hle
    have hlt : gap c j < gap c c := by
      have hjc' : j.val ≠ c.val := fun h => hjc (Fin.ext h)
      have := j.isLt
      have := c.isLt
      unfold gap
      split_ifs <;> omega
    omega
  have hready : ∀ i, i ∈ R → i ≠ c → (slotState R s c r).readyNotIdle i = true := by
    intro i hi hic
    rw [readyNotIdle_iff, stateAt_slotState_of_mem hs hi, if_neg hic]
    exact ⟨fun h => hs.notIdle (h ▸ hi), rfl⟩
  have honly : ∀ i, (slotState R s c r).readyNotIdle i = true → i ∈ R := by
    intro i hi
    rw [readyNotIdle_iff] at hi
    by_contra hno
    rw [stateAt_slotState_of_notMem hno] at hi
    exact (hs.outside i hno hi.1).1 hi.2
  refine ⟨?_, hne⟩
  have hj31 : j ≠ 31 := fun h => hs.notIdle (h ▸ hj)
  have hjready : (slotState R s c r).stateAt j = some .ready := by
    rw [stateAt_slotState_of_mem hs hj, if_neg hjc]
  rw [selectNext_of_ready hj31 hjready]
  show next (slotState R s c r).readyNotIdle c = _
  rw [next_eq_some_iff]
  exact ⟨hready _ hmem hne, fun i hi => hmin i (decide_eq_true (honly i hi))⟩

theorem currentRunnable_slotState (hs : FrameStart R s) (hc : c ∈ R) :
    (slotState R s c r).currentRunnable = true := by
  have hrun : (slotState R s c r).stateAt c = some .running := by
    rw [stateAt_slotState_of_mem hs hc, if_pos rfl]
  have hcur : (slotState R s c r).currentPartitionIdx = c := rfl
  simp [currentRunnable, hcur, hrun]

/-! ## One tick -/

theorem spendTick_slotState (hr : 1 ≤ r) :
    (slotState R s c r).spendTick true = slotState R s c (r - 1) := by
  have hpos : 0 < r := hr
  simp [spendTick, slotState, hpos]

theorem schedule_within_slot (hs : FrameStart R s) (hc : c ∈ R) (hr : 2 ≤ r) :
    ((slotState R s c r).schedule true).1 = slotState R s c (r - 1) := by
  have hno : ¬ (slotState R s c r).Triggers true := by
    rintro (h0 | hf | hrun)
    · rw [spendTick_slotState (by omega)] at h0
      have h0' : r - 1 = 0 := h0
      omega
    · cases hf
    · rw [currentRunnable_slotState hs hc] at hrun
      cases hrun
  rcases schedule_stays_or_swaps (slotState R s c r) true with ⟨q, hq, hwhy⟩ | ⟨_, ht, -⟩
  · rcases hwhy with ⟨-, hq'⟩ | ⟨ht, -⟩
    · rw [spendTick_slotState (by omega)] at hq'
      rw [hq, hq']
      rfl
    · exact absurd ht hno
  · exact absurd ht hno

theorem swapTo_slotState {q : ℕ} {d : Fin MAX_PARTITIONS} (hc : c ∈ R) (hd : d ∈ R)
    (hs : FrameStart R s) (hne : d ≠ c) :
    (slotState R s c q).swapTo d = slotState R s d (s.partitionDurations d) := by
  have htable : ((slotState R s c q).swapTo d).taskTable =
      (slotState R s d (s.partitionDurations d)).taskTable := by
    funext i
    have hrun : ((slotState R s c q).enterSlot d).stateAt c = some .running := by
      have h := stateAt_slotState_of_mem (c := c) (r := q) hs hc
      rw [if_pos rfl] at h
      exact h
    have hcur : (slotState R s c q).currentPartitionIdx = c := rfl
    rw [swapTo, hcur, releaseSlot, if_pos hrun]
    simp only [BitMapScheduler.setState, enterSlot, slotState]
    by_cases hid : i = d
    · subst hid
      rw [Function.update_self, Function.update_of_ne hne]
      simp [hd, Function.comp_def]
    · rw [Function.update_of_ne hid]
      by_cases hic : i = c
      · subst hic
        rw [Function.update_self]
        simp [hc, hid, Function.comp_def]
      · rw [Function.update_of_ne hic]
        simp [hid, hic]
  have hdur : ((slotState R s c q).swapTo d).partitionDurations = s.partitionDurations := by simp [slotState]
  have hrem : ((slotState R s c q).swapTo d).remainingMifTicks = s.partitionDurations d := by
    simp [slotState]
  have hcur : ((slotState R s c q).swapTo d).currentPartitionIdx = d := by simp
  generalize (slotState R s c q).swapTo d = u at htable hdur hrem hcur
  cases u with
  | mk table cur dur rem =>
    simp only at htable hdur hrem hcur
    rw [htable, hdur, hrem, hcur]
    rfl

theorem schedule_end_of_slot (hs : FrameStart R s) (hc : c ∈ R) :
    ((slotState R s c 1).schedule true).1 =
      slotState R s (follow (· ∈ R) c) (s.partitionDurations (follow (· ∈ R) c)) := by
  obtain ⟨hsel, hne⟩ := selectNext_slotState (r := 1) hs hc
  have ht : (slotState R s c 1).Triggers true := Or.inl (by rw [spendTick_slotState le_rfl]; rfl)
  have hmem : follow (· ∈ R) c ∈ R :=
    of_decide_eq_true (follow_sat (p := fun i => decide (i ∈ R)) (decide_eq_true hc) c)
  rcases schedule_stays_or_swaps (slotState R s c 1) true with ⟨q, -, hwhy⟩ | ⟨d, -, hd, hfst, -⟩
  · rcases hwhy with ⟨hno, -⟩ | ⟨-, hnone⟩
    · exact absurd ht hno
    · rw [hsel] at hnone
      cases hnone
  · rw [hsel] at hd
    rw [hfst, ← Option.some.inj hd, spendTick_slotState le_rfl]
    exact swapTo_slotState hc hmem hs hne

end Slot

/-! ## One slot, and a sequence of slots -/

theorem afterTicks_add (s : BitMapScheduler) (k l : ℕ) :
    afterTicks s (k + l) = afterTicks (afterTicks s k) l := by
  rw [afterTicks, Nat.add_comm, Function.iterate_add_apply]
  rfl

theorem visits_add (s : BitMapScheduler) (k l : ℕ) :
    visits s (k + l) = visits s k ++ visits (afterTicks s k) l := by
  simp only [visits, List.range_add, List.map_append, List.map_map]
  congr 1
  apply List.map_congr_left
  intro i _
  simp only [Function.comp_apply, afterTicks_add]

section Frame
variable {R : Finset (Fin MAX_PARTITIONS)} {s : BitMapScheduler} {c : Fin MAX_PARTITIONS}

theorem afterTicks_within_slot (hs : FrameStart R s) (hc : c ∈ R) {k : ℕ}
    (hk : k < s.partitionDurations c) :
    afterTicks (slotState R s c (s.partitionDurations c)) k =
      slotState R s c (s.partitionDurations c - k) := by
  induction k with
  | zero => rfl
  | succ k ih =>
    rw [afterTicks_add, ih (by omega)]
    have hstep := schedule_within_slot hs hc (r := s.partitionDurations c - k) (by omega)
    have hr : s.partitionDurations c - k - 1 = s.partitionDurations c - (k + 1) := by omega
    rw [← hr]
    exact hstep

/-- A member keeps the core for its duration, then the next one has its whole duration left. -/
theorem slot_spec (hs : FrameStart R s) (hc : c ∈ R) :
    afterTicks (slotState R s c (s.partitionDurations c)) (s.partitionDurations c) =
        slotState R s (follow (· ∈ R) c) (s.partitionDurations (follow (· ∈ R) c)) ∧
      visits (slotState R s c (s.partitionDurations c)) (s.partitionDurations c) =
        List.replicate (s.partitionDurations c) c := by
  have hpos := hs.durations c hc
  constructor
  · have hlast := afterTicks_within_slot hs hc (k := s.partitionDurations c - 1) (by omega)
    have hone : s.partitionDurations c - (s.partitionDurations c - 1) = 1 := by omega
    have hsucc : s.partitionDurations c = s.partitionDurations c - 1 + 1 := by omega
    rw [hone] at hlast
    conv_lhs => rw [hsucc, afterTicks_add, ← hsucc, hlast]
    exact schedule_end_of_slot hs hc
  · rw [List.eq_replicate_iff]
    refine ⟨by simp [visits], fun i hi => ?_⟩
    obtain ⟨k, hk, rfl⟩ := List.mem_map.mp hi
    rw [afterTicks_within_slot hs hc (List.mem_range.mp hk)]
    rfl

/-- The slots of `c` and of the members that follow it, `T` in all. -/
theorem slots_spec (hs : FrameStart R s) (hc : c ∈ R) (T : ℕ) :
    afterTicks (slotState R s c (s.partitionDurations c))
        ((List.iterate (follow (· ∈ R)) c T).map s.partitionDurations).sum =
        slotState R s ((follow (· ∈ R))^[T] c) (s.partitionDurations ((follow (· ∈ R))^[T] c)) ∧
      visits (slotState R s c (s.partitionDurations c))
        ((List.iterate (follow (· ∈ R)) c T).map s.partitionDurations).sum =
        (List.iterate (follow (· ∈ R)) c T).flatMap
          fun i => List.replicate (s.partitionDurations i) i := by
  induction T generalizing c with
  | zero => exact ⟨rfl, rfl⟩
  | succ T ih =>
    have hmem : follow (· ∈ R) c ∈ R :=
      of_decide_eq_true (follow_sat (p := fun i => decide (i ∈ R)) (decide_eq_true hc) c)
    obtain ⟨hafter, hvisits⟩ := slot_spec hs hc
    obtain ⟨ihafter, ihvisits⟩ := ih hmem
    rw [List.iterate, List.map_cons, List.sum_cons, List.flatMap_cons]
    constructor
    · rw [afterTicks_add, hafter, ihafter, Function.iterate_succ_apply]
    · rw [visits_add, hafter, hvisits, ihvisits]

end Frame

/-! ## The whole frame -/

theorem count_flatMap_replicate {order : List (Fin MAX_PARTITIONS)} (hnodup : order.Nodup)
    {i : Fin MAX_PARTITIONS} (hi : i ∈ order) (d : Fin MAX_PARTITIONS → ℕ) :
    (order.flatMap fun j => List.replicate (d j) j).count i = d i := by
  induction order with
  | nil => cases hi
  | cons j order ih =>
    obtain ⟨hj, hnodup⟩ := List.nodup_cons.mp hnodup
    rw [List.flatMap_cons, List.count_append]
    rcases List.mem_cons.mp hi with rfl | hi
    · have hnone : (order.flatMap fun j => List.replicate (d j) j).count i = 0 := by
        rw [List.count_eq_zero, List.mem_flatMap]
        rintro ⟨j, hjo, hij⟩
        exact hj (List.eq_of_mem_replicate hij ▸ hjo)
      rw [hnone, List.count_replicate_self, Nat.add_zero]
    · have hij : j ≠ i := fun h => hj (h ▸ hi)
      rw [ih hnodup hi, List.count_replicate, if_neg (by simpa using hij), Nat.zero_add]

/-- Major-frame periodicity: after the sum of the durations of `R` ticks the scheduler is what it was,
the members were current in cyclic order for their durations, and idle never was. -/
theorem major_frame_periodic (R : Finset (Fin MAX_PARTITIONS)) (s : BitMapScheduler)
    (hs : FrameStart R s) :
    afterTicks s (∑ i ∈ R, s.partitionDurations i) = s ∧
    (∃ order : List (Fin MAX_PARTITIONS), order.Nodup ∧ (∀ i, i ∈ order ↔ i ∈ R) ∧
      order = List.iterate (follow (· ∈ R)) s.currentPartitionIdx R.card ∧
      visits s (∑ i ∈ R, s.partitionDurations i) =
        order.flatMap fun i => List.replicate (s.partitionDurations i) i) ∧
    (∀ i ∈ R, (visits s (∑ i ∈ R, s.partitionDurations i)).count i = s.partitionDurations i) ∧
    (31 ∉ visits s (∑ i ∈ R, s.partitionDurations i)) := by
  obtain ⟨hret, hnodup, hmem⟩ := turn_spec hs.current
  obtain ⟨hafter, hvisits⟩ := slots_spec hs hs.current R.card
  rw [slotState_start hs] at hafter hvisits
  rw [hret, slotState_start hs] at hafter
  generalize horder : List.iterate (follow (· ∈ R)) s.currentPartitionIdx R.card = order at *
  have hsum : (order.map s.partitionDurations).sum = ∑ i ∈ R, s.partitionDurations i := by
    have hset : order.toFinset = R := by
      ext i
      rw [List.mem_toFinset, hmem]
    rw [← hset, List.sum_toFinset _ hnodup]
  rw [hsum] at hafter hvisits
  refine ⟨hafter, ⟨order, hnodup, hmem, rfl, hvisits⟩, fun i hi => ?_, fun hin => ?_⟩
  · rw [hvisits]
    exact count_flatMap_replicate hnodup ((hmem i).mpr hi) _
  · rw [hvisits, List.mem_flatMap] at hin
    obtain ⟨i, hi, h31⟩ := hin
    have hi31 : 31 = i := List.eq_of_mem_replicate h31
    exact hs.notIdle (hi31 ▸ (hmem i).mp hi)

/-- Partitions 0 and 2 with durations 2 and 3, and idle. -/
def twoPartitions : BitMapScheduler where
  taskTable := fun i =>
    if i = 0 then some ⟨0, 0, 0, .running, "test", fun _ => .none⟩
    else if i = 2 then some ⟨0, 2, 2, .ready, "test", fun _ => .none⟩
    else if i = 31 then some ⟨0, 31, 31, .ready, "test", fun _ => .none⟩ else none
  currentPartitionIdx := 0
  partitionDurations := fun i => if i = 0 then 2 else 3
  remainingMifTicks := 2

theorem twoPartitions_start : FrameStart {0, 2} twoPartitions where
  two := by decide
  notIdle := by decide
  durations := by decide
  current := by decide
  running := rfl
  budget := rfl
  ready := by decide
  outside := by decide
  idle := Or.inr rfl

theorem major_frame_periodic_two :
    afterTicks twoPartitions 5 = twoPartitions ∧ visits twoPartitions 5 = [0, 0, 2, 2, 2] :=
  ⟨(major_frame_periodic {0, 2} twoPartitions twoPartitions_start).1, by decide +kernel⟩

end Cerberus.Scheduler
