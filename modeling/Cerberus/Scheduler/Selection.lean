import Cerberus.Scheduler.Bitmap

/-! # What one call of `schedule` does

The small lemmas beside the scheduler's updates, and `schedule_cases`: a call either leaves the
table and the current partition alone, or swaps to the partition `selectNext` names. Everything
later about the scheduler is derived from these. -/
namespace Cerberus.Scheduler.BitMapScheduler
open CyclicScan
set_option autoImplicit false

variable (s : BitMapScheduler) (i j n : Fin MAX_PARTITIONS) (st : TaskState) (b : Bool) (sp : Word)

/-! ## Field lemmas -/

@[simp] theorem setState_currentPartitionIdx :
    (s.setState i st).currentPartitionIdx = s.currentPartitionIdx := rfl

@[simp] theorem setState_partitionDurations :
    (s.setState i st).partitionDurations = s.partitionDurations := rfl

@[simp] theorem setState_remainingMifTicks :
    (s.setState i st).remainingMifTicks = s.remainingMifTicks := rfl

@[simp] theorem setSavedSp_currentPartitionIdx :
    (s.setSavedSp i sp).currentPartitionIdx = s.currentPartitionIdx := rfl

@[simp] theorem setState_isSome :
    ((s.setState i st).taskTable j).isSome = (s.taskTable j).isSome := by
  by_cases h : j = i
  · subst h
    simp [setState]
  · simp [setState, Function.update_of_ne h]

theorem stateAt_isSome : (s.stateAt i).isSome = (s.taskTable i).isSome := by simp [stateAt]

theorem stateAt_setState :
    (s.setState i st).stateAt j =
      if j = i then (s.stateAt i).map (fun _ => st) else s.stateAt j := by
  by_cases h : j = i
  · subst h
    simp only [stateAt, setState, Function.update_self, if_true, Option.map_map]
    rfl
  · simp [stateAt, setState, h]

@[simp] theorem stateAt_setSavedSp : (s.setSavedSp i sp).stateAt j = s.stateAt j := by
  by_cases h : j = i
  · subst h
    simp only [stateAt, setSavedSp, Function.update_self, Option.map_map]
    rfl
  · simp [stateAt, setSavedSp, Function.update_of_ne h]

@[simp] theorem spendTick_taskTable : (s.spendTick b).taskTable = s.taskTable := by
  unfold spendTick
  split <;> rfl

@[simp] theorem spendTick_currentPartitionIdx :
    (s.spendTick b).currentPartitionIdx = s.currentPartitionIdx := by
  unfold spendTick
  split <;> rfl

@[simp] theorem spendTick_partitionDurations :
    (s.spendTick b).partitionDurations = s.partitionDurations := by
  unfold spendTick
  split <;> rfl

@[simp] theorem stateAt_spendTick : (s.spendTick b).stateAt i = s.stateAt i := by simp [stateAt]

theorem spendTick_remainingMifTicks :
    (s.spendTick b).remainingMifTicks = s.remainingMifTicks - (if b then 1 else 0) := by
  cases b with
  | false => rfl
  | true =>
    unfold spendTick
    by_cases h : 0 < s.remainingMifTicks
    · simp [h]
    · simp [h]
      omega

@[simp] theorem currentRunnable_spendTick : (s.spendTick b).currentRunnable = s.currentRunnable := by
  simp [currentRunnable]

@[simp] theorem selectNext_spendTick : (s.spendTick b).selectNext = s.selectNext := by
  have h : (s.spendTick b).readyNotIdle = s.readyNotIdle := by
    funext k
    simp [readyNotIdle]
  simp [selectNext, h]

/-! ## The swap -/

@[simp] theorem releaseSlot_currentPartitionIdx :
    (s.releaseSlot i).currentPartitionIdx = s.currentPartitionIdx := by
  unfold releaseSlot
  split <;> rfl

@[simp] theorem releaseSlot_partitionDurations :
    (s.releaseSlot i).partitionDurations = s.partitionDurations := by
  unfold releaseSlot
  split <;> rfl

@[simp] theorem releaseSlot_remainingMifTicks :
    (s.releaseSlot i).remainingMifTicks = s.remainingMifTicks := by
  unfold releaseSlot
  split <;> rfl

@[simp] theorem releaseSlot_isSome :
    ((s.releaseSlot i).taskTable j).isSome = (s.taskTable j).isSome := by
  unfold releaseSlot
  split <;> simp

theorem stateAt_releaseSlot :
    (s.releaseSlot i).stateAt j =
      if j = i ∧ s.stateAt i = some .running then some .ready else s.stateAt j := by
  unfold releaseSlot
  by_cases h : s.stateAt i = some .running
  · rw [if_pos h, stateAt_setState]
    by_cases hji : j = i
    · simp [hji, h]
    · simp [hji]
  · simp [h]

@[simp] theorem swapTo_currentPartitionIdx : (s.swapTo n).currentPartitionIdx = n := by
  simp [swapTo, enterSlot]

@[simp] theorem swapTo_partitionDurations :
    (s.swapTo n).partitionDurations = s.partitionDurations := by
  simp [swapTo, enterSlot]

@[simp] theorem swapTo_remainingMifTicks :
    (s.swapTo n).remainingMifTicks = s.partitionDurations n := by
  simp [swapTo, enterSlot]

@[simp] theorem swapTo_isSome : ((s.swapTo n).taskTable i).isSome = (s.taskTable i).isSome := by
  simp [swapTo, enterSlot]

/-- After a swap the new partition runs, the old one is ready if it ran, and no other state
changed. -/
theorem stateAt_swapTo :
    (s.swapTo n).stateAt i =
      if i = n then (s.stateAt n).map (fun _ => .running)
      else if i = s.currentPartitionIdx ∧ s.stateAt i = some .running then some .ready
      else s.stateAt i := by
  have he : ∀ k, (s.enterSlot n).stateAt k = s.stateAt k := fun _ => rfl
  unfold swapTo
  rw [stateAt_setState]
  by_cases hin : i = n
  · subst hin
    simp only [stateAt_releaseSlot, he, if_true]
    by_cases hr : i = s.currentPartitionIdx ∧ s.stateAt s.currentPartitionIdx = some .running
    · rw [if_pos hr, hr.1, hr.2]
      rfl
    · rw [if_neg hr]
  · simp only [stateAt_releaseSlot, he, if_neg hin]
    by_cases hic : i = s.currentPartitionIdx
    · subst hic
      rfl
    · simp [hic]

/-! ## Selection -/

theorem readyNotIdle_iff : s.readyNotIdle i = true ↔ i ≠ 31 ∧ s.stateAt i = some .ready := by
  simp [readyNotIdle]

variable {s i j n b}

theorem stateAt_of_selectNext (h : s.selectNext = some n) : s.stateAt n = some .ready := by
  unfold selectNext at h
  split at h
  · rename_i nextIdx hn
    have hp := (next_eq_some_iff.mp hn).1
    rw [readyNotIdle_iff] at hp
    have : nextIdx = n := by simpa using h
    exact this ▸ hp.2
  · split at h
    · rename_i h31
      have : (31 : Fin MAX_PARTITIONS) = n := by simpa using h
      exact this ▸ h31
    · cases h

/-- Nothing is selected exactly when no slot is `Ready`. -/
theorem selectNext_eq_none_iff : s.selectNext = none ↔ ∀ k, s.stateAt k ≠ some .ready := by
  unfold selectNext
  split
  · rename_i nextIdx hn
    have hp := (next_eq_some_iff.mp hn).1
    rw [readyNotIdle_iff] at hp
    simp only [reduceCtorEq, false_iff, not_forall, not_not]
    exact ⟨nextIdx, hp.2⟩
  · rename_i hn
    rw [next_eq_none_iff] at hn
    split
    · rename_i h31
      simp only [reduceCtorEq, false_iff, not_forall, not_not]
      exact ⟨31, h31⟩
    · rename_i h31
      simp only [true_iff]
      intro k hk
      by_cases hk31 : k = 31
      · exact h31 (hk31 ▸ hk)
      · have := (readyNotIdle_iff s k).mpr ⟨hk31, hk⟩
        rw [hn k] at this
        cases this

/-- What the two passes find among the slots that `ready` accepts. -/
def pickNext (ready : Fin MAX_PARTITIONS → Bool) (currentIdx : Fin MAX_PARTITIONS) :
    Option (Fin MAX_PARTITIONS) :=
  match next (fun i => decide (i ≠ 31) && ready i) currentIdx with
  | some nextIdx => some nextIdx
  | none => if ready 31 then some 31 else none

theorem selectNext_eq_pickNext (s : BitMapScheduler) :
    s.selectNext = pickNext (fun i => s.stateAt i = some .ready) s.currentPartitionIdx := by
  have hready : s.readyNotIdle = fun i => decide (i ≠ 31) && decide (s.stateAt i = some .ready) := by
    funext i
    simp [readyNotIdle]
  unfold selectNext pickNext
  rw [hready]
  cases next (fun i => decide (i ≠ 31) && decide (s.stateAt i = some .ready))
      s.currentPartitionIdx with
  | some nextIdx => rfl
  | none => simp only [decide_eq_true_eq]

theorem pickNext_sat {ready : Fin MAX_PARTITIONS → Bool} {c : Fin MAX_PARTITIONS}
    (h : pickNext ready c = some n) : ready n = true := by
  unfold pickNext at h
  split at h
  · rename_i nextIdx hn
    obtain rfl := Option.some.inj h
    exact (Bool.and_eq_true_iff.mp (next_eq_some_iff.mp hn).1).2
  · split at h
    · rename_i h31
      obtain rfl := Option.some.inj h
      exact h31
    · cases h

/-- The search comes back to its start when that slot is `Ready` and no other one is, but perhaps the
idle partition 31. -/
theorem pickNext_self_iff {ready : Fin MAX_PARTITIONS → Bool} {c : Fin MAX_PARTITIONS} :
    pickNext ready c = some c ↔
      ready c = true ∧ ∀ i, i ≠ c → ready i = true → c ≠ 31 ∧ i = 31 := by
  have hpass : ∀ i, (decide (i ≠ 31) && ready i) = true ↔ i ≠ 31 ∧ ready i = true := by
    simp
  constructor
  · intro h
    refine ⟨pickNext_sat h, fun i hi hr => ?_⟩
    by_cases h31 : i = 31
    · exact ⟨fun hc => hi (h31.trans hc.symm), h31⟩
    · unfold pickNext at h
      split at h
      · rename_i nextIdx hn
        rw [Option.some.inj h, next_self_iff] at hn
        exact absurd (hn.2 i ((hpass i).mpr ⟨h31, hr⟩)) hi
      · rename_i hn
        have hno := next_eq_none_iff.mp hn i
        rw [(hpass i).mpr ⟨h31, hr⟩] at hno
        cases hno
  · rintro ⟨hc, hothers⟩
    unfold pickNext
    by_cases h31 : c = 31
    · have hno : next (fun i => decide (i ≠ 31) && ready i) c = none := by
        refine next_eq_none_iff.mpr fun i => Bool.eq_false_iff.mpr fun hi => ?_
        obtain ⟨hi31, hr⟩ := (hpass i).mp hi
        exact (hothers i (fun he => hi31 (he.trans h31)) hr).1 h31
      simp only [hno]
      rw [← h31, if_pos hc]
    · have hself : next (fun i => decide (i ≠ 31) && ready i) c = some c := by
        refine next_self_iff.mpr ⟨(hpass c).mpr ⟨h31, hc⟩, fun i hi => ?_⟩
        obtain ⟨hi31, hr⟩ := (hpass i).mp hi
        by_contra hne
        exact hi31 (hothers i hne hr).2
      simp only [hself]

/-- While a partition `j` other than 31 is `Ready`, pass 1 decides. -/
theorem selectNext_of_ready (hj : j ≠ 31) (hr : s.stateAt j = some .ready) :
    s.selectNext = next s.readyNotIdle s.currentPartitionIdx := by
  unfold selectNext
  split
  · rename_i hn
    exact hn.symm
  · rename_i hn
    have := (readyNotIdle_iff s j).mpr ⟨hj, hr⟩
    rw [next_eq_none_iff.mp hn j] at this
    cases this

/-! ## One call -/

def Triggers (s : BitMapScheduler) (isTick : Bool) : Prop :=
  (s.spendTick isTick).remainingMifTicks = 0 ∨ isTick = false ∨ s.currentRunnable = false

/-- A call stays on the current partition, or swaps to the one `selectNext` names; the two `?` of the
source decide what it returns after a swap. -/
theorem schedule_stays_or_swaps (s : BitMapScheduler) (b : Bool) :
    (∃ r, s.schedule b = ({ s with remainingMifTicks := r }, none) ∧
      ((¬ s.Triggers b ∧ r = (s.spendTick b).remainingMifTicks) ∨
        (s.Triggers b ∧ s.selectNext = none))) ∨
    (∃ nextIdx, s.Triggers b ∧ s.selectNext = some nextIdx ∧
      (s.schedule b).1 = (s.spendTick b).swapTo nextIdx ∧
      ∀ old new, (s.schedule b).1.taskTable s.currentPartitionIdx = some old →
        (s.schedule b).1.taskTable nextIdx = some new →
        (s.schedule b).2 = some (s.currentPartitionIdx, new.savedSp)) := by
  have hspend : ∀ r, { s.spendTick b with remainingMifTicks := r } =
      { s with remainingMifTicks := r } := by
    intro r
    unfold spendTick
    split <;> rfl
  by_cases ht : s.Triggers b
  · have ht' : (s.spendTick b).remainingMifTicks = 0 ∨ b = false ∨
        (s.spendTick b).currentRunnable = false := by
      simpa [Triggers] using ht
    cases hn : s.selectNext with
    | none =>
      refine Or.inl ?_
      unfold schedule
      simp only [if_pos ht', selectNext_spendTick, hn]
      split
      · exact ⟨_, Prod.ext (hspend _) rfl, Or.inr ⟨ht, trivial⟩⟩
      · exact ⟨_, Prod.ext (hspend (s.spendTick b).remainingMifTicks) rfl, Or.inr ⟨ht, trivial⟩⟩
    | some nextIdx =>
      have hfst : (s.schedule b).1 = (s.spendTick b).swapTo nextIdx := by
        unfold schedule
        simp only [if_pos ht', selectNext_spendTick, hn]
        split <;> rfl
      refine Or.inr ⟨nextIdx, ht, rfl, hfst, ?_⟩
      intro old new hold hnew
      rw [hfst] at hold hnew
      unfold schedule
      simp only [if_pos ht', selectNext_spendTick, hn, spendTick_currentPartitionIdx, hold, hnew]
  · refine Or.inl ⟨(s.spendTick b).remainingMifTicks, ?_, Or.inl ⟨ht, rfl⟩⟩
    have ht' : ¬ ((s.spendTick b).remainingMifTicks = 0 ∨ b = false ∨
        (s.spendTick b).currentRunnable = false) := by
      simpa [Triggers] using ht
    unfold schedule
    simp only [if_neg ht']
    exact Prod.ext (hspend _) rfl

/-- A call with a registered current slot stays or swaps. -/
theorem schedule_cases (hreg : (s.taskTable s.currentPartitionIdx).isSome) :
    (∃ r, s.schedule b = ({ s with remainingMifTicks := r }, none) ∧
      ((¬ s.Triggers b ∧ r = (s.spendTick b).remainingMifTicks) ∨
        (s.Triggers b ∧ s.selectNext = none))) ∨
    (∃ nextIdx tcb, s.Triggers b ∧ s.selectNext = some nextIdx ∧
      ((s.spendTick b).swapTo nextIdx).taskTable nextIdx = some tcb ∧
      s.schedule b = ((s.spendTick b).swapTo nextIdx, some (s.currentPartitionIdx, tcb.savedSp))) := by
  rcases schedule_stays_or_swaps s b with hstay | ⟨nextIdx, ht, hn, hfst, hsnd⟩
  · exact Or.inl hstay
  · have hnext : (((s.spendTick b).swapTo nextIdx).taskTable nextIdx).isSome := by
      rw [swapTo_isSome, spendTick_taskTable, ← stateAt_isSome, stateAt_of_selectNext hn]
      rfl
    have hold : (((s.spendTick b).swapTo nextIdx).taskTable s.currentPartitionIdx).isSome := by
      rw [swapTo_isSome, spendTick_taskTable]
      exact hreg
    obtain ⟨tcb, htcb⟩ := Option.isSome_iff_exists.mp hnext
    obtain ⟨old, hold'⟩ := Option.isSome_iff_exists.mp hold
    exact Or.inr ⟨nextIdx, tcb, ht, hn, htcb,
      Prod.ext hfst (hsnd old tcb (hfst ▸ hold') (hfst ▸ htcb))⟩

end Cerberus.Scheduler.BitMapScheduler
