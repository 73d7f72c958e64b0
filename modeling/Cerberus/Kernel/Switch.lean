import Cerberus.Kernel.Events
import Cerberus.Scheduler.Reference

/-! # The interrupted context

`schedule` picks among the `Ready` tasks of the hart, the current one included. A current task that is
not `Ready` when the handler calls it is not picked, so while it stays the current task the handler
returns to the frame of the trap. One that is `Ready` can be picked again, and then its old saved
stack pointer takes the place of the live one. -/
namespace Cerberus.Kernel
open Scheduler Sync Memory
set_option autoImplicit false

/-- If the current task of `v` stays the current one, the handler returns to the frame `userSp`. -/
def BackTo (h : Hart) (userSp : Word) (v : View) : Outcome → Prop
  | .ok (sp, k') => k'.current h = v.current h → sp = userSp
  | .error _ => True

section Handlers
variable {P : Platform} {h : Hart} {t : Trap} {k : Kernel} {v : View} {sp : Word}

/-- `schedule` picks a `Ready` task. -/
theorem switch_backTo {cycles : Word} {isTick : Bool}
    (hreg : ((view k).state ((view k).running h)).isSome)
    (hcur : (view k).current h = v.current h)
    (hready : (view k).state ((view k).running h) ≠ some .ready) :
    BackTo h sp v (.ok (switchTask P h cycles isTick sp k)) := by
  have hreg' := current_registered hreg
  rcases BitMapScheduler.schedule_cases (b := isTick) hreg' with
    ⟨r, hsched, -⟩ | ⟨n, tcb, -, hsel, htcb, hsched⟩
  · intro _
    simp only [hsched]
  · intro hsame
    have hcur' : (k.scheds h).currentPartitionIdx = v.current h := hcur
    simp only [hsched, BitMapScheduler.swapTo_currentPartitionIdx, htcb] at hsame
    have hn : n = (k.scheds h).currentPartitionIdx := by
      rw [← hcur'] at hsame
      simpa [Kernel.current, Kernel.setPmp] using hsame
    rw [hn] at hsel
    exact absurd (BitMapScheduler.stateAt_of_selectNext hsel) hready

/-- Every trap. -/
theorem trap_backTo (hk : Sound k)
    (hready : ((effect k h t).apply h (view k)).state ((view k).running h) ≠ some .ready) :
    BackTo h t.userSp (view k) (trapHandler P h t k) := by
  have hends := trap_ends (P := P) (h := h) (t := t) hk
  generalize trapHandler P h t k = o at hends
  cases hends with
  | stays _ _ _ => exact fun _ => rfl
  | @switches isTick k1 k' hsw hview hbudget htrace hcur hlogged =>
    have hsame : (view k1).current h = (view k).current h := current_of_apply hview
    have hswitch : BackTo h t.userSp (view k) (.ok (switchTask P h t.cycles isTick t.userSp k1)) := by
      refine switch_backTo (registered_of_apply hk hview) hsame ?_
      rw [View.running, hsame, hview]
      exact hready
    exact fun hback => hswitch (hcur.symm.trans hback)
  | copyFault _ => trivial
  | stops _ => trivial

end Handlers

/-! ## No context is lost -/

def savedSpAt (s : BitMapScheduler) (i : Fin MAX_PARTITIONS) : Option Word :=
  (s.taskTable i).map TaskControlBlock.savedSp

/-- `s` and the live stack pointer `sp` have become `s'` and `sp'` without losing a context: the live
one goes on, or it is saved in its slot and the new partition's saved one becomes live. -/
def ContextsKept (s s' : BitMapScheduler) (sp sp' : Word) : Prop :=
  (s'.currentPartitionIdx = s.currentPartitionIdx → sp' = sp) ∧
    (s'.currentPartitionIdx ≠ s.currentPartitionIdx →
      savedSpAt s' s.currentPartitionIdx = some sp ∧
        savedSpAt s s'.currentPartitionIdx = some sp' ∧
        ∀ i, i ≠ s.currentPartitionIdx → savedSpAt s' i = savedSpAt s i)

/-- The call reschedules, the current slot is `Ready`, and no other slot comes before it: none is
`Ready` but perhaps the idle partition 31. -/
def ComesBack (s : BitMapScheduler) (isTick : Bool) : Prop :=
  (isTick = false ∨ s.remainingMifTicks ≤ 1) ∧ s.stateAt s.currentPartitionIdx = some .ready ∧
    ∀ i, i ≠ s.currentPartitionIdx → s.stateAt i = some .ready →
      s.currentPartitionIdx ≠ 31 ∧ i = 31

instance (s : BitMapScheduler) (isTick : Bool) : Decidable (ComesBack s isTick) :=
  inferInstanceAs (Decidable (_ ∧ _ ∧ _))

section Contexts
variable {s : BitMapScheduler} {isTick : Bool}

theorem comesBack_iff :
    ComesBack s isTick ↔ s.Triggers isTick ∧ s.selectNext = some s.currentPartitionIdx := by
  rw [BitMapScheduler.selectNext_eq_pickNext, BitMapScheduler.pickNext_self_iff]
  simp only [decide_eq_true_eq]
  unfold ComesBack
  refine and_congr_left fun hback => ?_
  rw [← not_iff_not, BitMapScheduler.not_triggers_iff]
  have hrun : s.ReadyOrRunning s.currentPartitionIdx := Or.inl hback.1
  unfold BitMapScheduler.remainingAfter
  cases isTick with
  | false => simp
  | true =>
    simp only [Bool.true_eq_false, false_or, true_and, hrun, and_true]
    split <;> omega

theorem savedSpAt_handedOver (c n i : Fin MAX_PARTITIONS) :
    (s.handedOver c n i).map TaskControlBlock.savedSp = savedSpAt s i := by
  unfold BitMapScheduler.handedOver savedSpAt
  rw [Option.map_map]
  congr 1
  funext tcb
  simp only [Function.comp_apply]
  split_ifs <;> rfl

theorem savedSpAt_setSavedSp (c i : Fin MAX_PARTITIONS) (sp : Word) :
    savedSpAt (s.setSavedSp c sp) i =
      if i = c then (s.taskTable i).map (fun _ => sp) else savedSpAt s i := by
  unfold savedSpAt BitMapScheduler.setSavedSp
  by_cases h : i = c
  · subst h
    simp only [Function.update_self, if_true, Option.map_map]
    rfl
  · simp [h]

variable {h : Hart} {k : Kernel}

/-- Either the context goes on, or it is saved in its slot and the saved one of the slot found is
loaded, as it was before the call. -/
theorem switchTask_cases (P : Platform) (cycles : Word) (isTick : Bool) (sp : Word)
    (hreg : ((k.scheds h).taskTable (k.scheds h).currentPartitionIdx).isSome) :
    (¬ ((k.scheds h).Triggers isTick ∧ (k.scheds h).selectNext ≠ none) ∧
      ((switchTask P h cycles isTick sp k).2.scheds h).currentPartitionIdx =
        (k.scheds h).currentPartitionIdx ∧ (switchTask P h cycles isTick sp k).1 = sp) ∨
    (∃ n, (k.scheds h).Triggers isTick ∧ (k.scheds h).selectNext = some n ∧
      ((switchTask P h cycles isTick sp k).2.scheds h).currentPartitionIdx = n ∧
      savedSpAt (k.scheds h) n = some (switchTask P h cycles isTick sp k).1 ∧
      savedSpAt ((switchTask P h cycles isTick sp k).2.scheds h) (k.scheds h).currentPartitionIdx =
        some sp ∧
      ∀ i, i ≠ (k.scheds h).currentPartitionIdx →
        savedSpAt ((switchTask P h cycles isTick sp k).2.scheds h) i = savedSpAt (k.scheds h) i) := by
  rcases BitMapScheduler.schedule_eq isTick hreg with
    ⟨hnot, hsched⟩ | ⟨ht, hsel, hsched⟩ | ⟨n, tcb, ht, hsel, htcb, hsched⟩
  · refine Or.inl ⟨fun ht => hnot ht.1, ?_, ?_⟩ <;> simp [switchTask, hsched, Kernel.setSched]
  · refine Or.inl ⟨fun ht => ht.2 hsel, ?_, ?_⟩ <;> simp [switchTask, hsched, Kernel.setSched]
  · have hnew : (k.scheds h).handedOver (k.scheds h).currentPartitionIdx n n =
        some { tcb with state := .running } := by
      simp [BitMapScheduler.handedOver, htcb]
    have hsaved : ∀ i, ((k.scheds h).handedOver (k.scheds h).currentPartitionIdx n i).map
        TaskControlBlock.savedSp = savedSpAt (k.scheds h) i := savedSpAt_handedOver _ _
    refine Or.inr ⟨n, ht, hsel, ?_, ?_, ?_, fun i hi => ?_⟩
    · simp [switchTask, hsched, hnew, Kernel.setSched, Kernel.setPmp]
    · simp [switchTask, hsched, hnew, savedSpAt, htcb]
    · obtain ⟨old, hold⟩ := Option.isSome_iff_exists.mp hreg
      simp only [switchTask, hsched, hnew, Kernel.setSched, Kernel.setPmp, Function.update_self,
        savedSpAt_setSavedSp, if_true]
      simp [BitMapScheduler.handedOver, hold]
    · simp only [switchTask, hsched, hnew, Kernel.setSched, Kernel.setPmp, Function.update_self,
        savedSpAt_setSavedSp, if_neg hi]
      exact hsaved i

/-- A switch loses no context unless the search comes back to the current slot, whose saved stack
pointer is not the live one. -/
theorem switchTask_contextsKept_iff (P : Platform) (h : Hart) (cycles : Word) (isTick : Bool)
    (sp : Word) (k : Kernel)
    (hreg : ((k.scheds h).taskTable (k.scheds h).currentPartitionIdx).isSome) :
    ContextsKept (k.scheds h) ((switchTask P h cycles isTick sp k).2.scheds h) sp
        (switchTask P h cycles isTick sp k).1 ↔
      ¬ (ComesBack (k.scheds h) isTick ∧
        savedSpAt (k.scheds h) (k.scheds h).currentPartitionIdx ≠ some sp) := by
  rw [comesBack_iff]
  rcases switchTask_cases P cycles isTick sp hreg with
    ⟨hnot, hcur, hsp⟩ | ⟨n, ht, hsel, hcur, hload, hsave, hothers⟩
  · refine iff_of_true ⟨fun _ => hsp, fun hne => absurd hcur hne⟩ ?_
    rintro ⟨⟨ht, hsel⟩, -⟩
    exact hnot ⟨ht, by rw [hsel]; exact Option.some_ne_none _⟩
  · by_cases hn : n = (k.scheds h).currentPartitionIdx
    · rw [hsel, hn]
      rw [hn] at hload hcur
      constructor
      · rintro hkept ⟨-, hne⟩
        exact hne (by rw [hload, hkept.1 hcur])
      · intro hback
        refine ⟨fun _ => ?_, fun hne => absurd hcur hne⟩
        by_contra hne
        refine hback ⟨⟨ht, rfl⟩, ?_⟩
        rw [hload]
        exact fun he => hne (Option.some.inj he)
    · refine iff_of_true ⟨fun he => absurd (hcur.symm.trans he) hn, fun _ => ?_⟩ ?_
      · exact ⟨hsave, by rw [hcur]; exact hload, hothers⟩
      · rintro ⟨⟨-, hsel'⟩, -⟩
        exact hn (Option.some.inj (hsel.symm.trans hsel'))

/-- The boot kernel with the benchmarks' table on hart 0. -/
def benchmarkKernel (numTasks : ℕ) : Kernel :=
  bootSystem.kernel.setSched 0 (BitMapScheduler.benchmarkScheduler numTasks)

theorem switchTask_contextsKept_benchmark :
    ContextsKept (BitMapScheduler.benchmarkScheduler 2)
      ((switchTask packedPlatform 0 0#32 false 0x80000000#32 (benchmarkKernel 2)).2.scheds 0)
      0x80000000#32 (switchTask packedPlatform 0 0#32 false 0x80000000#32 (benchmarkKernel 2)).1 :=
  (switchTask_contextsKept_iff packedPlatform 0 0#32 false 0x80000000#32 (benchmarkKernel 2)
    (by decide)).mpr (by decide)

/-- One `Ready` task alone: a yield leaves it current and loads its old stack pointer. -/
theorem switchTask_loses_live_context :
    ((BitMapScheduler.benchmarkScheduler 1).taskTable
        (BitMapScheduler.benchmarkScheduler 1).currentPartitionIdx).isSome = true ∧
      (switchTask packedPlatform 0 0#32 false 0x80000000#32 (benchmarkKernel 1)).1 = 0x1000#32 ∧
      ¬ ContextsKept (BitMapScheduler.benchmarkScheduler 1)
        ((switchTask packedPlatform 0 0#32 false 0x80000000#32 (benchmarkKernel 1)).2.scheds 0)
        0x80000000#32 (switchTask packedPlatform 0 0#32 false 0x80000000#32 (benchmarkKernel 1)).1 := by
  refine ⟨by decide, by decide, fun hkept => ?_⟩
  have hsp := hkept.1 (by decide)
  revert hsp
  decide

end Contexts

end Cerberus.Kernel
