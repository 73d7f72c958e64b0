import Cerberus.Kernel.View
import Cerberus.Scheduler.Selection

/-! # The trap handler refines the abstract kernel

Whenever a trap handler returns, the view of the kernel has changed by the trap's effect. One lemma
for each piece of the handler; `trap_leads` puts them together. The kernel is `Indexed`: tasks are
stored under their priority, and only registered tasks run and wait. -/
namespace Cerberus.Kernel
open Scheduler Sync Memory
set_option autoImplicit false

/-! ## The static part of the task table -/

section Statics
variable (s : BitMapScheduler) (i j n : Fin MAX_PARTITIONS) (st : TaskState) (sp : Word)

def statics (s : BitMapScheduler) (i : Fin MAX_PARTITIONS) : Option Static :=
  (s.taskTable i).map static

@[simp] theorem statics_setState : statics (s.setState i st) j = statics s j := by
  by_cases h : j = i
  · subst h
    simp only [statics, BitMapScheduler.setState, Function.update_self, Option.map_map]
    rfl
  · simp [statics, BitMapScheduler.setState, Function.update_of_ne h]

@[simp] theorem statics_setSavedSp : statics (s.setSavedSp i sp) j = statics s j := by
  by_cases h : j = i
  · subst h
    simp only [statics, BitMapScheduler.setSavedSp, Function.update_self, Option.map_map]
    rfl
  · simp [statics, BitMapScheduler.setSavedSp, Function.update_of_ne h]

@[simp] theorem statics_releaseSlot : statics (s.releaseSlot i) j = statics s j := by
  unfold BitMapScheduler.releaseSlot
  split
  · exact statics_setState s i j .ready
  · rfl

@[simp] theorem statics_swapTo : statics (s.swapTo n) j = statics s j := by
  unfold BitMapScheduler.swapTo
  rw [statics_setState, statics_releaseSlot]
  rfl

@[simp] theorem statics_spendTick (b : Bool) : statics (s.spendTick b) j = statics s j := by
  simp [statics]

@[simp] theorem statics_wakeSleepers (now : Word) : statics (wakeSleepers now s) j = statics s j := by
  simp only [statics, wakeSleepers, Option.map_map]
  rfl

end Statics

/-! ## The view of an updated kernel -/

section Updates
variable (k : Kernel) (h : Hart) (i : Fin MAX_PARTITIONS)

theorem view_eq {k k' : Kernel} (hstatic : ∀ h i, statics (k'.scheds h) i = statics (k.scheds h) i)
    (hstate : ∀ h i, k'.stateOf h i = k.stateOf h i) (hcurrent : k'.current = k.current)
    (hmutexes : k'.mutexes = k.mutexes) : view k' = view k :=
  View.ext (funext fun x => hstatic x.1 x.2) (funext fun x => hstate x.1 x.2) hcurrent hmutexes

@[simp] theorem view_setMem (m : Memory) : view (k.setMem m) = view k := rfl

@[simp] theorem view_writeFrame (sp : Word) (j : ℕ) (v : Word) :
    view (k.writeFrame sp j v) = view k := rfl

@[simp] theorem view_setMsip (b : Bool) : view (k.setMsip h b) = view k := rfl

@[simp] theorem view_logTelemetry (e : TraceEvent) : view (k.logTelemetry e) = view k := rfl

@[simp] theorem view_unlockMutexes : view (unlockMutexes k) = view k := rfl

@[simp] theorem view_setMutex (j : Fin 8) (m : KernelMutex) :
    view (k.setMutex j m) = (view k).setMutex j m := rfl

@[simp] theorem setSched_scheds_self (s : BitMapScheduler) : (k.setSched h s).scheds h = s := by
  simp [Kernel.setSched]

theorem setSched_scheds_of_ne {h h' : Hart} (hne : h' ≠ h) (s : BitMapScheduler) :
    (k.setSched h s).scheds h' = k.scheds h' := by
  simp [Kernel.setSched, hne]

theorem view_setSched {s : BitMapScheduler} (hs : ∀ i, statics s i = statics (k.scheds h) i) :
    view (k.setSched h s) = { view k with
      state := fun x => if x.1 = h then s.stateAt x.2 else (view k).state x
      current := Function.update (view k).current h s.currentPartitionIdx } := by
  apply View.ext
  · funext x
    obtain ⟨h', j⟩ := x
    by_cases hh : h' = h
    · subst hh
      have hj := hs j
      simpa [view, statics] using hj
    · simp [view, setSched_scheds_of_ne k hh]
  · funext x
    obtain ⟨h', j⟩ := x
    by_cases hh : h' = h
    · subst hh
      simp [view, Kernel.stateOf]
    · simp [view, Kernel.stateOf, setSched_scheds_of_ne k hh, hh]
  · funext h'
    by_cases hh : h' = h
    · subst hh
      simp [view, Kernel.current]
    · simp [view, Kernel.current, setSched_scheds_of_ne k hh, hh]
  · rfl

@[simp] theorem view_setState (st : TaskState) :
    view (k.setState h i st) = (view k).setState (h, i) st := by
  unfold Kernel.setState
  rw [view_setSched k h fun j => statics_setState _ _ _ _]
  apply View.ext
  · rfl
  · funext x
    obtain ⟨h', j⟩ := x
    simp only [View.setState, BitMapScheduler.stateAt_setState]
    by_cases hh : h' = h
    · subst hh
      by_cases hj : j = i
      · subst hj
        simp [view, Kernel.stateOf]
      · simp [hj, view, Kernel.stateOf]
    · simp [hh]
  · funext h'
    by_cases hh : h' = h
    · subst hh
      simp [view, Kernel.current, View.setState]
    · simp [hh, View.setState]
  · rfl

theorem view_state_isSome (x : TaskId) :
    ((view k).state x).isSome = ((k.scheds x.1).taskTable x.2).isSome :=
  BitMapScheduler.stateAt_isSome _ _

end Updates

/-! ## The context switch -/

theorem view_setRemaining (k : Kernel) (h : Hart) (r : ℕ) :
    view (k.setSched h { k.scheds h with remainingMifTicks := r }) = view k := by
  rw [view_setSched k h (s := { k.scheds h with remainingMifTicks := r }) fun _ => rfl]
  apply View.ext
  · rfl
  · funext x
    by_cases hx : x.1 = h
    · subst hx
      simp [view, Kernel.stateOf, BitMapScheduler.stateAt]
    · simp [hx]
  · exact Function.update_eq_self h k.current
  · rfl

/-- The view of a scheduler that has swapped to `n`, whatever it has saved. -/
theorem view_swapTo (k : Kernel) (h : Hart) (isTick : Bool) (n : Fin MAX_PARTITIONS)
    {s : BitMapScheduler} (hstatics : ∀ j, statics s j = statics (k.scheds h) j)
    (hstate : ∀ j, s.stateAt j = (((k.scheds h).spendTick isTick).swapTo n).stateAt j)
    (hcurrent : s.currentPartitionIdx = n) : view (k.setSched h s) = (view k).swap h n := by
  rw [view_setSched k h hstatics]
  apply View.ext
  · rfl
  · funext x
    obtain ⟨h', j⟩ := x
    by_cases hh : h' = h
    · subst hh
      simp only [if_true, hstate, BitMapScheduler.stateAt_swapTo,
        BitMapScheduler.stateAt_spendTick, BitMapScheduler.spendTick_currentPartitionIdx,
        View.swap, View.running, Prod.mk.injEq, true_and]
      by_cases hj : j = n
      · subst hj
        simp [view, Kernel.stateOf]
      · simp only [if_neg hj]
        by_cases hc : j = (k.scheds h').currentPartitionIdx ∧
            (k.scheds h').stateAt j = some .running
        · rw [if_pos hc]
          exact (if_pos hc).symm
        · rw [if_neg hc]
          exact (if_neg hc).symm
    · simp [hh, View.swap, View.running]
  · funext h'
    by_cases hh : h' = h
    · subst hh
      simp [hcurrent, View.swap]
    · simp [hh, View.swap]
  · rfl

/-- The context switch is a scheduling decision, also where the current slot is empty. -/
theorem switchTask_resched (P : Platform) (h : Hart) (cycles : Word) (isTick : Bool) (sp : Word)
    (k : Kernel) : View.Resched h isTick (view k) (view (switchTask P h cycles isTick sp k).2) := by
  rcases BitMapScheduler.schedule_stays_or_swaps (k.scheds h) isTick with
    ⟨r, hsched, hwhy⟩ | ⟨n, -, hsel, hfst, -⟩
  · refine Or.inl ⟨?_, ?_⟩
    · simp only [switchTask, hsched]
      exact view_setRemaining k h r
    · intro hf n hn
      rcases hwhy with ⟨hno, -⟩ | ⟨-, hnone⟩
      · exact hno (Or.inr (Or.inl hf))
      · exact BitMapScheduler.selectNext_eq_none_iff.mp hnone n hn
  · refine Or.inr ⟨n, BitMapScheduler.stateAt_of_selectNext hsel, ?_⟩
    unfold switchTask
    generalize (k.scheds h).schedule isTick = r at hfst
    obtain ⟨s, out⟩ := r
    obtain rfl : s = ((k.scheds h).spendTick isTick).swapTo n := hfst
    have hsaved : ∀ i, view (k.setSched h ((((k.scheds h).spendTick isTick).swapTo n).setSavedSp i sp)) =
        (view k).swap h n := fun i => view_swapTo k h isTick n (by simp) (by simp) (by simp)
    cases out with
    | none => exact view_swapTo k h isTick n (by simp) (fun _ => rfl) (by simp)
    | some y =>
      dsimp only
      split
      · exact hsaved y.1
      · exact hsaved y.1

/-! ## The waiter scan -/

/-- What the refinement relies on: tasks are stored under their priority, only registered tasks run
and wait, and a mutex with an owner is locked. -/
structure View.Indexed (v : View) : Prop where
  priority : ∀ x s, v.static x = some s → s.priority = BitVec.ofNat 8 x.2.val
  running : ∀ h, (v.state (v.running h)).isSome
  waiters : ∀ i m, v.mutexes i = some m → ∀ w, BitSet.Mem m.waitersBitmap w →
    (v.state (waiterTask w)).isSome
  owned : ∀ i m, v.mutexes i = some m → m.ownerTaskIdx.isSome → m.locked = true

section Scan
variable {k : Kernel} {b : Word}

theorem waiterPriority_eq {w : Fin MAX_PARTITIONS}
    (hprio : ∀ x s, (view k).static x = some s → s.priority = BitVec.ofNat 8 x.2.val)
    (hw : ((view k).state (waiterTask w)).isSome) :
    waiterPriority k w = .ok (BitVec.ofNat 8 w.val) := by
  rw [view_state_isSome] at hw
  obtain ⟨tcb, htcb⟩ := Option.isSome_iff_exists.mp hw
  have htcb' : (k.scheds (waiterHart w)).taskTable w = some tcb := htcb
  have hstatic := hprio (waiterTask w) (static tcb) (by simp [view, htcb])
  simp only [waiterPriority, htcb']
  exact congrArg Except.ok hstatic

/-- One round over waiters that are stored under their priority: a later one never wins. -/
theorem scanWaiter_eq (hprio : ∀ w, BitSet.Mem b w → waiterPriority k w = .ok (BitVec.ofNat 8 w.val))
    (w? : Option (Fin MAX_PARTITIONS)) (i : Fin MAX_PARTITIONS)
    (hlt : ∀ w ∈ w?, BitSet.Mem b w ∧ w < i) :
    scanWaiter k b w? i = .ok (w?.or (if BitSet.Mem b i then some i else none)) := by
  unfold scanWaiter
  by_cases hi : BitSet.Mem b i
  · have hne : b &&& bit i ≠ 0#32 := BitSet.and_single_ne_zero_iff.mpr hi
    rw [if_pos hne, if_pos hi]
    cases w? with
    | none => rfl
    | some w =>
      obtain ⟨hw, hwi⟩ := hlt w rfl
      simp only [hprio w hw, hprio i hi]
      have hge : ¬ BitVec.ofNat 8 i.val < BitVec.ofNat 8 w.val := by
        have hi32 : i.val < 32 := i.isLt
        have hwi' : w.val < i.val := hwi
        rw [BitVec.lt_def, BitVec.toNat_ofNat, BitVec.toNat_ofNat]
        omega
      rw [if_neg hge]
      rfl
  · have h0 : ¬ b &&& bit i ≠ 0#32 := fun h => hi (BitSet.and_single_ne_zero_iff.mp h)
    rw [if_neg h0, if_neg hi]
    cases w? <;> rfl

theorem scan_eq (hprio : ∀ w, BitSet.Mem b w → waiterPriority k w = .ok (BitVec.ofNat 8 w.val))
    (l : List (Fin MAX_PARTITIONS)) (hl : l.Pairwise (· < ·)) (w? : Option (Fin MAX_PARTITIONS))
    (hlt : ∀ w ∈ w?, BitSet.Mem b w ∧ ∀ i ∈ l, w < i) :
    l.foldlM (scanWaiter k b) w? = .ok (w?.or (l.find? fun i => BitSet.Mem b i)) := by
  induction l generalizing w? with
  | nil => cases w? <;> rfl
  | cons i l ih =>
    obtain ⟨hil, hl'⟩ := List.pairwise_cons.mp hl
    rw [List.foldlM_cons, scanWaiter_eq hprio w? i fun w hw =>
      ⟨(hlt w hw).1, (hlt w hw).2 i (List.mem_cons_self ..)⟩]
    have hstep := ih hl' (w?.or (if BitSet.Mem b i then some i else none)) (by
      intro w hw
      cases w? with
      | some w0 =>
        have hww : w0 = w := by simpa using hw
        subst hww
        exact ⟨(hlt w0 rfl).1, fun j hj => (hlt w0 rfl).2 j (List.mem_cons_of_mem _ hj)⟩
      | none =>
        by_cases hi : BitSet.Mem b i
        · have hww : i = w := by simpa [hi] using hw
          subst hww
          exact ⟨hi, hil⟩
        · simp [hi] at hw)
    refine Eq.trans hstep (congrArg Except.ok ?_)
    by_cases hi : BitSet.Mem b i
    · cases w? <;> simp [hi]
    · cases w? <;> simp [hi]

theorem highestWaiter_eq_least
    (hprio : ∀ w, BitSet.Mem b w → waiterPriority k w = .ok (BitVec.ofNat 8 w.val)) :
    highestWaiter k b = .ok (BitSet.least b) := by
  unfold highestWaiter
  rw [scan_eq hprio _ (List.pairwise_lt_finRange _) none (by simp)]
  rfl

/-- The scan selects the least waiter, whose priority number is the smallest. -/
theorem highestWaiter_eq
    (hprio : ∀ x s, (view k).static x = some s → s.priority = BitVec.ofNat 8 x.2.val)
    (hreg : ∀ w, BitSet.Mem b w → ((view k).state (waiterTask w)).isSome) :
    highestWaiter k b = .ok (BitSet.least b) :=
  highestWaiter_eq_least fun w hw => waiterPriority_eq hprio (hreg w hw)

end Scan

end Cerberus.Kernel
