import Cerberus.Foundations.Transition
import Cerberus.Kernel.Refinement
import Cerberus.Memory.PmpProgram

/-! # What a handler leaves alone

The parts of the kernel outside the view: a trap saves the stack pointer of the interrupted task and
of no other, and changes PMP registers only by `reprogram_pmp_stack`. -/
namespace Cerberus.Kernel
open Scheduler Sync Memory
set_option autoImplicit false

/-! ## Saved stack pointers -/

def savedSps (s : BitMapScheduler) (i : Fin MAX_PARTITIONS) : Option Word :=
  (s.taskTable i).map TaskControlBlock.savedSp

section Scheduler
variable (s : BitMapScheduler) (i j n : Fin MAX_PARTITIONS) (st : TaskState) (sp : Word)

@[simp] theorem savedSps_setState : savedSps (s.setState i st) j = savedSps s j := by
  by_cases hj : j = i
  · subst hj
    simp [savedSps, BitMapScheduler.setState, Function.comp_def]
  · simp [savedSps, BitMapScheduler.setState, hj]

theorem savedSps_setSavedSp (hj : j ≠ i) : savedSps (s.setSavedSp i sp) j = savedSps s j := by
  simp [savedSps, BitMapScheduler.setSavedSp, hj]

@[simp] theorem savedSps_swapTo : savedSps (s.swapTo n) j = savedSps s j := by
  unfold BitMapScheduler.swapTo BitMapScheduler.releaseSlot
  rw [savedSps_setState]
  split
  · rw [savedSps_setState]
    rfl
  · rfl

@[simp] theorem savedSps_spendTick (b : Bool) : savedSps (s.spendTick b) j = savedSps s j := by
  simp [savedSps]

@[simp] theorem savedSps_wakeSleepers (now : Word) :
    savedSps (wakeSleepers now s) j = savedSps s j := by
  simp [savedSps, wakeSleepers, Function.comp_def]

/-- `schedule` changes no saved stack pointer, and returns the slot of the interrupted task. -/
theorem savedSps_schedule (isTick : Bool) :
    (∀ j, savedSps (s.schedule isTick).1 j = savedSps s j) ∧
      ∀ oldIdx newSp, (s.schedule isTick).2 = some (oldIdx, newSp) →
        oldIdx = s.currentPartitionIdx := by
  unfold BitMapScheduler.schedule
  dsimp only
  split
  · split
    · split
      · exact ⟨fun j => savedSps_spendTick s j isTick, fun _ _ h => by cases h⟩
      · exact ⟨fun j => savedSps_spendTick s j isTick, fun _ _ h => by cases h⟩
    · split
      · refine ⟨fun j => by simp, fun oldIdx newSp h => ?_⟩
        have hold := (Prod.ext_iff.mp (Option.some.inj h)).1
        simpa using hold.symm
      · exact ⟨fun j => by simp, fun _ _ h => by cases h⟩
  · exact ⟨fun j => savedSps_spendTick s j isTick, fun _ _ h => by cases h⟩

end Scheduler

def savedSpOf (k : Kernel) (x : TaskId) : Option Word := savedSps (k.scheds x.1) x.2

/-! ## Updates before a context switch -/

/-- The registers, the running tasks and all saved stack pointers are the same. -/
structure Untouched (k k' : Kernel) : Prop where
  pmp : k'.pmp = k.pmp
  current : k'.current = k.current
  savedSp : ∀ x, savedSpOf k' x = savedSpOf k x

theorem Untouched.trans {k1 k2 k3 : Kernel} (h12 : Untouched k1 k2) (h23 : Untouched k2 k3) :
    Untouched k1 k3 :=
  ⟨h23.pmp.trans h12.pmp, h23.current.trans h12.current,
    fun x => (h23.savedSp x).trans (h12.savedSp x)⟩

theorem Untouched.of_eq {k k' : Kernel} (hscheds : k'.scheds = k.scheds) (hpmp : k'.pmp = k.pmp) :
    Untouched k k' := by
  refine ⟨hpmp, ?_, fun x => ?_⟩
  · funext h
    rw [Kernel.current, Kernel.current, hscheds]
  · rw [savedSpOf, savedSpOf, hscheds]

theorem Untouched.setSched {k : Kernel} {h : Hart} {s : BitMapScheduler}
    (hcur : s.currentPartitionIdx = k.current h) (hsp : ∀ j, savedSps s j = savedSps (k.scheds h) j) :
    Untouched k (k.setSched h s) := by
  refine ⟨rfl, ?_, fun x => ?_⟩
  · funext h'
    by_cases hh : h' = h
    · subst hh
      simp [Kernel.current, Kernel.setSched, hcur]
    · simp [Kernel.current, Kernel.setSched, hh]
  · obtain ⟨h', j⟩ := x
    by_cases hh : h' = h
    · subst hh
      simp [savedSpOf, Kernel.setSched, hsp]
    · simp [savedSpOf, Kernel.setSched, hh]

theorem Untouched.setState (k : Kernel) (h : Hart) (i : Fin MAX_PARTITIONS) (st : TaskState) :
    Untouched k (k.setState h i st) :=
  .setSched rfl fun j => savedSps_setState _ i j st

theorem Untouched.then_eq {k k1 k' : Kernel} (hu : Untouched k k1) (hscheds : k'.scheds = k1.scheds)
    (hpmp : k'.pmp = k1.pmp) : Untouched k k' := hu.trans (.of_eq hscheds hpmp)

theorem recoverMutex_untouched {target : Fin MAX_PARTITIONS} {k k' : Kernel} {i : Fin 8}
    (hok : recoverMutex target k i = .ok k') : Untouched k k' := by
  unfold recoverMutex at hok
  split at hok
  · rw [Except.ok.inj hok]
    exact .of_eq rfl rfl
  split at hok
  · split at hok
    · cases hok
    · rw [← Except.ok.inj hok]
      exact .of_eq rfl rfl
    · rename_i m _ _ _ w _
      rw [← Except.ok.inj hok]
      have hset : Untouched k (k.setMutex i (m.handTo w)) := .of_eq rfl rfl
      exact hset.trans (.setState _ _ _ _)
  · rw [Except.ok.inj hok]
    exact .of_eq rfl rfl

theorem recoverLoop_untouched {target : Fin MAX_PARTITIONS} {l : List (Fin 8)} {k k' : Kernel}
    (hok : l.foldlM (recoverMutex target) k = .ok k') : Untouched k k' :=
  Transition.foldlM_rel (R := Untouched) (fun _ => .of_eq rfl rfl) (fun _ _ _ h1 h2 => h1.trans h2)
    (fun _ _ _ hi => recoverMutex_untouched hi) hok

/-- Recovery is the loop under `MUTEX_LOCK`. -/
theorem recoverMutexes_ok {h : Hart} {target : Fin MAX_PARTITIONS} {k k' : Kernel}
    (hok : recoverMutexes h target k = .ok k') :
    ∃ l k2, (List.finRange 8).foldlM (recoverMutex target) { k with mutexLock := l } = .ok k2 ∧
      k' = unlockMutexes k2 := by
  unfold recoverMutexes lockMutexes at hok
  cases hl : k.mutexLock.lock h with
  | none =>
    rw [hl] at hok
    cases hok
  | some l =>
    simp only [hl] at hok
    split at hok
    · cases hok
    · rename_i k2 hloop
      exact ⟨l, k2, hloop, (Except.ok.inj hok).symm⟩

theorem recoverMutexes_untouched {h : Hart} {target : Fin MAX_PARTITIONS} {k k' : Kernel}
    (hok : recoverMutexes h target k = .ok k') : Untouched k k' := by
  obtain ⟨l, k2, hloop, rfl⟩ := recoverMutexes_ok hok
  have hlock : Untouched k { k with mutexLock := l } := .of_eq rfl rfl
  exact (hlock.trans (recoverLoop_untouched hloop)).then_eq rfl rfl

/-! ## Context switches -/

/-- Of the saved stack pointers only that of the task running on `h` may differ, and the PMP
registers are still those of boot up to the stack entries. -/
structure CallerOnly (h : Hart) (k k' : Kernel) : Prop where
  pmp : ∀ h', Booted (k.pmp h') → Booted (k'.pmp h')
  savedSp : ∀ x, x ≠ (h, k.current h) → savedSpOf k' x = savedSpOf k x

theorem Untouched.callerOnly {k k' : Kernel} (hu : Untouched k k') (h : Hart) :
    CallerOnly h k k' := by
  refine ⟨fun h' hb => ?_, fun x _ => hu.savedSp x⟩
  rw [hu.pmp]
  exact hb

theorem CallerOnly.of_eq {h : Hart} {k k' : Kernel} (hscheds : k'.scheds = k.scheds)
    (hpmp : k'.pmp = k.pmp) : CallerOnly h k k' := (Untouched.of_eq hscheds hpmp).callerOnly h

theorem CallerOnly.after {h : Hart} {k k1 k' : Kernel} (hc : CallerOnly h k1 k')
    (hu : Untouched k k1) : CallerOnly h k k' := by
  refine ⟨fun h' hb => hc.pmp h' ?_, fun x hx => ?_⟩
  · rw [hu.pmp]
    exact hb
  · rw [hc.savedSp x (by rw [hu.current]; exact hx), hu.savedSp]

theorem CallerOnly.then {h : Hart} {k k1 k' : Kernel} (hc : CallerOnly h k k1)
    (hu : Untouched k1 k') : CallerOnly h k k' := by
  refine ⟨fun h' hb => ?_, fun x hx => ?_⟩
  · rw [hu.pmp]
    exact hc.pmp h' hb
  · rw [hu.savedSp, hc.savedSp x hx]

theorem savedSpOf_setSched {k : Kernel} {h : Hart} {s : BitMapScheduler} {x : TaskId}
    (hs : ∀ j, (h, j) ≠ x ∨ savedSps s j = savedSps (k.scheds h) j) :
    savedSpOf (k.setSched h s) x = savedSpOf k x := by
  obtain ⟨h', j⟩ := x
  by_cases hh : h' = h
  · subst hh
    have hj := (hs j).resolve_left (not_not_intro rfl)
    simp [savedSpOf, Kernel.setSched, hj]
  · simp [savedSpOf, Kernel.setSched, hh]

theorem switchTask_callerOnly (P : Platform) (h : Hart) (cycles : Word) (isTick : Bool) (sp : Word)
    (k : Kernel) : CallerOnly h k (switchTask P h cycles isTick sp k).2 := by
  obtain ⟨hsps, hold⟩ := savedSps_schedule (k.scheds h) isTick
  unfold switchTask
  generalize (k.scheds h).schedule isTick = r at hsps hold
  obtain ⟨s, out⟩ := r
  cases out with
  | none =>
    refine ⟨fun h' hb => hb, fun x _ => savedSpOf_setSched fun j => Or.inr (hsps j)⟩
  | some y =>
    obtain ⟨oldIdx, newSp⟩ := y
    obtain rfl : oldIdx = k.current h := hold oldIdx newSp rfl
    have hsp : ∀ x, x ≠ (h, k.current h) →
        savedSpOf (k.setSched h (s.setSavedSp (k.current h) sp)) x = savedSpOf k x := by
      intro x hx
      refine savedSpOf_setSched fun j => ?_
      by_cases hj : j = k.current h
      · exact Or.inl fun he => hx (by rw [← he, hj])
      · exact Or.inr ((savedSps_setSavedSp s (k.current h) j sp hj).trans (hsps j))
    simp only
    split
    · rename_i newTcb _
      refine ⟨fun h' hb => ?_, hsp⟩
      by_cases hh : h' = h
      · subst hh
        simp only [setPmp, Function.update_self]
        exact (programmed_reprogramPmpStack hb newTcb.name).booted
      · simp only [setPmp, Function.update_of_ne hh]
        exact hb
    · exact ⟨fun h' hb => hb, hsp⟩

end Cerberus.Kernel
