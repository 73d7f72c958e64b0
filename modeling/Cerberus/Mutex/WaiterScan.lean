import Cerberus.Kernel.Reachable

/-! # The three waiter scans

The loop that looks for the highest priority waiter is written three times in `kernel/src/trap.rs`: in
the unlock syscall (`highestWaiter`), in the recovery of syscall 8 and in the recovery of a contained
fault. The unlock loop calls the position `i` and the best one so far `w`; the recovery loops call them
`w` and `curr_w`, and look the new one up first. -/
namespace Cerberus.Mutex
open Kernel Scheduler
set_option autoImplicit false

/-- One round of a recovery loop; `prio` looks a waiter up on its registered core. -/
def recoveryScanWaiter (prio : Fin MAX_PARTITIONS → Except Stop Byte) (waitersBitmap : Word)
    (highest : Option (Fin MAX_PARTITIONS)) (w : Fin MAX_PARTITIONS) :
    Except Stop (Option (Fin MAX_PARTITIONS)) :=
  if waitersBitmap &&& bit w ≠ 0#32 then
    match highest with
    | some currW => do
      let wPrio ← prio w
      let currWPrio ← prio currW
      return if wPrio < currWPrio then some w else some currW
    | none => .ok (some w)
  else .ok highest

/-- The scan of syscall 8, through `sched0` and `sched1`. -/
def terminateHighestWaiter (k : Kernel) (waitersBitmap : Word) : Except Stop (Option (Fin MAX_PARTITIONS)) :=
  (List.finRange MAX_PARTITIONS).foldlM (recoveryScanWaiter (waiterPriority k) waitersBitmap) none

/-- The scan of a contained fault, through `scheds[0]` and `scheds[1]`. -/
def faultHighestWaiter (k : Kernel) (waitersBitmap : Word) : Except Stop (Option (Fin MAX_PARTITIONS)) :=
  (List.finRange MAX_PARTITIONS).foldlM (recoveryScanWaiter (waiterPriority k) waitersBitmap) none

section Scans
variable {k : Kernel} {b : Word}

theorem waiterPriority_error {w : Fin MAX_PARTITIONS} {e : Stop} (he : waiterPriority k w = .error e) :
    e = .unwrapNone := by
  unfold waiterPriority at he
  split at he
  · cases he
  · exact (Except.error.inj he).symm

/-- The roles of the two positions and the order of the lookups make no difference. -/
theorem recoveryScanWaiter_eq : recoveryScanWaiter (waiterPriority k) b = scanWaiter k b := by
  funext highest i
  unfold recoveryScanWaiter scanWaiter
  by_cases hi : b &&& bit i ≠ 0#32
  · rw [if_pos hi, if_pos hi]
    cases highest with
    | none => rfl
    | some w =>
      dsimp only
      cases hnew : waiterPriority k i with
      | error e =>
        obtain rfl := waiterPriority_error hnew
        cases waiterPriority k w <;> rfl
      | ok iPrio =>
        cases hbest : waiterPriority k w with
        | error e =>
          obtain rfl := waiterPriority_error hbest
          rfl
        | ok wPrio => rfl
  · rw [if_neg hi, if_neg hi]

theorem terminateHighestWaiter_eq : terminateHighestWaiter k b = highestWaiter k b := by
  unfold terminateHighestWaiter highestWaiter
  rw [recoveryScanWaiter_eq]

theorem faultHighestWaiter_eq : faultHighestWaiter k b = highestWaiter k b := by
  unfold faultHighestWaiter highestWaiter
  rw [recoveryScanWaiter_eq]

end Scans

/-! ## The waiter they select -/

/-- Slot `i` holds a task where `register_task` puts it: at the index equal to its priority. -/
def HoldsOwn (s : BitMapScheduler) (i : Fin MAX_PARTITIONS) : Prop :=
  ∃ tcb, s.taskTable i = some tcb ∧ tcb.priority.toNat = i.val

instance (s : BitMapScheduler) (i : Fin MAX_PARTITIONS) : Decidable (HoldsOwn s i) :=
  decidable_of_iff (((s.taskTable i).map fun tcb => tcb.priority.toNat) = some i.val) Option.map_eq_some_iff

section Registered
variable {s s' : BitMapScheduler}

theorem holdsOwn_registerTask {tcb : TaskControlBlock} (hs : s.registerTask tcb = some s') :
    (∃ i, i.val = tcb.priority.toNat ∧ HoldsOwn s' i) ∧ ∀ j, HoldsOwn s j → HoldsOwn s' j := by
  unfold BitMapScheduler.registerTask at hs
  split at hs
  · rename_i hlt
    obtain rfl := Option.some.inj hs
    have hself : HoldsOwn { s with
        taskTable := Function.update s.taskTable ⟨tcb.priority.toNat, hlt⟩
          (some { tcb with activePriority := tcb.priority }) } ⟨tcb.priority.toNat, hlt⟩ :=
      ⟨_, Function.update_self .., rfl⟩
    refine ⟨⟨_, rfl, hself⟩, fun j hj => ?_⟩
    by_cases hji : j = ⟨tcb.priority.toNat, hlt⟩
    · rw [hji]
      exact hself
    · obtain ⟨tcb', htcb', hprio⟩ := hj
      exact ⟨tcb', (Function.update_of_ne hji ..).trans htcb', hprio⟩
  · cases hs

end Registered

/-- The waiters of every mutex of a reachable kernel are held so. -/
theorem holdsOwn_of_indexed {k : Kernel} (hk : (view k).Indexed) {i : Fin 8} {m : KernelMutex}
    (hm : k.mutexes i = some m) {w : Fin MAX_PARTITIONS} (hw : BitSet.Mem m.waitersBitmap w) :
    HoldsOwn (k.scheds (waiterHart w)) w := by
  have hreg := hk.waiters i m hm w hw
  rw [view_state_isSome] at hreg
  obtain ⟨tcb, htcb⟩ := Option.isSome_iff_exists.mp hreg
  have hprio : tcb.priority = BitVec.ofNat 8 w.val :=
    hk.priority (waiterTask w) (static tcb) (by simp [view, htcb])
  refine ⟨tcb, htcb, ?_⟩
  have hw32 : w.val < 32 := w.isLt
  rw [hprio, BitVec.toNat_ofNat]
  omega

theorem waiterPriority_of_holdsOwn {k : Kernel} {w : Fin MAX_PARTITIONS}
    (hw : HoldsOwn (k.scheds (waiterHart w)) w) : waiterPriority k w = .ok (BitVec.ofNat 8 w.val) := by
  obtain ⟨tcb, htcb, hprio⟩ := hw
  unfold waiterPriority
  rw [htcb, ← hprio, BitVec.ofNat_toNat, BitVec.setWidth_eq]

/-- The three scans select the same waiter, the one at the least set bit, and no waiter has a smaller
priority number. -/
theorem scans_select_least (k : Kernel) (b : Word) (hb : b ≠ 0#32)
    (hreg : ∀ w, BitSet.Mem b w → HoldsOwn (k.scheds (waiterHart w)) w) :
    ∃ w : Fin MAX_PARTITIONS, w.val = b.ctz.toNat ∧ BitSet.Mem b w ∧
      highestWaiter k b = .ok (some w) ∧ terminateHighestWaiter k b = .ok (some w) ∧
      faultHighestWaiter k b = .ok (some w) ∧
      ∃ p, waiterPriority k w = .ok p ∧
        ∀ v, BitSet.Mem b v → ∃ q, waiterPriority k v = .ok q ∧ p ≤ q := by
  obtain ⟨w, hleast, hctz⟩ := BitSet.least_eq_ctz hb
  have hmem := BitSet.mem_of_least hleast
  have hprio := fun v hv => waiterPriority_of_holdsOwn (hreg v hv)
  have hscan : highestWaiter k b = .ok (some w) := by
    rw [highestWaiter_eq_least hprio, hleast]
  refine ⟨w, hctz, hmem, hscan, ?_, ?_, _, hprio w hmem, fun v hv => ⟨_, hprio v hv, ?_⟩⟩
  · rw [terminateHighestWaiter_eq, hscan]
  · rw [faultHighestWaiter_eq, hscan]
  · have hle : w.val ≤ v.val := BitSet.least_le hleast hv
    have hw32 : w.val < 32 := w.isLt
    have hv32 : v.val < 32 := v.isLt
    rw [BitVec.le_def, BitVec.toNat_ofNat, BitVec.toNat_ofNat]
    omega

/-- Tasks B and C wait. -/
theorem scans_select_least_boot :
    highestWaiter bootSystem.kernel 12 = .ok (some 2) ∧
      terminateHighestWaiter bootSystem.kernel 12 = .ok (some 2) ∧
      faultHighestWaiter bootSystem.kernel 12 = .ok (some 2) := by
  have hreg : ∀ w, BitSet.Mem (12 : Word) w → HoldsOwn (bootSystem.kernel.scheds (waiterHart w)) w := by
    decide +kernel
  obtain ⟨w, hctz, -, hunlock, hterminate, hfault, -⟩ :=
    scans_select_least bootSystem.kernel 12 (by decide) hreg
  have hw : w = 2 := Fin.ext (hctz.trans (by decide +kernel))
  rw [hw] at hunlock hterminate hfault
  exact ⟨hunlock, hterminate, hfault⟩

end Cerberus.Mutex
