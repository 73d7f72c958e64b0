import Cerberus.Containment.CopyRights
import Cerberus.Kernel.Entry
import Cerberus.Mutex.Termination

/-! # Faults of the kernel's own copy

A copy that faults traps again from inside the handler. The nested trap terminates the caller and
resumes another task, so the outer handler never drops its guard of `SCHED_LOCK`, and the exit code
leaves in `mscratch` what the entry code found there: the frame of the outer trap. -/
namespace Cerberus.Containment
open Kernel Scheduler Sync Memory Transition Mutex
set_option autoImplicit false

def kernelStackTop (P : Platform) (h : Hart) : Word := P.kernelStack h + 1024#32

/-- What containment of a nested fault on hart `h` asks for, with `k` the kernel before the outer
trap and `r'`, `k'` what the nested trap leaves. -/
structure NestedContained (P : Platform) (h : Hart) (k : Kernel) (r' : HartRegs) (k' : Kernel) :
    Prop where
  terminated : k'.stateOf h (k.current h) = some .terminated
  schedLock : k'.schedLock.owner ≠ some h
  mutexLock : k'.mutexLock.owner ≠ some h
  mscratch : r'.mscratch = kernelStackTop P h
  saved : ∀ y, y ≠ (h, k.current h) → savedSpOf k' y = savedSpOf k y

/-- The hold count of `SCHED_LOCK` is about to wrap around, the caller's frame lies right above the
kernel stack, and no mutex of the caller has the caller as its heir. -/
structure WrapsAround (P : Platform) (h : Hart) (k : Kernel) (r : HartRegs) : Prop where
  owner : k.schedLock.owner = some h
  depth : k.schedLock.depth = 0xFFFFFFFF#32
  frame : r.sp - 128#32 = kernelStackTop P h
  heir : ∀ i, (view k).Owns (k.current h) i → heirOf (view k) i ≠ some (h, k.current h)

/-! ## The hold count -/

theorem unlock_held (h : Hart) : (Spinlock.mk (some h) 1#32).unlock = Spinlock.new := by
  simp [Spinlock.unlock, Spinlock.new]

/-- A lock taken and released is as before unless its count has wrapped around. -/
theorem unlock_lock_iff {h : Hart} {l l1 : Spinlock} (hl : l.lock h = some l1) :
    l1.unlock = l ↔ (l.owner = some h → l.depth ≠ 0#32) ∧ (l.owner = none → l.depth = 0#32) := by
  obtain ⟨owner, depth⟩ := l
  have hback : depth + 1#32 - 1#32 = depth := by bv_omega
  unfold Spinlock.lock at hl
  by_cases hown : owner = some h
  · rw [if_pos hown] at hl
    rw [← Option.some.inj hl]
    simp only [Spinlock.unlock, hback, hown, Spinlock.mk.injEq]
    simp
  · rw [if_neg hown] at hl
    by_cases hfree : owner = none
    · rw [if_pos hfree] at hl
      rw [← Option.some.inj hl, unlock_held, hfree]
      simp only [Spinlock.new, Spinlock.mk.injEq, eq_comm (a := 0#32)]
      simp
    · rw [if_neg hfree] at hl
      cases hl

/-- A lock taken twice and released once is free only if the count wrapped around. -/
theorem owner_unlock_of_relock {h : Hart} {l l1 l2 : Spinlock} (h1 : l.lock h = some l1)
    (h2 : l1.lock h = some l2) :
    l2.unlock.owner ≠ some h ↔ l.owner = some h ∧ l.depth = 0xFFFFFFFF#32 := by
  have hone : ∀ d : Word, d + 1#32 = 0#32 ↔ d = 0xFFFFFFFF#32 := by
    intro d
    constructor
    · intro hd
      bv_omega
    · rintro rfl
      rfl
  have hback : ∀ d : Word, d + 1#32 - 1#32 = d := fun d => by bv_omega
  unfold Spinlock.lock at h1
  by_cases ho : l.owner = some h
  · rw [if_pos ho] at h1
    rw [← Option.some.inj h1] at h2
    rw [Spinlock.lock, if_pos ho] at h2
    rw [← Option.some.inj h2]
    simp [Spinlock.unlock, hback, hone, ho]
  · rw [if_neg ho] at h1
    split at h1
    · rw [← Option.some.inj h1, Spinlock.lock, if_pos rfl] at h2
      rw [← Option.some.inj h2]
      simp [Spinlock.unlock, ho]
    · cases h1

/-- A trap that takes `SCHED_LOCK` and returns has released it once. -/
theorem schedLock_of_ok {P : Platform} {h : Hart} {t : Trap} {k k' : Kernel} {sp : Word} (hk : Sound k)
    (htakes : TakesLock k t) (hok : trapHandler P h t k = .ok (sp, k')) :
    ∃ l, k.schedLock.lock h = some l ∧ k'.schedLock = l.unlock := by
  have hr := trap_result (P := P) (h := h) hk (handledCause_of_ok hok)
  rw [hok] at hr
  cases hr with
  | runs _ hl hr =>
    cases hr with
    | returns _ hsched => exact ⟨_, hl, hsched⟩
  | lockFree hfree => exact absurd htakes hfree

theorem takesLock_of_fault {k : Kernel} {t : Trap} (hcause : t.mcause = 5#32 ∨ t.mcause = 7#32) :
    TakesLock k t := by
  unfold TakesLock
  rcases hcause with hc | hc
  · rw [hc, if_neg (by decide)]
    exact fun hno => absurd hno.1 (by decide)
  · rw [hc, if_neg (by decide)]
    exact fun hno => absurd hno.1 (by decide)

/-! ## The terminated caller -/

/-- A terminated task is `Terminated` unless one of its mutexes comes back to it. -/
theorem state_kill_terminated_iff {v : View} (h : Hart) {x : TaskId}
    (hx : (v.state x).isSome) :
    ((Effect.kill x).apply h v).state x = some .terminated ↔
      ∀ i, v.Owns x.2 i → heirOf v i ≠ some x := by
  rw [Effect.kill_state_iff hx]
  refine forall_congr' fun i => ⟨fun hno hown he => hno ?_, fun hno hheir => ?_⟩
  · obtain ⟨m, hm, ho⟩ := hown
    rw [heirOf, hm, Option.bind_some] at he
    obtain ⟨w, hw, hx⟩ := Option.map_eq_some_iff.mp he
    exact ⟨m, w, hm, ho, hw, hx⟩
  · obtain ⟨m, w, hm, ho, hw, hx⟩ := hheir
    refine hno ⟨m, hm, ho⟩ ?_
    rw [heirOf, hm, Option.bind_some, heir, hw, Option.map_some, hx]

/-! ## The nested trap -/

/-- In every reachable state and for every trap whose copy faults: once the nested trap is handled,
the fault is contained if and only if the hold count wraps around and the caller's frame happens to
be the top of the kernel stack. In all other cases `SCHED_LOCK` stays with the hart or `mscratch`
points to the caller's frame. -/
theorem nested_fault_contained_iff (P : Platform) (s s' : System) (es : List Event)
    (hs : Initial P s) (hrun : Run (Step P) s es s') (h : Hart) (mcause cycles : Word)
    (r r' : HartRegs) (m m' : Memory) (sp cycles' : Word) (k' : Kernel)
    (hok : runNested P h mcause cycles r (s'.kernel.setMem m) sp cycles' m' = some (.ok (r', k'))) :
    NestedContained P h s'.kernel r' k' ↔ WrapsAround P h s'.kernel r := by
  have hinv : SysInv s' := sysInv_run hs hrun
  have hkm := hinv.sound m
  obtain ⟨⟨cause, hafter⟩, hmscratch⟩ := runNested_ok hok
  obtain ⟨cause', kf, sp', hf, rfl, hnested⟩ := afterNested_ok hafter
  obtain ⟨heff, hmutex, hframe⟩ := effectStep_of_nested hkm hf hnested
  -- the state of the caller
  have hstate : k'.stateOf h (s'.kernel.current h) = some .terminated ↔
      ∀ i, (view s'.kernel).Owns (s'.kernel.current h) i →
        heirOf (view s'.kernel) i ≠ some (h, s'.kernel.current h) :=
    (state_resched_terminated (heff.leads.resched_of_kill rfl) (h, s'.kernel.current h)).trans
      (state_kill_terminated_iff h (hkm.indexed.running h))
  -- the hold count
  have hlock : k'.schedLock.owner ≠ some h ↔
      s'.kernel.schedLock.owner = some h ∧ s'.kernel.schedLock.depth = 0xFFFFFFFF#32 := by
    obtain ⟨hcause, hview, hm, hl, -⟩ := of_copyFault hkm hf
    have hkf : Sound (kf.setMem m') := hkm.congr hview (hm ▸ hkm.mutexLock)
    obtain ⟨l2, hl2, hk'⟩ := schedLock_of_ok hkf (takesLock_of_fault hcause) hnested
    rw [hk']
    exact owner_unlock_of_relock hl hl2
  constructor
  · intro hc
    obtain ⟨howner, hdepth⟩ := hlock.mp hc.schedLock
    exact ⟨howner, hdepth, hmscratch.symm.trans hc.mscratch, hstate.mp hc.terminated⟩
  · intro hw
    refine ⟨hstate.mpr hw.heir, hlock.mpr ⟨hw.owner, hw.depth⟩, ?_, hmscratch.trans hw.frame,
      hframe.savedSp⟩
    rw [hmutex]
    simp

def senderRegs : HartRegs := ⟨0x3FC82480, 0x3FC82000⟩

/-- Task A sends to HSM Task, whose buffer is in flash; the handler's stack pointer is 0x3FC81F00
when the copy faults. -/
def sendIntoFlash (s : System) : Option (Except Stop (HartRegs × Kernel)) :=
  runNested packedPlatform 0 ECALL_UMODE 0 senderRegs (s.kernel.setMem sendFrame) 0x3FC81F00 0
    (fun _ => 0)

/-- The nested trap of the send, if it returns: the registers, the kernel, and what is asked of
them. -/
def nestedEnds (f : HartRegs → Kernel → Bool) (s : System) : Bool :=
  match sendIntoFlash s with
  | some (.ok (r', k')) => f r' k'
  | _ => false

theorem nestedEnds_iff {f : HartRegs → Kernel → Bool} {s : System} :
    nestedEnds f s = true ↔ ∃ r' k', sendIntoFlash s = some (.ok (r', k')) ∧ f r' k' = true := by
  unfold nestedEnds
  constructor
  · intro hf
    split at hf
    · exact ⟨_, _, ‹_›, hf⟩
    · cases hf
  · rintro ⟨r', k', hs, hf⟩
    rw [hs]
    exact hf

theorem nested_fault_contained_iff_flash :
    ∃ s' r' k', Run (Step packedPlatform) bootSystem (hsmWaits 0x42000000) s' ∧
      sendIntoFlash s' = some (.ok (r', k')) ∧
      ¬ NestedContained packedPlatform 0 s'.kernel r' k' := by
  obtain ⟨s', hrun, hf⟩ := run_of_eval packedPlatform bootSystem (hsmWaits 0x42000000)
    (nestedEnds fun _ _ => true) true (by decide +kernel)
  obtain ⟨r', k', hok, -⟩ := nestedEnds_iff.mp hf
  refine ⟨s', r', k', hrun, hok, fun hc => ?_⟩
  have hframe := ((nested_fault_contained_iff _ _ _ _ bootSystem_initial hrun _ _ _ _ _ _ _ _ _ _
    hok).mp hc).frame
  revert hframe
  decide

/-- Hart 0 is back in U-mode, holds `SCHED_LOCK`, and its `mscratch` is Task A's frame. -/
theorem nested_fault_keeps_lock :
    (∃ s' r' k', Run (Step packedPlatform) bootSystem (hsmWaits 0x42000000) s' ∧
      sendIntoFlash s' = some (.ok (r', k')) ∧ k'.current 0 ≠ s'.kernel.current 0 ∧
      k'.schedLock.owner = some 0 ∧ r'.mscratch = 0x3FC82400) ∧
    ¬ ∀ P s s' es h mcause cycles r r' m m' sp cycles' k', Initial P s → Run (Step P) s es s' →
      runNested P h mcause cycles r (s'.kernel.setMem m) sp cycles' m' = some (.ok (r', k')) →
      k'.current h ≠ s'.kernel.current h → NestedContained P h s'.kernel r' k' := by
  have hrun : ∃ s' r' k', Run (Step packedPlatform) bootSystem (hsmWaits 0x42000000) s' ∧
      sendIntoFlash s' = some (.ok (r', k')) ∧ k'.current 0 ≠ s'.kernel.current 0 ∧
      k'.schedLock.owner = some 0 ∧ r'.mscratch = 0x3FC82400 := by
    obtain ⟨s', hrun, hf⟩ := run_of_eval packedPlatform bootSystem (hsmWaits 0x42000000)
      (fun s => nestedEnds (fun r' k' => decide (k'.current 0 ≠ s.kernel.current 0 ∧
        k'.schedLock.owner = some 0 ∧ r'.mscratch = 0x3FC82400)) s) true (by decide +kernel)
    obtain ⟨r', k', hok, hend⟩ := nestedEnds_iff.mp hf
    exact ⟨s', r', k', hrun, hok, of_decide_eq_true hend⟩
  refine ⟨hrun, fun hall => ?_⟩
  obtain ⟨s', r', k', hs', hok, hreturn, howner, -⟩ := hrun
  exact (hall _ _ _ _ _ _ _ _ _ _ _ _ _ _ bootSystem_initial hs' hok hreturn).schedLock howner

end Cerberus.Containment
