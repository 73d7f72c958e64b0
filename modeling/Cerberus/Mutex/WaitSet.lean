import Cerberus.Kernel.Reachable

/-! # The wait sets

The waiter bits of a mutex and the `BlockedOnMutex` states are written in different places of the
handler. They agree as long as no waiting task is terminated and no task that still executes while
it is recorded as waiting blocks on something else. -/
namespace Cerberus.Mutex
open Kernel Scheduler Sync Transition
set_option autoImplicit false

/-- Bit `w` of a mutex is set if and only if task `w` is in state `BlockedOnMutex` with the index of
that mutex. -/
def WaitSet (v : View) : Prop :=
  ∀ i m, v.mutexes i = some m → ∀ w, BitSet.Mem m.waitersBitmap w ↔
    ∃ h, v.state (h, w) = some (.blockedOnMutex (BitVec.ofNat 8 i.val))

def Waiting (v : View) (x : TaskId) : Prop := ∃ b, v.state x = some (.blockedOnMutex b)

/-- The step does not terminate a task that waits for a mutex, and does not block the running task
on a sleep or an IPC partner while it is recorded as waiting for one. -/
def KeepsWaiting (s : System) (ev : Event) : Prop :=
  match ev.effect s.kernel with
  | some (h, .block _) => ¬ Waiting (view s.kernel) ((view s.kernel).running h)
  | some (_, .kill x) => ¬ Waiting (view s.kernel) x
  | _ => True

instance (v : View) (x : TaskId) : Decidable (Waiting v x) :=
  match h : v.state x with
  | some (.blockedOnMutex b) => isTrue ⟨b, h⟩
  | none | some .ready | some .running | some (.blocked _) | some (.blockedOnIpcSend _ _ _)
  | some (.blockedOnIpcRecv _ _ _) | some .terminated => isFalse (by simp [Waiting, h])

instance (s : System) (ev : Event) : Decidable (KeepsWaiting s ev) := by
  unfold KeepsWaiting
  split <;> infer_instance

/-! ## Updates that do not concern the wait sets -/

def SameWaiting (v v' : View) : Prop :=
  ∀ x b, v'.state x = some (.blockedOnMutex b) ↔ v.state x = some (.blockedOnMutex b)

theorem WaitSet.congr {v v' : View} (hw : WaitSet v) (hs : SameWaiting v v')
    (hm : v'.mutexes = v.mutexes) : WaitSet v' := by
  intro i m hmi w
  rw [hm] at hmi
  rw [hw i m hmi w]
  exact exists_congr fun h => (hs (h, w) _).symm

theorem sameWaiting_setState {v : View} {x : TaskId} {st : TaskState} (hx : ¬ Waiting v x)
    (hst : ∀ b, st ≠ .blockedOnMutex b) : SameWaiting v (v.setState x st) := by
  intro y b
  rw [View.state_setState]
  by_cases hy : y = x
  · rw [if_pos hy, hy]
    constructor
    · intro he
      obtain ⟨_, -, he⟩ := Option.map_eq_some_iff.mp he
      exact absurd he (hst b)
    · intro he
      exact absurd ⟨b, he⟩ hx
  · rw [if_neg hy]

theorem sameWaiting_wake (v : View) (h : Hart) (now : Word) : SameWaiting v (v.wake h now) := by
  intro x b
  exact View.state_wake_iff (by simp) (by simp)

theorem sameWaiting_resched {v v' : View} {h : Hart} {isTick : Bool}
    (hr : View.Resched h isTick v v') : SameWaiting v v' := by
  intro x b
  exact hr.state_iff (by simp) (by simp)

/-! ## Updates of a wait set -/

theorem WaitSet.setMutex {v : View} (hw : WaitSet v) {i : Fin 8} {m m' : KernelMutex}
    (hm : v.mutexes i = some m) (hbits : m'.waitersBitmap = m.waitersBitmap) :
    WaitSet (v.setMutex i m') := by
  intro j mj hj
  refine View.setMutex_rule ?_ (fun j mj _ => hw j mj) hj
  rw [hbits]
  exact hw i m hm

theorem WaitSet.wait {v : View} (hw : WaitSet v) (hv : v.BootShape) {h : Hart} {i : Fin 8}
    {m : KernelMutex} (hm : v.mutexes i = some m) :
    WaitSet ((v.setState (v.running h) (.blockedOnMutex (BitVec.ofNat 8 i.val))).setMutex i
      { m with waitersBitmap := m.waitersBitmap ||| BitSet.single (v.current h) }) := by
  intro j mj hj w
  obtain ⟨hji, rfl⟩ := hv.of_setMutex hm hj
  rw [hji]
  refine BitSet.mem_insert.trans ?_
  constructor
  · rintro (hmem | rfl)
    · obtain ⟨h', hh'⟩ := (hw i m hm w).mp hmem
      refine ⟨h', ?_⟩
      rw [View.setMutex_state, View.state_setState]
      split
      · rename_i heq
        rw [← heq, hh']
        rfl
      · exact hh'
    · obtain ⟨st, hst⟩ := Option.isSome_iff_exists.mp (hv.running h)
      refine ⟨h, ?_⟩
      have hrun : ((h, v.current h) : TaskId) = v.running h := rfl
      rw [View.setMutex_state, View.state_setState, hrun, if_pos rfl, hst]
      rfl
  · rintro ⟨h', hh'⟩
    rw [View.setMutex_state, View.state_setState] at hh'
    by_cases hx : ((h', w) : TaskId) = v.running h
    · exact Or.inr (Prod.ext_iff.mp hx).2
    · rw [if_neg hx] at hh'
      exact Or.inl ((hw i m hm w).mpr ⟨h', hh'⟩)

theorem WaitSet.release {v : View} (hw : WaitSet v) (hv : v.BootShape) (i : Fin 8) :
    WaitSet (v.release i) := by
  refine View.release_rule hw (fun m hm _ => hw.setMutex hm rfl) fun m w hm hl => ?_
  intro j mj hj w'
  obtain ⟨hji, rfl⟩ := hv.of_setMutex hm hj
  rw [hji]
  refine BitSet.mem_erase.trans ?_
  constructor
  · rintro ⟨hmem, hne⟩
    obtain ⟨h', hh'⟩ := (hw i m hm w').mp hmem
    have hx : ((h', w') : TaskId) ≠ waiterTask w := fun he => hne (Prod.ext_iff.mp he).2
    refine ⟨h', ?_⟩
    rw [View.state_setState, if_neg hx]
    exact hh'
  · rintro ⟨h', hh'⟩
    rw [View.state_setState] at hh'
    by_cases hx : ((h', w') : TaskId) = waiterTask w
    · rw [if_pos hx] at hh'
      obtain ⟨_, -, he⟩ := Option.map_eq_some_iff.mp hh'
      cases he
    · rw [if_neg hx] at hh'
      refine ⟨(hw i m hm w').mpr ⟨h', hh'⟩, fun he => hx ?_⟩
      -- a waiting task is where its bit is looked up, so it is the task that was woken
      have hlock := (hv.waiting _ _ hh').1
      rw [← he]
      exact (waiterTask_of_locker hlock).symm

/-! ## One step -/

theorem WaitSet.effect {v v' : View} (hw : WaitSet v) (hv : v.BootShape) {h : Hart} {e : Effect}
    (hstep : EffectStep h e v v') (hblock : ∀ st, e = .block st → ¬ Waiting v (v.running h))
    (hkill : ∀ x, e = .kill x → ¬ Waiting v x) : WaitSet v' := by
  have happly : WaitSet (e.apply h v) := by
    have hvalid := hstep.valid
    cases e with
    | none => exact hw
    | tick now => exact hw.congr (sameWaiting_wake v h now) rfl
    | resched => exact hw
    | block st =>
      refine hw.congr (sameWaiting_setState (hblock st rfl) fun b hb => ?_) rfl
      subst hb
      exact hvalid
    | grant i =>
      obtain ⟨⟨m, hm, -⟩, -⟩ := hvalid
      simp only [Effect.apply, hm]
      exact hw.setMutex hm rfl
    | wait i =>
      obtain ⟨⟨m, hm, -⟩, -⟩ := hvalid
      simp only [Effect.apply, hm]
      exact hw.wait hv hm
    | release i => exact hw.release hv i
    | transfer x =>
      obtain ⟨st, hst, hipc⟩ := hvalid
      refine hw.congr (sameWaiting_setState ?_ fun b hb => by cases hb) rfl
      rintro ⟨b, hb⟩
      rw [hst] at hb
      rw [Option.some.inj hb] at hipc
      exact hipc
    | kill x =>
      have hkilled : WaitSet (v.setState x .terminated) :=
        hw.congr (sameWaiting_setState (hkill x rfl) fun b hb => by cases hb) rfl
      refine (View.recoverAll_induction (I := fun u => WaitSet u ∧ u.BootShape) ?_
        ⟨hkilled, hv.setState _ fun b hb => by cases hb⟩).1
      exact fun u i hu _ => ⟨hu.1.release hu.2 i, hu.2.release i⟩
  rcases hstep.leads.cases with rfl | ⟨_, -, hr⟩
  · exact happly
  · exact happly.congr (sameWaiting_resched hr) hr.mutexes

theorem WaitSet.step {s : System} {ev : Event} {v' : View} (hs : SysInv s)
    (hw : WaitSet (view s.kernel)) (hguard : KeepsWaiting s ev)
    (hstep : StepView s.kernel ev v') : WaitSet v' := by
  cases hstep with
  | @effect h e hev hstep =>
    unfold KeepsWaiting at hguard
    rw [hev] at hguard
    refine hw.effect hs.shape hstep (fun st he => ?_) fun x he => ?_
    · subst he
      exact hguard
    · subst he
      exact hguard
  | restart _ _ hterm hv =>
    rw [hv]
    refine hw.congr (sameWaiting_setState ?_ fun b hb => by cases hb) rfl
    rintro ⟨b, hb⟩
    rw [hterm] at hb
    cases hb
  | skip _ _ hv =>
    rw [hv]
    exact hw

theorem waitSet_bootView : WaitSet bootView := by
  intro i m hm w
  rw [(bootView_mutexes hm).2]
  constructor
  · exact fun h => absurd h (BitSet.not_mem_zero w)
  · rintro ⟨h, hh⟩
    exact absurd hh (bootView_waiting _ _)

/-- In every run whose steps keep the waiting tasks waiting, the wait sets are consistent in every
state reached. -/
theorem wait_set_consistent (P : Platform) (s s' : System) (es : List Event) (hs : Initial P s)
    (hrun : Run (Guarded (Step P) KeepsWaiting) s es s') : WaitSet (view s'.kernel) :=
  guarded_invariant waitSet_bootView (fun _ _ _ hinv hw hg hstep => hw.step hinv hg hstep) hs hrun

/-- Task A takes mutex 0 and Task C waits for it. -/
def contended : List Event :=
  [syscall 0 1 0 0 0, syscall 0 3 0 0 0, syscall 1 1 0 0 0, syscall 1 3 0 0 0]

theorem wait_set_consistent_contended :
    ∃ s', Run (Guarded (Step packedPlatform) KeepsWaiting) bootSystem contended s' ∧
      s'.kernel.mutexes 0 = some ⟨true, some 1, 8⟩ ∧ WaitSet (view s'.kernel) := by
  obtain ⟨s', hrun, hm⟩ := guarded_run_of_eval KeepsWaiting packedPlatform bootSystem
    contended (fun s => s.kernel.mutexes 0) (some ⟨true, some 1, 8⟩) (by decide +kernel)
  exact ⟨s', hrun, hm, wait_set_consistent _ _ _ _ bootSystem_initial hrun⟩

/-- Then Task C is terminated by syscall 8: its bit stays set. -/
theorem terminated_waiter_keeps_bit :
    (∃ s', Run (Step packedPlatform) bootSystem (contended ++ [syscall 0 8 3 0 0]) s' ∧
      ¬ WaitSet (view s'.kernel)) ∧
    ¬ ∀ P s s' es, Initial P s → Run (Step P) s es s' → WaitSet (view s'.kernel) := by
  have hrun : ∃ s', Run (Step packedPlatform) bootSystem (contended ++ [syscall 0 8 3 0 0]) s' ∧
      ¬ WaitSet (view s'.kernel) := by
    obtain ⟨s', hrun, hf⟩ := run_of_eval packedPlatform bootSystem
      (contended ++ [syscall 0 8 3 0 0])
      (fun s => (s.kernel.mutexes 0, s.kernel.stateOf 0 3, s.kernel.stateOf 1 3))
      (some ⟨true, some 1, 8⟩, none, some .terminated) (by decide +kernel)
    obtain ⟨hm, h0, h1⟩ := by simpa only [Prod.mk.injEq] using hf
    refine ⟨s', hrun, fun hw => ?_⟩
    obtain ⟨h, hh⟩ := (hw 0 _ hm 3).mp (by decide)
    have hst : s'.kernel.stateOf h 3 = some (.blockedOnMutex (BitVec.ofNat 8 0)) := hh
    fin_cases h
    · rw [show s'.kernel.stateOf (⟨0, by decide⟩ : Hart) 3 = none from h0] at hst
      cases hst
    · rw [show s'.kernel.stateOf (⟨1, by decide⟩ : Hart) 3 = some .terminated from h1] at hst
      cases hst
  refine ⟨hrun, fun hall => ?_⟩
  obtain ⟨s', hs', hno⟩ := hrun
  exact hno (hall _ _ _ _ bootSystem_initial hs')

end Cerberus.Mutex
