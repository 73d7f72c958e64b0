import Cerberus.Mutex.WaitSet

/-! # Terminated tasks

Recovery runs once, when a task is terminated, and on the hart that terminates it. Two things follow
only under a condition: a terminated task owns no mutex, and a terminated task stays terminated until
the Watchdog restarts it. -/
namespace Cerberus.Mutex
open Kernel Scheduler Sync Transition
set_option autoImplicit false

/-! ## States an effect cannot produce -/

def NoneTerminates (v v' : View) : Prop :=
  ∀ x, v'.state x = some .terminated → v.state x = some .terminated

theorem noneTerminates_setState {v : View} (x : TaskId) {st : TaskState} (hst : st ≠ .terminated) :
    NoneTerminates v (v.setState x st) := fun _ hy => View.state_of_setState hst hy

theorem state_wake_terminated (v : View) (h : Hart) (now : Word) (x : TaskId) :
    (v.wake h now).state x = some .terminated ↔ v.state x = some .terminated :=
  View.state_wake_iff (by simp) (by simp)

theorem state_resched_terminated {v v' : View} {h : Hart} {isTick : Bool}
    (hr : View.Resched h isTick v v') (x : TaskId) :
    v'.state x = some .terminated ↔ v.state x = some .terminated := hr.state_iff (by simp) (by simp)

/-! ## The recovery loop with the boot mutexes -/

theorem recover_of_none {v : View} {i : Fin 8} (hi : v.mutexes i = none)
    (target : Fin MAX_PARTITIONS) : v.recover target i = v := by
  have hno : ¬ v.Owns target i := by
    rintro ⟨m, hm, -⟩
    rw [hi] at hm
    cases hm
  rw [View.recover, if_neg hno]

theorem recoverAll_eq {v : View} (hv : v.BootShape) (target : Fin MAX_PARTITIONS) :
    v.recoverAll target = v.recover target 0 := by
  have hshape : (v.recover target 0).BootShape := by
    unfold View.recover
    split
    · exact hv.release 0
    · exact hv
  have hnone : ∀ i : Fin 8, i ≠ 0 → (v.recover target 0).mutexes i = none := by
    intro i hi
    by_contra hsome
    obtain ⟨m, hm⟩ := Option.ne_none_iff_exists'.mp hsome
    exact hi (hshape.mutexes i m hm)
  have hfold : List.finRange 8 = [0, 1, 2, 3, 4, 5, 6, 7] := rfl
  unfold View.recoverAll
  rw [hfold, List.foldl_cons]
  simp only [List.foldl_cons, List.foldl_nil, recover_of_none (hnone 1 (by decide)),
    recover_of_none (hnone 2 (by decide)), recover_of_none (hnone 3 (by decide)),
    recover_of_none (hnone 4 (by decide)), recover_of_none (hnone 5 (by decide)),
    recover_of_none (hnone 6 (by decide)), recover_of_none (hnone 7 (by decide))]

theorem apply_kill_of_owns {v : View} (hv : v.BootShape) (h : Hart) {x : TaskId}
    (hown : v.Owns x.2 0) :
    (Effect.kill x).apply h v = (v.setState x .terminated).release 0 := by
  have hv' : (v.setState x .terminated).BootShape := hv.setState _ fun b hb => by cases hb
  have hown' : (v.setState x .terminated).Owns x.2 0 := hown
  simp only [Effect.apply]
  rw [recoverAll_eq hv', View.recover, if_pos hown']

theorem apply_kill_of_not_owns {v : View} (hv : v.BootShape) (h : Hart) {x : TaskId}
    (hown : ¬ v.Owns x.2 0) : (Effect.kill x).apply h v = v.setState x .terminated := by
  have hv' : (v.setState x .terminated).BootShape := hv.setState _ fun b hb => by cases hb
  have hown' : ¬ (v.setState x .terminated).Owns x.2 0 := hown
  simp only [Effect.apply]
  rw [recoverAll_eq hv', View.recover, if_neg hown']

/-- The task that mutex `m` goes to when it is released. -/
def heir (m : KernelMutex) : Option TaskId := (BitSet.least m.waitersBitmap).map waiterTask

def heirOf (v : View) (i : Fin 8) : Option TaskId := (v.mutexes i).bind heir

theorem release_spec {v : View} {i : Fin 8} {m : KernelMutex} (hm : v.mutexes i = some m) :
    (heir m = none ∧ v.release i = v.setMutex i m.free) ∨
    (∃ w, heir m = some (waiterTask w) ∧ BitSet.Mem m.waitersBitmap w ∧
      v.release i = (v.setMutex i (m.handTo w)).setState (waiterTask w) .ready) := by
  rcases View.release_cases hm with ⟨hl, hr⟩ | ⟨w, hl, hr⟩
  · exact Or.inl ⟨by simp [heir, hl], hr⟩
  · exact Or.inr ⟨w, by simp [heir, hl], BitSet.mem_of_least hl, hr⟩

theorem ownerByte_inj {i j : Fin MAX_PARTITIONS} (h : ownerByte i = ownerByte j) : i = j := by
  have hi : i.val < 32 := i.isLt
  have hj : j.val < 32 := j.isLt
  have hn := congrArg BitVec.toNat h
  simp only [ownerByte, BitVec.toNat_ofNat] at hn
  exact Fin.ext (by omega)

/-- Task A and Task C are registered on one hart only. -/
theorem eq_of_locker_index {v : View} (hv : v.BootShape) {x y : TaskId} (hx : Locker x)
    (hy : (v.state y).isSome) (hidx : y.2 = x.2) : y = x := by
  obtain ⟨h, i⟩ := y
  obtain rfl : i = x.2 := hidx
  rw [hv.isSome] at hy
  revert hy
  rcases hx with rfl | rfl
  · fin_cases h <;> decide
  · fin_cases h <;> decide

/-! ## No orphaned lock -/

/-- No locked mutex has an owner that is `Terminated`. -/
def NoOrphan (v : View) : Prop :=
  ∀ i m, v.mutexes i = some m → m.locked = true → ∀ o, m.ownerTaskIdx = some (ownerByte o) →
    ∀ h, v.state (h, o) ≠ some .terminated

/-- The step does not grant a mutex to a task that is recorded as `Terminated`. -/
def GrantsLive (s : System) (ev : Event) : Prop :=
  match ev.effect s.kernel with
  | some (h, .grant _) => (view s.kernel).state ((view s.kernel).running h) ≠ some .terminated
  | _ => True

instance (s : System) (ev : Event) : Decidable (GrantsLive s ev) :=
  match he : ev.effect s.kernel with
  | some (h, .grant _) =>
    decidable_of_iff ((view s.kernel).state ((view s.kernel).running h) ≠ some .terminated)
      (by simp [GrantsLive, he])
  | none | some (_, .none) | some (_, .tick _) | some (_, .resched) | some (_, .block _)
  | some (_, .wait _) | some (_, .release _) | some (_, .transfer _) | some (_, .kill _) =>
    isTrue (by simp [GrantsLive, he])

theorem NoOrphan.congr {v v' : View} (hn : NoOrphan v) (hs : NoneTerminates v v')
    (hm : v'.mutexes = v.mutexes) : NoOrphan v' := by
  intro i m hmi hlocked o ho h hterm
  rw [hm] at hmi
  exact hn i m hmi hlocked o ho h (hs _ hterm)

theorem NoOrphan.setOwner {v : View} (hv : v.BootShape) {x : TaskId} (hx : Locker x)
    (hlive : v.state x ≠ some .terminated) {o : Fin MAX_PARTITIONS}
    (ho : some (ownerByte x.2) = some (ownerByte o)) (h : Hart) :
    v.state (h, o) ≠ some .terminated := by
  intro hterm
  have hsome : (v.state (h, o)).isSome := by
    rw [hterm]
    rfl
  rw [eq_of_locker_index hv hx hsome (ownerByte_inj (Option.some.inj ho)).symm] at hterm
  exact hlive hterm

theorem NoOrphan.release {v : View} (hv : v.BootShape) {i : Fin 8} {m : KernelMutex}
    (hm : v.mutexes i = some m)
    (hother : ∀ j mj, j ≠ i → v.mutexes j = some mj → mj.locked = true → ∀ o,
      mj.ownerTaskIdx = some (ownerByte o) → ∀ h, v.state (h, o) ≠ some .terminated) :
    NoOrphan (v.release i) := by
  rcases release_spec hm with ⟨-, hr⟩ | ⟨w, -, hmem, hr⟩
  · rw [hr]
    intro j mj hj
    refine View.setMutex_rule (fun hlocked => ?_) hother hj
    cases hlocked
  · have hreleased : (v.release i).BootShape := hv.release i
    have hw : Locker (waiterTask w) := hv.waiters i m hm w hmem
    rw [hr] at hreleased ⊢
    intro j mj hj
    rw [View.setState_mutexes] at hj
    refine View.setMutex_rule ?_ ?_ hj
    · intro _ o ho h
      refine NoOrphan.setOwner hreleased hw ?_ (x := waiterTask w) ho h
      rw [View.state_setState, if_pos rfl]
      intro hterm
      obtain ⟨_, -, he⟩ := Option.map_eq_some_iff.mp hterm
      cases he
    · intro j mj hji hj hlocked o ho h hterm
      exact hother j mj hji hj hlocked o ho h
        (noneTerminates_setState (v := v.setMutex i (m.handTo w)) _ (by simp) _ hterm)

theorem NoOrphan.kill {v : View} (hn : NoOrphan v) (hv : v.BootShape) (x : TaskId) (h : Hart) :
    NoOrphan ((Effect.kill x).apply h v) := by
  have hv' : (v.setState x .terminated).BootShape := hv.setState _ fun b hb => by cases hb
  by_cases hown : v.Owns x.2 0
  · rw [apply_kill_of_owns hv h hown]
    obtain ⟨m, hm, -⟩ := hown
    refine NoOrphan.release hv' hm fun j mj hj hmj => ?_
    exact absurd (hv'.mutexes j mj hmj) hj
  · rw [apply_kill_of_not_owns hv h hown]
    intro i m hm hlocked o ho h hterm
    have hi : i = 0 := hv'.mutexes i m hm
    subst hi
    have hox : (h, o) ≠ x := by
      rintro rfl
      exact hown ⟨m, hm, ho⟩
    rw [View.state_setState, if_neg hox] at hterm
    exact hn 0 m hm hlocked o ho h hterm

theorem NoOrphan.effect {v v' : View} (hn : NoOrphan v) (hv : v.BootShape) {h : Hart} {e : Effect}
    (hstep : EffectStep h e v v')
    (hgrant : ∀ i, e = .grant i → v.state (v.running h) ≠ some .terminated) : NoOrphan v' := by
  have happly : NoOrphan (e.apply h v) := by
    have hvalid := hstep.valid
    cases e with
    | none => exact hn
    | tick now => exact hn.congr (fun x => (state_wake_terminated v h now x).mp) rfl
    | resched => exact hn
    | block st =>
      refine hn.congr (noneTerminates_setState _ ?_) rfl
      rintro rfl
      exact hvalid
    | grant i =>
      obtain ⟨⟨m, hm, -⟩, hg⟩ := hvalid
      have hrun := hv.locker_of_grants (Or.inl rfl) hg
      simp only [Effect.apply, hm]
      intro j mj hj
      refine View.setMutex_rule (fun _ o ho h' => ?_) (fun j mj _ => hn j mj) hj
      exact NoOrphan.setOwner hv hrun (hgrant i rfl) ho h'
    | wait i =>
      obtain ⟨⟨m, hm, -⟩, -⟩ := hvalid
      simp only [Effect.apply, hm]
      have hblocked : NoOrphan (v.setState (v.running h) (.blockedOnMutex (BitVec.ofNat 8 i.val))) :=
        hn.congr (noneTerminates_setState _ (by simp)) rfl
      intro j mj hj
      exact View.setMutex_rule (hblocked i m hm) (fun j mj _ => hblocked j mj) hj
    | release i =>
      obtain ⟨⟨m, hm⟩, -⟩ := hvalid
      exact NoOrphan.release hv hm fun j mj hj hmj hlocked o ho => hn j mj hmj hlocked o ho
    | transfer x => exact hn.congr (noneTerminates_setState _ (by simp)) rfl
    | kill x => exact hn.kill hv x h
  rcases hstep.leads.cases with rfl | ⟨_, -, hr⟩
  · exact happly
  · exact happly.congr (fun x => (state_resched_terminated hr x).mp) hr.mutexes

theorem NoOrphan.step {s : System} {ev : Event} {v' : View} (hs : SysInv s)
    (hn : NoOrphan (view s.kernel)) (hguard : GrantsLive s ev)
    (hstep : StepView s.kernel ev v') : NoOrphan v' := by
  cases hstep with
  | effect hev hstep =>
    unfold GrantsLive at hguard
    rw [hev] at hguard
    refine hn.effect hs.shape hstep fun i he => ?_
    subst he
    exact hguard
  | restart _ _ _ hv =>
    rw [hv]
    exact hn.congr (noneTerminates_setState _ (by simp)) rfl
  | skip _ _ hv =>
    rw [hv]
    exact hn

theorem noOrphan_bootView : NoOrphan bootView := by
  intro i m hm hlocked
  rw [(bootView_mutexes hm).2] at hlocked
  cases hlocked

/-- In every run in which no terminated task is granted a mutex, no locked mutex has a terminated
owner in any state reached. -/
theorem no_orphaned_lock (P : Platform) (s s' : System) (es : List Event) (hs : Initial P s)
    (hrun : Run (Guarded (Step P) GrantsLive) s es s') : NoOrphan (view s'.kernel) :=
  guarded_invariant noOrphan_bootView (fun _ _ _ hinv hn hg hstep => hn.step hinv hg hstep) hs hrun

theorem no_orphaned_lock_recovered :
    ∃ s', Run (Guarded (Step packedPlatform) GrantsLive) bootSystem
        (contended ++ [syscall 0 8 1 0 0]) s' ∧
      s'.kernel.mutexes 0 = some ⟨true, some 3, 0⟩ ∧ NoOrphan (view s'.kernel) := by
  obtain ⟨s', hrun, hm⟩ := guarded_run_of_eval GrantsLive packedPlatform bootSystem
    (contended ++ [syscall 0 8 1 0 0]) (fun s => s.kernel.mutexes 0) (some ⟨true, some 3, 0⟩)
    (by decide +kernel)
  exact ⟨s', hrun, hm, no_orphaned_lock _ _ _ _ bootSystem_initial hrun⟩

/-- Task C is terminated from hart 0 while it executes on hart 1, and locks mutex 0 before its next
reschedule. -/
def lockAfterTermination : List Event := [syscall 1 1 0 0 0, syscall 0 8 3 0 0, syscall 1 3 0 0 0]

theorem terminated_task_gets_lock :
    (∃ s', Run (Step packedPlatform) bootSystem lockAfterTermination s' ∧
      ¬ NoOrphan (view s'.kernel)) ∧
    ¬ ∀ P s s' es, Initial P s → Run (Step P) s es s' → NoOrphan (view s'.kernel) := by
  have hrun : ∃ s', Run (Step packedPlatform) bootSystem lockAfterTermination s' ∧
      ¬ NoOrphan (view s'.kernel) := by
    obtain ⟨s', hrun, hf⟩ := run_of_eval packedPlatform bootSystem lockAfterTermination
      (fun s => (s.kernel.mutexes 0, s.kernel.stateOf 1 3))
      (some ⟨true, some 3, 0⟩, some .terminated) (by decide +kernel)
    obtain ⟨hm, h1⟩ := by simpa only [Prod.mk.injEq] using hf
    exact ⟨s', hrun, fun hn => hn 0 _ hm rfl 3 rfl 1 h1⟩
  refine ⟨hrun, fun hall => ?_⟩
  obtain ⟨s', hs', hno⟩ := hrun
  exact hno (hall _ _ _ _ bootSystem_initial hs')

/-! ## Termination is final -/

/-- The step blocks no task that is recorded as `Terminated`, and hands no mutex to a terminated task
or to the task it terminates. -/
def SparesTerminated (s : System) (ev : Event) : Prop :=
  match ev.effect s.kernel with
  | some (h, .block _) | some (h, .wait _) =>
    (view s.kernel).state ((view s.kernel).running h) ≠ some .terminated
  | some (_, .release i) => ∀ m ∈ (view s.kernel).mutexes i, ∀ y ∈ heir m,
    (view s.kernel).state y ≠ some .terminated
  | some (_, .kill x) => ∀ i, ∀ m ∈ (view s.kernel).mutexes i,
    m.ownerTaskIdx = some (ownerByte x.2) → ∀ y ∈ heir m,
      (view s.kernel).state y ≠ some .terminated ∧ y ≠ x
  | _ => True

instance (s : System) (ev : Event) : Decidable (SparesTerminated s ev) :=
  match he : ev.effect s.kernel with
  | some (h, .block _) | some (h, .wait _) =>
    decidable_of_iff ((view s.kernel).state ((view s.kernel).running h) ≠ some .terminated)
      (by simp [SparesTerminated, he])
  | some (_, .release i) =>
    decidable_of_iff (((view s.kernel).mutexes i).all fun m =>
        (heir m).all fun y => decide ((view s.kernel).state y ≠ some .terminated))
      (by simp [SparesTerminated, he, Option.all_eq_true])
  | some (_, .kill x) =>
    decidable_of_iff ((List.finRange 8).all fun i => ((view s.kernel).mutexes i).all fun m =>
        decide (m.ownerTaskIdx = some (ownerByte x.2) → (heir m).all fun y =>
          decide ((view s.kernel).state y ≠ some .terminated ∧ y ≠ x)))
      (by simp only [SparesTerminated, he, List.all_eq_true, List.mem_finRange, true_implies,
        Option.all_eq_true, decide_eq_true_eq, Option.mem_def])
  | none | some (_, .none) | some (_, .tick _) | some (_, .resched) | some (_, .grant _)
  | some (_, .transfer _) => isTrue (by simp [SparesTerminated, he])

def StaysTerminated (v v' : View) : Prop :=
  ∀ x, v.state x = some .terminated → v'.state x = some .terminated

theorem staysTerminated_setState {v : View} {x : TaskId} (st : TaskState)
    (hx : v.state x ≠ some .terminated) : StaysTerminated v (v.setState x st) := by
  intro y hy
  rw [View.state_setState]
  by_cases hyx : y = x
  · rw [hyx] at hy
    exact absurd hy hx
  · rw [if_neg hyx]
    exact hy

theorem staysTerminated_release {v : View} {i : Fin 8} {m : KernelMutex} (hm : v.mutexes i = some m)
    (hheir : ∀ y ∈ heir m, v.state y ≠ some .terminated) : StaysTerminated v (v.release i) := by
  rcases release_spec hm with ⟨-, hr⟩ | ⟨w, hh, -, hr⟩
  · rw [hr]
    exact fun _ hx => hx
  · rw [hr]
    exact staysTerminated_setState (v := v.setMutex i (m.handTo w)) _ (hheir _ hh)

theorem staysTerminated_kill {v : View} (hv : v.BootShape) (h : Hart) {x : TaskId}
    (hx : (v.state x).isSome)
    (hheir : ∀ i, ∀ m ∈ v.mutexes i, m.ownerTaskIdx = some (ownerByte x.2) → ∀ y ∈ heir m,
      v.state y ≠ some .terminated ∧ y ≠ x) :
    StaysTerminated v ((Effect.kill x).apply h v) ∧
      ((Effect.kill x).apply h v).state x = some .terminated := by
  have hdead : (v.setState x .terminated).state x = some .terminated := by
    obtain ⟨st, hst⟩ := Option.isSome_iff_exists.mp hx
    rw [View.state_setState, if_pos rfl, hst]
    rfl
  have hkeep : StaysTerminated v (v.setState x .terminated) := by
    intro y hy
    by_cases hyx : y = x
    · rw [hyx]
      exact hdead
    · rw [View.state_setState, if_neg hyx]
      exact hy
  have hrecover : StaysTerminated (v.setState x .terminated) ((Effect.kill x).apply h v) := by
    by_cases hown : v.Owns x.2 0
    · rw [apply_kill_of_owns hv h hown]
      obtain ⟨m, hm, ho⟩ := hown
      refine staysTerminated_release hm fun y hy => ?_
      obtain ⟨hlive, hne⟩ := hheir 0 m hm ho y hy
      rw [View.state_setState, if_neg hne]
      exact hlive
    · rw [apply_kill_of_not_owns hv h hown]
      exact fun _ hy => hy
  exact ⟨fun y hy => hrecover y (hkeep y hy), hrecover x hdead⟩

theorem staysTerminated_effect {v v' : View} (hv : v.BootShape) {h : Hart} {e : Effect}
    (hstep : EffectStep h e v v')
    (hblock : ∀ st, e = .block st → v.state (v.running h) ≠ some .terminated)
    (hwait : ∀ i, e = .wait i → v.state (v.running h) ≠ some .terminated)
    (hrelease : ∀ i, e = .release i → ∀ m ∈ v.mutexes i, ∀ y ∈ heir m,
      v.state y ≠ some .terminated)
    (hkill : ∀ x, e = .kill x → ∀ i, ∀ m ∈ v.mutexes i,
      m.ownerTaskIdx = some (ownerByte x.2) → ∀ y ∈ heir m,
        v.state y ≠ some .terminated ∧ y ≠ x) :
    StaysTerminated v v' ∧ ∀ x, e = .kill x → v'.state x = some .terminated := by
  have happly : StaysTerminated v (e.apply h v) ∧
      ∀ x, e = .kill x → (e.apply h v).state x = some .terminated := by
    have hvalid := hstep.valid
    cases e with
    | none => exact ⟨fun _ hx => hx, fun x hx => by cases hx⟩
    | tick now =>
      exact ⟨fun x => (state_wake_terminated v h now x).mpr, fun x hx => by cases hx⟩
    | resched => exact ⟨fun _ hx => hx, fun x hx => by cases hx⟩
    | block st =>
      exact ⟨staysTerminated_setState st (hblock st rfl), fun x hx => by cases hx⟩
    | grant i =>
      obtain ⟨⟨m, hm, -⟩, -⟩ := hvalid
      simp only [Effect.apply, hm]
      exact ⟨fun _ hx => hx, fun x hx => by cases hx⟩
    | wait i =>
      obtain ⟨⟨m, hm, -⟩, -⟩ := hvalid
      simp only [Effect.apply, hm]
      exact ⟨staysTerminated_setState _ (hwait i rfl), fun x hx => by cases hx⟩
    | release i =>
      obtain ⟨⟨m, hm⟩, -⟩ := hvalid
      exact ⟨staysTerminated_release hm (hrelease i rfl m hm), fun x hx => by cases hx⟩
    | transfer x =>
      obtain ⟨st, hst, hipc⟩ := hvalid
      refine ⟨staysTerminated_setState _ fun hterm => ?_, fun x hx => by cases hx⟩
      rw [hst] at hterm
      rw [Option.some.inj hterm] at hipc
      exact hipc
    | kill x =>
      obtain ⟨hall, hx⟩ := staysTerminated_kill hv h hvalid (hkill x rfl)
      refine ⟨hall, fun y hy => ?_⟩
      obtain rfl : x = y := by simpa using hy
      exact hx
  rcases hstep.leads.cases with rfl | ⟨_, -, hr⟩
  · exact happly
  · refine ⟨fun x hx => ?_, fun x hx => ?_⟩
    · exact (state_resched_terminated hr x).mpr (happly.1 x hx)
    · exact (state_resched_terminated hr x).mpr (happly.2 x hx)

/-- One step: a terminated task stays so unless it is restarted, and a task the step terminates is
terminated after it. -/
theorem staysTerminated_step {s : System} {ev : Event} {v' : View} (hs : SysInv s)
    (hguard : SparesTerminated s ev) (hstep : StepView s.kernel ev v') :
    (∀ x, (view s.kernel).state x = some .terminated → ev.restarts ≠ some x →
      v'.state x = some .terminated) ∧
    (∀ h x, ev.effect s.kernel = some (h, .kill x) → v'.state x = some .terminated) := by
  cases hstep with
  | @effect h e hev hstep =>
    unfold SparesTerminated at hguard
    rw [hev] at hguard ⊢
    obtain ⟨hstay, hkill⟩ := staysTerminated_effect hs.shape hstep
      (fun st he => by subst he; exact hguard) (fun i he => by subst he; exact hguard)
      (fun i he => by subst he; exact hguard) (fun x he => by subst he; exact hguard)
    refine ⟨fun x hx _ => hstay x hx, fun h' x he => hkill x ?_⟩
    exact (Prod.ext_iff.mp (Option.some.inj he)).2
  | @restart x hev _ _ hv =>
    refine ⟨fun y hy hne => ?_, fun h y he => ?_⟩
    · have hyx : y ≠ x := fun heq => hne (heq ▸ hev)
      rw [hv, View.state_setState, if_neg hyx]
      exact hy
    · cases ev <;> simp [Event.restarts, Event.effect] at hev he
  | skip hev _ hv =>
    rw [hv]
    refine ⟨fun x hx _ => hx, fun h x he => ?_⟩
    rw [hev] at he
    cases he

theorem staysTerminated_run {P : Platform} {s s' : System} {es : List Event} (hs : SysInv s)
    (hrun : Run (Guarded (Step P) SparesTerminated) s es s') (x : TaskId)
    (hx : (view s.kernel).state x = some .terminated) (hno : ∀ ev ∈ es, ev.restarts ≠ some x) :
    (view s'.kernel).state x = some .terminated := by
  induction es generalizing s with
  | nil =>
    have hss : s = s' := hrun
    exact hss ▸ hx
  | cons ev es ih =>
    obtain ⟨u, ⟨hstep, hguard⟩, hrun⟩ := hrun
    have hu := (staysTerminated_step hs hguard (step_cases hs hstep).1).1 x hx
      (hno ev (List.mem_cons_self ..))
    exact ih (sysInv_step s ev u hs hstep) hrun hu fun e he => hno e (List.mem_cons_of_mem _ he)

/-- In every run whose steps spare the terminated tasks: a task found `Terminated` stays so until the
Watchdog restarts it, and a trap that terminates a task leaves it `Terminated`. -/
theorem termination_final (P : Platform) (s s1 s2 : System) (es1 es2 : List Event)
    (hs : Initial P s) (hrun1 : Run (Guarded (Step P) SparesTerminated) s es1 s1)
    (hrun2 : Run (Guarded (Step P) SparesTerminated) s1 es2 s2) (x : TaskId) :
    ((view s1.kernel).state x = some .terminated → (∀ ev ∈ es2, ev.restarts ≠ some x) →
      (view s2.kernel).state x = some .terminated) ∧
    (∀ ev h, es2 = [ev] → ev.effect s1.kernel = some (h, .kill x) →
      (view s2.kernel).state x = some .terminated) := by
  have hinv : SysInv s1 := sysInv_run hs hrun1.unguard
  refine ⟨fun hx hno => staysTerminated_run hinv hrun2 x hx hno, fun ev h hes he => ?_⟩
  subst hes
  obtain ⟨u, ⟨hstep, hguard⟩, hend⟩ := hrun2
  have hu : u = s2 := hend
  subst hu
  exact (staysTerminated_step hinv hguard (step_cases hinv hstep).1).2 h x he

theorem termination_final_idle_mutex :
    ∃ s1 s2, Run (Guarded (Step packedPlatform) SparesTerminated) bootSystem
        [syscall 0 8 3 0 0] s1 ∧
      Run (Guarded (Step packedPlatform) SparesTerminated) s1
        [syscall 1 1 0 0 0, syscall 0 1 0 0 0, syscall 0 3 0 0 0] s2 ∧
      (view s1.kernel).state taskC = some .terminated ∧
      (view s2.kernel).state taskC = some .terminated := by
  obtain ⟨s1, hrun1, hf1⟩ := guarded_run_of_eval SparesTerminated packedPlatform bootSystem
    [syscall 0 8 3 0 0]
    (fun s => (s.kernel.stateOf 1 3,
      ([syscall 1 1 0 0 0, syscall 0 1 0 0 0, syscall 0 3 0 0 0].foldlM
        (System.nextIf SparesTerminated packedPlatform) s).isSome))
    (some .terminated, true) (by decide +kernel)
  obtain ⟨hterm, hsome⟩ := by simpa only [Prod.mk.injEq] using hf1
  obtain ⟨s2, hs2⟩ := Option.isSome_iff_exists.mp hsome
  obtain ⟨s2', hrun2, -⟩ := guarded_run_of_eval SparesTerminated packedPlatform s1 _
    (fun _ => ()) () (by rw [hs2]; rfl)
  exact ⟨s1, s2', hrun1, hrun2, hterm,
    (termination_final _ _ _ _ _ _ bootSystem_initial hrun1 hrun2 taskC).1 hterm (by decide)⟩

/-- Task C is terminated while it waits; Task A's unlock hands the mutex to it and makes it
`Ready`. -/
theorem unlock_revives_terminated_waiter :
    (∃ s1 s2, Run (Step packedPlatform) bootSystem (contended ++ [syscall 0 8 3 0 0]) s1 ∧
      (view s1.kernel).state taskC = some .terminated ∧
      Step packedPlatform s1 (syscall 0 4 0 0 0) s2 ∧
      (view s2.kernel).state taskC = some .ready) ∧
    ¬ ∀ P s s1 s2 es ev x, Initial P s → Run (Step P) s es s1 →
      (view s1.kernel).state x = some .terminated → Step P s1 ev s2 → ev.restarts ≠ some x →
      (view s2.kernel).state x = some .terminated := by
  have hrun : ∃ s1 s2, Run (Step packedPlatform) bootSystem (contended ++ [syscall 0 8 3 0 0]) s1 ∧
      (view s1.kernel).state taskC = some .terminated ∧
      Step packedPlatform s1 (syscall 0 4 0 0 0) s2 ∧
      (view s2.kernel).state taskC = some .ready := by
    obtain ⟨s1, hrun, hf⟩ := run_of_eval packedPlatform bootSystem
      (contended ++ [syscall 0 8 3 0 0])
      (fun s => (s.kernel.stateOf 1 3,
        (s.next packedPlatform (syscall 0 4 0 0 0)).map fun s' => s'.kernel.stateOf 1 3))
      (some .terminated, some (some .ready)) (by decide +kernel)
    obtain ⟨hterm, hnext⟩ := by simpa only [Prod.mk.injEq] using hf
    obtain ⟨s2, hs2, hready⟩ := Option.map_eq_some_iff.mp hnext
    exact ⟨s1, s2, hrun, hterm, hs2, hready⟩
  refine ⟨hrun, fun hall => ?_⟩
  obtain ⟨s1, s2, hs1, hterm, hstep, hready⟩ := hrun
  have hstay := hall _ _ _ _ _ _ taskC bootSystem_initial hs1 hterm hstep (by decide)
  rw [hready] at hstay
  cases hstay

end Cerberus.Mutex
