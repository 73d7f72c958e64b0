import Cerberus.Mutex.Termination

/-! # Mutual exclusion

A task is inside a mutex from its grant until its unlock, or until it executes no more. What a task
does is not in the kernel's records: `heldAlong` follows the grants and unlocks of a run, `executes`
looks ahead in the run. The records agree with it as long as a mutex is recovered only from a task
that stops executing. -/
namespace Cerberus.Mutex
open Kernel Scheduler Sync Transition
set_option autoImplicit false

/-! ## Who is inside -/

/-- The grants held after an event. A handoff is a grant to the heir; the restart of a task that is
not executing ends what it held. -/
def nextHeld (k : Kernel) (ev : Event) (held : TaskId → Fin 8 → Bool) (x : TaskId) (j : Fin 8) :
    Bool :=
  let v := view k
  match ev.effect k with
  | some (h, .grant i) => held x j || decide (x = v.running h ∧ j = i)
  | some (h, .release i) =>
    held x j && !decide (x = v.running h ∧ j = i) || decide (j = i ∧ heirOf v i = some x)
  | some (_, .kill y) => held x j || decide (v.Owns y.2 j ∧ heirOf v j = some x)
  | some _ => held x j
  | none => held x j && !decide (ev.restartsNow k = some x ∧ v.running x.1 ≠ x)

/-- The grants held after the events `es` from `s`. -/
def heldAlong (P : Platform) : System → (TaskId → Fin 8 → Bool) → List Event → TaskId → Fin 8 → Bool
  | _, held, [] => held
  | s, held, ev :: es =>
    match s.next P ev with
    | some u => heldAlong P u (nextHeld s.kernel ev held) es
    | none => held

/-- Task `x` executes now or along the events `es`, before a restart begins it anew. -/
def executes (P : Platform) (x : TaskId) : System → List Event → Bool
  | s, [] => decide ((view s.kernel).running x.1 = x)
  | s, ev :: es => decide ((view s.kernel).running x.1 = x) ||
    decide (ev.restartsNow s.kernel ≠ some x) &&
      match s.next P ev with
      | some u => executes P x u es
      | none => false

/-- After the events `es` from `s`, in a run that goes on from `s'` with `fs`, task `x` is inside
mutex `i`. -/
def Inside (P : Platform) (s : System) (es : List Event) (s' : System) (fs : List Event)
    (x : TaskId) (i : Fin 8) : Prop :=
  heldAlong P s (fun _ _ => false) es x i = true ∧ executes P x s' fs = true

/-- A task inside a mutex is its recorded owner, and no two tasks are inside one mutex. -/
def Exclusive (P : Platform) (s : System) (es : List Event) (s' : System) (fs : List Event) :
    Prop :=
  (∀ x i, Inside P s es s' fs x i → (view s'.kernel).Owns x.2 i) ∧
    ∀ x y i, Inside P s es s' fs x i → Inside P s es s' fs y i → x = y

/-- If the step terminates the owner of a mutex, the mutex comes back to it, or it does not wait and
does not execute afterwards: it runs on no hart, or on the hart of the step, which has another task
to switch to. -/
def StopsOwner (s : System) (ev : Event) : Prop :=
  match ev.effect s.kernel with
  | some (h, .kill x) => ∀ i, ∀ m ∈ (view s.kernel).mutexes i,
    m.ownerTaskIdx = some (ownerByte x.2) → heir m = some x ∨
      (¬ BitSet.Mem m.waitersBitmap x.2 ∧ ((view s.kernel).running x.1 ≠ x ∨
        (x = (view s.kernel).running h ∧ ∃ n, (h, n) ≠ x ∧
          ((view s.kernel).state (h, n) = some .ready ∨ heir m = some (h, n)))))
  | _ => True

instance (s : System) (ev : Event) : Decidable (StopsOwner s ev) :=
  match he : ev.effect s.kernel with
  | some (h, .kill x) =>
    decidable_of_iff ((List.finRange 8).all fun i => ((view s.kernel).mutexes i).all fun m =>
        decide (m.ownerTaskIdx = some (ownerByte x.2) → heir m = some x ∨
          (¬ BitSet.Mem m.waitersBitmap x.2 ∧ ((view s.kernel).running x.1 ≠ x ∨
            (x = (view s.kernel).running h ∧ (List.finRange MAX_PARTITIONS).any fun n =>
              decide ((h, n) ≠ x ∧
                ((view s.kernel).state (h, n) = some .ready ∨ heir m = some (h, n))))))))
      (by simp only [StopsOwner, he, List.all_eq_true, List.any_eq_true, List.mem_finRange,
        true_implies, true_and, Option.all_eq_true, decide_eq_true_eq, Option.mem_def])
  | none | some (_, .none) | some (_, .tick _) | some (_, .resched) | some (_, .block _)
  | some (_, .grant _) | some (_, .wait _) | some (_, .release _) | some (_, .transfer _) =>
    isTrue (by simp [StopsOwner, he])

/-! ## Tasks that execute no more -/

structure Ended (v : View) (x : TaskId) : Prop where
  terminated : v.state x = some .terminated
  noBit : ∀ i m, v.mutexes i = some m → ¬ BitSet.Mem m.waitersBitmap x.2

/-- Ended and off its hart: nothing but a restart brings the task back. -/
structure Dead (v : View) (x : TaskId) : Prop extends Ended v x where
  stopped : v.running x.1 ≠ x

namespace Ended
variable {v : View} {x : TaskId}

theorem setState (hd : Ended v x) {y : TaskId} (st : TaskState) (hy : y ≠ x) :
    Ended (v.setState y st) x where
  terminated := by
    rw [View.state_setState, if_neg hy.symm]
    exact hd.terminated
  noBit := hd.noBit

theorem terminate (hd : Ended v x) (y : TaskId) : Ended (v.setState y .terminated) x := by
  by_cases hy : y = x
  · refine ⟨?_, hd.noBit⟩
    rw [View.state_setState, if_pos hy.symm, hy, hd.terminated]
    rfl
  · exact hd.setState _ hy

theorem setMutex (hd : Ended v x) (i : Fin 8) {m : KernelMutex}
    (hm : ¬ BitSet.Mem m.waitersBitmap x.2) : Ended (v.setMutex i m) x where
  terminated := hd.terminated
  noBit := fun _ _ hj => View.setMutex_rule hm (fun j mj _ => hd.noBit j mj) hj

theorem release (hd : Ended v x) (i : Fin 8) : Ended (v.release i) x := by
  refine View.release_rule (I := fun u => Ended u x) hd (fun m hm _ => ?_) fun m w hm hl => ?_
  · exact hd.setMutex i (hd.noBit i m hm)
  · have hbit := hd.noBit i m hm
    have hne : waiterTask w ≠ x := by
      rintro rfl
      exact hbit (BitSet.mem_of_least hl)
    exact (hd.setMutex i fun hw => hbit (BitSet.mem_erase.mp hw).1).setState _ hne

theorem resched (hd : Ended v x) {h : Hart} {isTick : Bool} {v' : View}
    (hr : View.Resched h isTick v v') : Ended v' x := by
  refine ⟨(state_resched_terminated hr x).mpr hd.terminated, ?_⟩
  rw [hr.mutexes]
  exact hd.noBit

theorem apply (hd : Ended v x) (hv : v.BootShape) (hx : Locker x) {h : Hart}
    (hother : v.running h ≠ x) {e : Effect} (hvalid : e.Valid h v) : Ended (e.apply h v) x := by
  cases e with
  | none => exact hd
  | tick now => exact ⟨(state_wake_terminated v h now x).mpr hd.terminated, hd.noBit⟩
  | resched => exact hd
  | block st => exact hd.setState st hother
  | grant i =>
    obtain ⟨⟨m, hm, -⟩, -⟩ := hvalid
    simp only [Effect.apply, hm]
    exact hd.setMutex i (hd.noBit i m hm)
  | wait i =>
    obtain ⟨⟨m, hm, -⟩, -⟩ := hvalid
    simp only [Effect.apply, hm]
    refine (hd.setState _ hother).setMutex i fun hw => ?_
    rcases BitSet.mem_insert.mp hw with hw | hcur
    · exact hd.noBit i m hm hw
    · -- the new bit stands for the running task: Task A and Task C have one slot each
      exact hother (eq_of_locker_index hv hx (hv.running h) hcur.symm)
  | release i => exact hd.release i
  | transfer y =>
    obtain ⟨st, hst, hipc⟩ := hvalid
    refine hd.setState _ fun hyx => ?_
    rw [hyx, hd.terminated] at hst
    rw [← Option.some.inj hst] at hipc
    exact hipc
  | kill y =>
    exact View.recoverAll_induction (I := fun u => Ended u x) (fun u i hu _ => hu.release i)
      (hd.terminate y)

theorem dead_of_swap (hd : Ended v x) {h : Hart} (hx : x.1 = h) {n : Fin MAX_PARTITIONS}
    (hn : v.state (h, n) = some .ready) : Dead (v.swap h n) x where
  toEnded := hd.resched (.swap true hn)
  stopped := fun hrun => by
    have hxn : x = (h, n) := by
      rw [← hrun]
      simp [View.running, View.swap, hx]
    rw [← hxn, hd.terminated] at hn
    cases hn

end Ended

namespace Dead
variable {v : View} {x : TaskId}

theorem resched (hd : Dead v x) {h : Hart} {isTick : Bool} {v' : View}
    (hr : View.Resched h isTick v v') : Dead v' x := by
  rcases hr with ⟨rfl, -⟩ | ⟨n, hn, rfl⟩
  · exact hd
  · by_cases hx : x.1 = h
    · exact hd.toEnded.dead_of_swap hx hn
    · refine ⟨hd.toEnded.resched (.swap true hn), fun hrun => ?_⟩
      apply hd.stopped
      rw [← hrun]
      simp [View.running, View.swap, hx]

theorem effect (hd : Dead v x) (hv : v.BootShape) (hx : Locker x) {h : Hart} {e : Effect}
    {v' : View} (hstep : EffectStep h e v v') : Dead v' x := by
  have hother : v.running h ≠ x := by
    intro hrun
    apply hd.stopped
    rw [← hrun]
    rfl
  have happly : Dead (e.apply h v) x := by
    refine ⟨hd.toEnded.apply hv hx hother hstep.valid, ?_⟩
    rw [View.running, (Effect.apply_shape h v e).current]
    exact hd.stopped
  rcases hstep.leads.cases with rfl | ⟨_, -, hr⟩
  · exact happly
  · exact happly.resched hr

theorem step (hd : Dead v x) (hx : Locker x) {s : System} (hview : view s.kernel = v)
    (hs : SysInv s) {ev : Event} (hno : ev.restartsNow s.kernel ≠ some x) {v' : View}
    (hstep : StepView s.kernel ev v') : Dead v' x := by
  subst hview
  cases hstep with
  | effect _ hstep => exact hd.effect hs.shape hx hstep
  | restart _ hnow _ hv =>
    rw [hv]
    exact ⟨hd.toEnded.setState _ fun hyx => hno (hyx ▸ hnow), hd.stopped⟩
  | skip _ _ hv =>
    rw [hv]
    exact hd

/-- A dead task executes nothing in any continuation. -/
theorem not_executes {P : Platform} {s : System} (hs : SysInv s) (hx : Locker x)
    (hd : Dead (view s.kernel) x) (fs : List Event) : executes P x s fs = false := by
  induction fs generalizing s with
  | nil => simpa [executes] using hd.stopped
  | cons ev fs ih =>
    have hstopped := hd.stopped
    by_cases hno : ev.restartsNow s.kernel = some x
    · simp [executes, hstopped, hno]
    · cases hnext : s.next P ev with
      | none => simp [executes, hstopped, hnext]
      | some u =>
        have hu : SysInv u := sysInv_step s ev u hs hnext
        have hdu := hd.step hx rfl hs hno (step_cases hs hnext).1
        simp [executes, hstopped, hnext, ih hu hdu]

end Dead

/-! ## The records agree with the grants -/

def Holds (v : View) (x : TaskId) (i : Fin 8) : Prop :=
  ∃ m, v.mutexes i = some m ∧ m.locked = true ∧ m.ownerTaskIdx = some (ownerByte x.2)

/-- Whoever was granted a mutex and has not unlocked it is its owner, or executes no more. -/
def HeldInv (v : View) (held : TaskId → Fin 8 → Bool) : Prop :=
  ∀ x i, held x i = true → Locker x ∧ (Holds v x i ∨ Dead v x)

theorem Holds.congr {v v' : View} {x : TaskId} {i : Fin 8} (hh : Holds v x i)
    (hm : v'.mutexes = v.mutexes) : Holds v' x i := by
  obtain ⟨m, hmi, hrest⟩ := hh
  exact ⟨m, hm ▸ hmi, hrest⟩

/-- The owner byte of a held mutex names one registered task. -/
theorem Holds.owner_eq {v : View} (hv : v.BootShape) {x y : TaskId} (hy : Locker y) {i : Fin 8}
    (hh : Holds v y i) {m : KernelMutex} (hm : v.mutexes i = some m)
    (ho : m.ownerTaskIdx = some (ownerByte x.2)) (hx : (v.state x).isSome) : x = y := by
  obtain ⟨m', hm', -, ho'⟩ := hh
  rw [hm] at hm'
  rw [← Option.some.inj hm', ho] at ho'
  exact eq_of_locker_index hv hy hx (ownerByte_inj (Option.some.inj ho'))

theorem Holds.unique {v : View} (hv : v.BootShape) {x y : TaskId} (hx : Locker x) (hy : Locker y)
    {i : Fin 8} (hhx : Holds v x i) (hhy : Holds v y i) : x = y := by
  obtain ⟨m, hm, -, ho⟩ := hhx
  refine hhy.owner_eq hv hy hm ho ?_
  rw [hv.isSome]
  exact bootStatic_isSome_of_locker hx

theorem holds_of_heir {v : View} {i : Fin 8} {y : TaskId} (hy : heirOf v i = some y) :
    Holds (v.release i) y i := by
  obtain ⟨m, hm, hheir⟩ := Option.bind_eq_some_iff.mp hy
  rcases release_spec hm with ⟨hnone, -⟩ | ⟨w, hw, -, hr⟩
  · rw [hnone] at hheir
    cases hheir
  · rw [hheir] at hw
    rw [hr, Option.some.inj hw]
    exact ⟨m.handTo w, by simp [View.setMutex], rfl, rfl⟩

theorem Holds.release_other {v : View} {x : TaskId} {i j : Fin 8} (hh : Holds v x j) (hji : j ≠ i) :
    Holds (v.release i) x j := by
  obtain ⟨mj, hmj, hrest⟩ := hh
  exact ⟨mj, (View.mutexes_release_of_ne hji).trans hmj, hrest⟩

theorem state_release_ready {v : View} (hv : v.BootShape) {i : Fin 8} {m : KernelMutex}
    (hm : v.mutexes i = some m) {y : TaskId} (hy : v.state y = some .ready ∨ heir m = some y) :
    (v.release i).state y = some .ready := by
  rcases release_spec hm with ⟨hnone, hr⟩ | ⟨w, hw, hmem, hr⟩
  · rw [hr]
    rcases hy with hy | hy
    · exact hy
    · rw [hnone] at hy
      cases hy
  · rw [hr, View.state_setState]
    by_cases hyw : y = waiterTask w
    · have hsome : (v.state (waiterTask w)).isSome := by
        rw [hv.isSome]
        exact bootStatic_isSome_of_locker (hv.waiters i m hm w hmem)
      obtain ⟨st, hst⟩ := Option.isSome_iff_exists.mp hsome
      rw [if_pos hyw, View.setMutex_state, hst]
      rfl
    · rw [if_neg hyw]
      rcases hy with hy | hy
      · exact hy
      · rw [hw] at hy
        exact absurd (Option.some.inj hy).symm hyw

theorem Holds.effect {v v' : View} (hv : v.BootShape) {h : Hart} {e : Effect}
    (hstep : EffectStep h e v v') {y : TaskId} (hy : Locker y) {i : Fin 8} (hh : Holds v y i)
    (hrelease : ¬ (e = .release i ∧ y = v.running h)) (hkill : e ≠ .kill y) : Holds v' y i := by
  refine Holds.congr (v := e.apply h v) ?_ hstep.leads.mutexes
  have hvalid := hstep.valid
  cases e with
  | none => exact hh
  | tick now => exact hh
  | resched => exact hh
  | block st => exact hh
  | grant j =>
    obtain ⟨⟨m, hm, hfree⟩, -⟩ := hvalid
    obtain ⟨mi, hmi, hlocked, ho⟩ := hh
    simp only [Effect.apply, hm]
    have hij : i ≠ j := by
      rintro rfl
      rw [hm] at hmi
      rw [← Option.some.inj hmi, hfree] at hlocked
      cases hlocked
    exact ⟨mi, by rw [View.mutexes_setMutex, if_neg hij]; exact hmi, hlocked, ho⟩
  | wait j =>
    obtain ⟨⟨m, hm, -⟩, -⟩ := hvalid
    obtain ⟨mi, hmi, hlocked, ho⟩ := hh
    simp only [Effect.apply, hm]
    by_cases hij : i = j
    · subst hij
      rw [hm] at hmi
      obtain rfl : m = mi := Option.some.inj hmi
      refine ⟨{ m with waitersBitmap := m.waitersBitmap ||| BitSet.single (v.current h) }, ?_,
        hlocked, ho⟩
      rw [View.mutexes_setMutex, if_pos rfl]
    · exact ⟨mi, by rw [View.mutexes_setMutex, if_neg hij]; exact hmi, hlocked, ho⟩
  | release j =>
    refine hh.release_other fun hij => hrelease ⟨by rw [hij], ?_⟩
    -- the caller is the recorded owner
    subst hij
    obtain ⟨m, hm, ho⟩ := hstep.owns i rfl
    exact (hh.owner_eq hv hy hm ho (hv.running h)).symm
  | transfer x => exact hh
  | kill x =>
    rw [apply_kill_of_not_owns hv]
    · exact hh
    · rintro ⟨m, hm, ho⟩
      have hi : i = 0 := hv.mutexes i _ hh.choose_spec.1
      rw [← hi] at hm
      exact hkill (by rw [hh.owner_eq hv hy hm ho hvalid])

theorem ended_of_kill {v : View} (hv : v.BootShape) {x : TaskId} (hx : (v.state x).isSome)
    {m : KernelMutex} (hm : v.mutexes 0 = some m) (hbit : ¬ BitSet.Mem m.waitersBitmap x.2) :
    Ended (v.setState x .terminated) x := by
  refine ⟨?_, fun j mj hj => ?_⟩
  · obtain ⟨st, hst⟩ := Option.isSome_iff_exists.mp hx
    rw [View.state_setState, if_pos rfl, hst]
    rfl
  · obtain rfl : j = 0 := hv.mutexes j mj hj
    rw [View.setState_mutexes, hm] at hj
    rw [← Option.some.inj hj]
    exact hbit

/-- The owner of a mutex is terminated under the condition of `StopsOwner`: it is the owner again,
or it is dead. -/
theorem Holds.kill {v v' : View} (hv : v.BootShape) {h : Hart} {x : TaskId}
    (hstep : EffectStep h (.kill x) v v') {i : Fin 8} (hh : Holds v x i)
    (hstop : ∀ j, ∀ m ∈ v.mutexes j, m.ownerTaskIdx = some (ownerByte x.2) → heir m = some x ∨
      (¬ BitSet.Mem m.waitersBitmap x.2 ∧ (v.running x.1 ≠ x ∨
        (x = v.running h ∧ ∃ n, (h, n) ≠ x ∧
          (v.state (h, n) = some .ready ∨ heir m = some (h, n)))))) :
    Holds v' x i ∨ Dead v' x := by
  have hv' : (v.setState x .terminated).BootShape := hv.setState _ fun b hb => by cases hb
  obtain ⟨m, hm, -, ho⟩ := hh
  obtain rfl : i = 0 := hv.mutexes i m hm
  have happly := apply_kill_of_owns hv h ⟨m, hm, ho⟩
  rcases hstop 0 m hm ho with hback | ⟨hbit, hstop⟩
  · left
    refine Holds.congr (v := (v.setState x .terminated).release 0) (holds_of_heir ?_) ?_
    · simp only [heirOf, View.setState_mutexes, hm]
      exact hback
    · rw [hstep.leads.mutexes, happly]
  · right
    have hended := ended_of_kill hv hstep.valid hm hbit
    have hreleased : Ended ((Effect.kill x).apply h v) x := happly ▸ hended.release 0
    rcases hstop with hstopped | ⟨hrun, n, hne, hn⟩
    · have hdead : Dead ((Effect.kill x).apply h v) x := by
        refine ⟨hreleased, ?_⟩
        rw [View.running, (Effect.apply_shape h v _).current]
        exact hstopped
      rcases hstep.leads.cases with rfl | ⟨_, -, hr⟩
      · exact hdead
      · exact hdead.resched hr
    · -- the hart has a `Ready` slot after the recovery, so it switches
      have hready : ((Effect.kill x).apply h v).state (h, n) = some .ready := by
        rw [happly]
        refine state_release_ready hv' hm ?_
        rw [View.state_setState, if_neg hne]
        exact hn
      rcases hstep.leads.resched_of_kill hrun with ⟨-, hnone⟩ | ⟨n', hn', rfl⟩
      · exact absurd hready (hnone rfl n)
      · exact hreleased.dead_of_swap (by rw [hrun]; rfl) hn'

/-! ## Steps and runs -/

theorem holds_of_grant {v v' : View} (hv : v.BootShape) {h : Hart} {i : Fin 8}
    (hstep : EffectStep h (.grant i) v v') : Locker (v.running h) ∧ Holds v' (v.running h) i := by
  obtain ⟨⟨m, hm, -⟩, hg⟩ := hstep.valid
  refine ⟨hv.locker_of_grants (Or.inl rfl) hg, ?_⟩
  refine Holds.congr (v := (Effect.grant i).apply h v) ?_ hstep.leads.mutexes
  simp only [Effect.apply, hm]
  refine ⟨{ m with locked := true, ownerTaskIdx := some (ownerByte (v.current h)) }, ?_, rfl, rfl⟩
  rw [View.mutexes_setMutex, if_pos rfl]

theorem holds_of_handoff {v v' : View} (hv : v.BootShape) {h : Hart} {e : Effect} {i : Fin 8}
    (hstep : EffectStep h e v v') {y : TaskId} (hy : heirOf v i = some y)
    (he : e = .release i ∨ ∃ x, e = .kill x ∧ v.Owns x.2 i) : Locker y ∧ Holds v' y i := by
  obtain ⟨m, hm, hheir⟩ := Option.bind_eq_some_iff.mp hy
  obtain ⟨w, hw, rfl⟩ := Option.map_eq_some_iff.mp hheir
  refine ⟨hv.waiters i m hm w (BitSet.mem_of_least hw), ?_⟩
  refine Holds.congr (v := e.apply h v) ?_ hstep.leads.mutexes
  rcases he with rfl | ⟨x, rfl, hown⟩
  · exact holds_of_heir hy
  · obtain rfl : i = 0 := hv.mutexes i m hm
    rw [apply_kill_of_owns hv h hown]
    exact holds_of_heir hy

theorem HeldInv.step {s : System} {ev : Event} {v' : View} {held : TaskId → Fin 8 → Bool}
    (hs : SysInv s) (hh : HeldInv (view s.kernel) held) (hguard : StopsOwner s ev)
    (hstep : StepView s.kernel ev v') : HeldInv v' (nextHeld s.kernel ev held) := by
  cases hstep with
  | @effect h e hev hstep =>
    -- a task that held before the step and does not unlock: an owner, a terminated owner, or dead
    have hkeep : ∀ x i, held x i = true → ¬ (e = .release i ∧ x = (view s.kernel).running h) →
        Locker x ∧ (Holds v' x i ∨ Dead v' x) := by
      intro x i hx hrelease
      obtain ⟨hlocker, hhold | hdead⟩ := hh x i hx
      · refine ⟨hlocker, ?_⟩
        by_cases hkill : e = .kill x
        · subst hkill
          unfold StopsOwner at hguard
          rw [hev] at hguard
          exact hhold.kill hs.shape hstep hguard
        · exact Or.inl (hhold.effect hs.shape hstep hlocker hrelease hkill)
      · exact ⟨hlocker, Or.inr (hdead.effect hs.shape hlocker hstep)⟩
    intro x i hx
    unfold nextHeld at hx
    rw [hev] at hx
    cases e with
    | grant j =>
      rcases Bool.or_eq_true_iff.mp hx with hx | hx
      · exact hkeep x i hx (by rintro ⟨he, -⟩; cases he)
      · obtain ⟨rfl, rfl⟩ := of_decide_eq_true hx
        obtain ⟨hlocker, hhold⟩ := holds_of_grant hs.shape hstep
        exact ⟨hlocker, Or.inl hhold⟩
    | release j =>
      rcases Bool.or_eq_true_iff.mp hx with hx | hx
      · obtain ⟨hx, hno⟩ := Bool.and_eq_true_iff.mp hx
        refine hkeep x i hx ?_
        rintro ⟨he, hrun⟩
        obtain rfl : j = i := by simpa using he
        simp [hrun] at hno
      · obtain ⟨rfl, hheir⟩ := of_decide_eq_true hx
        obtain ⟨hlocker, hhold⟩ := holds_of_handoff hs.shape hstep hheir (Or.inl rfl)
        exact ⟨hlocker, Or.inl hhold⟩
    | kill y =>
      rcases Bool.or_eq_true_iff.mp hx with hx | hx
      · exact hkeep x i hx (by rintro ⟨he, -⟩; cases he)
      · obtain ⟨hown, hheir⟩ := of_decide_eq_true hx
        obtain ⟨hlocker, hhold⟩ := holds_of_handoff hs.shape hstep hheir (Or.inr ⟨y, rfl, hown⟩)
        exact ⟨hlocker, Or.inl hhold⟩
    | _ => exact hkeep x i hx (by rintro ⟨he, -⟩; cases he)
  | @restart y hev hnow _ hv =>
    have hnone : ev.effect s.kernel = none := by
      cases ev <;> first | rfl | cases hev
    intro x i hx
    unfold nextHeld at hx
    rw [hnone] at hx
    obtain ⟨hx, hgone⟩ := Bool.and_eq_true_iff.mp hx
    obtain ⟨hlocker, hhold | hdead⟩ := hh x i hx
    · rw [hv]
      exact ⟨hlocker, Or.inl hhold⟩
    · have hyx : y ≠ x := by
        rintro rfl
        simp [hnow, hdead.stopped] at hgone
      rw [hv]
      exact ⟨hlocker, Or.inr ⟨hdead.toEnded.setState _ hyx, hdead.stopped⟩⟩
  | skip hev hnow hv =>
    intro x i hx
    unfold nextHeld at hx
    rw [hev] at hx
    rw [hv]
    exact hh x i (Bool.and_eq_true_iff.mp hx).1

theorem heldInv_run {P : Platform} {s s' : System} {es : List Event} {held : TaskId → Fin 8 → Bool}
    (hs : SysInv s) (hh : HeldInv (view s.kernel) held)
    (hrun : Run (Guarded (Step P) StopsOwner) s es s') :
    HeldInv (view s'.kernel) (heldAlong P s held es) := by
  induction es generalizing s held with
  | nil =>
    have hss : s = s' := hrun
    exact hss ▸ hh
  | cons ev es ih =>
    obtain ⟨u, ⟨hstep, hguard⟩, hrun⟩ := hrun
    have hu := hh.step hs hguard (step_cases hs hstep).1
    have hnext : s.next P ev = some u := hstep
    simp only [heldAlong, hnext]
    exact ih (sysInv_step s ev u hs hstep) hu hrun

/-- In every run whose steps terminate an owner only as it stops executing, and for every
continuation of it: a task inside a mutex is its recorded owner, and at most one task is inside. -/
theorem mutex_exclusion (P : Platform) (s s' : System) (es fs : List Event) (hs : Initial P s)
    (hrun : Run (Guarded (Step P) StopsOwner) s es s') : Exclusive P s es s' fs := by
  have hinv : SysInv s' := sysInv_run hs hrun.unguard
  have hheld : HeldInv (view s'.kernel) (heldAlong P s (fun _ _ => false) es) :=
    heldInv_run (sysInv_initial hs) (fun _ _ hx => by cases hx) hrun
  have howner : ∀ x i, Inside P s es s' fs x i → Locker x ∧ Holds (view s'.kernel) x i := by
    rintro x i ⟨hx, hexec⟩
    obtain ⟨hlocker, hhold | hdead⟩ := hheld x i hx
    · exact ⟨hlocker, hhold⟩
    · rw [hdead.not_executes hinv hlocker] at hexec
      cases hexec
  refine ⟨fun x i hx => ?_, fun x y i hx hy => ?_⟩
  · obtain ⟨-, m, hm, -, ho⟩ := howner x i hx
    exact ⟨m, hm, ho⟩
  · obtain ⟨hlx, hhx⟩ := howner x i hx
    obtain ⟨hly, hhy⟩ := howner y i hy
    exact hhx.unique hinv.shape hlx hly hhy

/-- Task A terminates itself inside the mutex that Task C waits for: Task C is inside, alone. -/
theorem mutex_exclusion_recovered :
    ∃ s', Run (Guarded (Step packedPlatform) StopsOwner) bootSystem
        (contended ++ [syscall 0 8 1 0 0]) s' ∧
      Inside packedPlatform bootSystem (contended ++ [syscall 0 8 1 0 0]) s'
        [syscall 1 1 0 0 0, syscall 1 1 0 0 0] taskC 0 ∧
      Exclusive packedPlatform bootSystem (contended ++ [syscall 0 8 1 0 0]) s'
        [syscall 1 1 0 0 0, syscall 1 1 0 0 0] := by
  obtain ⟨s', hrun, hexec⟩ := guarded_run_of_eval StopsOwner packedPlatform bootSystem
    (contended ++ [syscall 0 8 1 0 0])
    (fun s => executes packedPlatform taskC s [syscall 1 1 0 0 0, syscall 1 1 0 0 0]) true
    (by decide +kernel)
  exact ⟨s', hrun, ⟨by decide +kernel, hexec⟩, mutex_exclusion _ _ _ _ _ bootSystem_initial hrun⟩

/-- Task C locks on hart 1, Task A waits on hart 0, and the HSM task terminates Task C, which goes
on executing. -/
def overtaken : List Event :=
  [syscall 1 1 0 0 0, syscall 1 3 0 0 0, syscall 0 1 0 0 0, syscall 0 3 0 0 0, syscall 0 8 3 0 0]

def resumed : List Event := [syscall 0 1 0 0 0, syscall 0 1 0 0 0]

/-- Task A and Task C are both inside mutex 0, and it records Task A. -/
theorem recovered_owner_still_inside :
    (∃ s', Run (Step packedPlatform) bootSystem overtaken s' ∧
      Inside packedPlatform bootSystem overtaken s' resumed taskA 0 ∧
      Inside packedPlatform bootSystem overtaken s' resumed taskC 0 ∧
      ¬ (view s'.kernel).Owns taskC.2 0) ∧
    ¬ ∀ P s s' es fs, Initial P s → Run (Step P) s es s' → Exclusive P s es s' fs := by
  have hrun : ∃ s', Run (Step packedPlatform) bootSystem overtaken s' ∧
      Inside packedPlatform bootSystem overtaken s' resumed taskA 0 ∧
      Inside packedPlatform bootSystem overtaken s' resumed taskC 0 ∧
      ¬ (view s'.kernel).Owns taskC.2 0 := by
    obtain ⟨s', hrun, hf⟩ := run_of_eval packedPlatform bootSystem overtaken
      (fun s => (executes packedPlatform taskA s resumed, executes packedPlatform taskC s resumed,
        s.kernel.mutexes 0)) (true, true, some ⟨true, some 1, 0⟩) (by decide +kernel)
    obtain ⟨ha, hc, hm⟩ := by simpa only [Prod.mk.injEq] using hf
    refine ⟨s', hrun, ⟨by decide +kernel, ha⟩, ⟨by decide +kernel, hc⟩, ?_⟩
    rintro ⟨m, hm', ho⟩
    have hm0 : (view s'.kernel).mutexes 0 = some ⟨true, some 1, 0⟩ := hm
    rw [hm0] at hm'
    rw [← Option.some.inj hm'] at ho
    revert ho
    decide
  refine ⟨hrun, fun hall => ?_⟩
  obtain ⟨s', hs', -, hc, hno⟩ := hrun
  exact hno ((hall _ _ _ _ _ bootSystem_initial hs').1 taskC 0 hc)

end Cerberus.Mutex
