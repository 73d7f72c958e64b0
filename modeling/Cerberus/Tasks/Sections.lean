import Cerberus.Tasks.Safety

/-! # The lock of the programs

`sections_exclusive` bounds who is inside; here the record of mutex 0 says it exactly. The bit of a
terminated waiter stays set, and the mutex is handed to it all the same: Task A then goes on after its
lock, but Task C has been restarted and does not know. -/
namespace Cerberus.Tasks
open Kernel Scheduler Sync Memory Transition Signing Watchdog Mutex Containment
set_option autoImplicit false

/-! ## Mutex 0 after an effect -/

section Mutex0
variable {v v' : View} {h : Hart} {e : Effect} {x : TaskId} {m : KernelMutex}

theorem handed_iff (hv : v.BootShape) : Handed v e x ↔
    heirOf v 0 = some x ∧ (e = .release 0 ∨ ∃ y, e = .kill y ∧ v.Owns y.2 0) := by
  constructor
  · rintro ⟨i, hheir, he⟩
    obtain ⟨m, hm, -⟩ := Option.bind_eq_some_iff.mp hheir
    obtain rfl : i = 0 := hv.mutexes i m hm
    exact ⟨hheir, he⟩
  · rintro ⟨hheir, he⟩
    exact ⟨0, hheir, he⟩

/-- The bit of the new owner is cleared. -/
theorem mem_release (hm : v.mutexes 0 = some m) : ∃ m', (v.release 0).mutexes 0 = some m' ∧
    ∀ w, BitSet.Mem m'.waitersBitmap w ↔
      BitSet.Mem m.waitersBitmap w ∧ heirOf v 0 ≠ some (waiterTask w) := by
  have hheir : heirOf v 0 = heir m := by
    rw [heirOf, hm, Option.bind_some]
  rw [hheir]
  rcases release_spec hm with ⟨hnone, hr⟩ | ⟨w', hw', -, hr⟩
  · refine ⟨m.free, ?_, fun w => ?_⟩
    · rw [hr, View.mutexes_setMutex, if_pos rfl]
    · rw [hnone]
      exact ⟨fun hmem => ⟨hmem, fun he => by cases he⟩, And.left⟩
  · refine ⟨m.handTo w', ?_, fun w => BitSet.mem_erase.trans ?_⟩
    · rw [hr, View.setState_mutexes, View.mutexes_setMutex, if_pos rfl]
    · rw [hw']
      refine and_congr_right fun _ => not_congr ⟨fun he => by rw [he], fun he => ?_⟩
      exact (Prod.ext_iff.mp (Option.some.inj he)).2.symm

theorem not_holds_release (hm : v.mutexes 0 = some m) (hnone : heirOf v 0 = none) :
    ¬ Holds (v.release 0) x 0 := by
  rintro ⟨m', hm', hlocked, -⟩
  have hheir : heir m = none := by
    rw [← hnone, heirOf, hm, Option.bind_some]
  rcases release_spec hm with ⟨-, hr⟩ | ⟨w, hw, -⟩
  · rw [hr, View.mutexes_setMutex, if_pos rfl] at hm'
    rw [← Option.some.inj hm'] at hlocked
    cases hlocked
  · cases hheir.symm.trans hw

/-- The bits after an effect: a task gets its bit when it waits and loses it when it is handed the mutex. -/
theorem waiters_effect (hv : v.BootShape) (hm : v.mutexes 0 = some m) (hstep : EffectStep h e v v') :
    ∃ m', v'.mutexes 0 = some m' ∧ ∀ w, BitSet.Mem m'.waitersBitmap w ↔
      (BitSet.Mem m.waitersBitmap w ∧ ¬ Handed v e (waiterTask w)) ∨
        (e = .wait 0 ∧ w = (v.running h).2) := by
  rw [hstep.leads.mutexes]
  have hvalid := hstep.valid
  cases e with
  | grant i =>
    obtain ⟨⟨mi, hmi, -⟩, -⟩ := hvalid
    obtain rfl : i = 0 := hv.mutexes i mi hmi
    obtain rfl : m = mi := Option.some.inj (hm.symm.trans hmi)
    refine ⟨{ m with locked := true, ownerTaskIdx := some (ownerByte (v.current h)) }, ?_, fun w => ?_⟩
    · simp only [Effect.apply, hm]
      rw [View.mutexes_setMutex, if_pos rfl]
    · simp [handed_iff hv]
  | wait i =>
    obtain ⟨⟨mi, hmi, -⟩, -⟩ := hvalid
    obtain rfl : i = 0 := hv.mutexes i mi hmi
    obtain rfl : m = mi := Option.some.inj (hm.symm.trans hmi)
    refine ⟨{ m with waitersBitmap := m.waitersBitmap ||| BitSet.single (v.current h) }, ?_, fun w => ?_⟩
    · simp only [Effect.apply, hm]
      rw [View.mutexes_setMutex, if_pos rfl]
    · refine BitSet.mem_insert.trans ?_
      simp [handed_iff hv, View.running]
  | release i =>
    obtain ⟨⟨mi, hmi⟩, -⟩ := hvalid
    obtain rfl : i = 0 := hv.mutexes i mi hmi
    obtain ⟨m', hm', hmem⟩ := mem_release hm
    refine ⟨m', hm', fun w => (hmem w).trans ?_⟩
    simp [handed_iff hv]
  | kill y =>
    by_cases hown : v.Owns y.2 0
    · obtain ⟨m', hm', hmem⟩ := mem_release (v := v.setState y .terminated) hm
      refine ⟨m', ?_, fun w => (hmem w).trans ?_⟩
      · rw [apply_kill_of_owns hv h hown]
        exact hm'
      · simp [handed_iff hv, hown, heirOf]
    · refine ⟨m, ?_, fun w => ?_⟩
      · rw [apply_kill_of_not_owns hv h hown]
        exact hm
      · simp [handed_iff hv, hown]
  | _ =>
    refine ⟨m, hm, fun w => ?_⟩
    simp [handed_iff hv]

/-- Whoever holds the mutex after an effect was granted it or handed it, or has kept it. -/
theorem holds_back (hv : v.BootShape) (hv' : v'.BootShape) (hx : Locker x) (hstep : EffectStep h e v v')
    (hholds : Holds v' x 0) : (e = .grant 0 ∧ x = v.running h) ∨ Handed v e x ∨
      (Holds v x 0 ∧ e ≠ .release 0 ∧ e ≠ .kill x) := by
  have happly : Holds (e.apply h v) x 0 := hholds.congr hstep.leads.mutexes.symm
  have hheirs : ∀ m y, v.mutexes 0 = some m → heirOf v 0 = some y →
      (e = .release 0 ∨ ∃ z, e = .kill z ∧ v.Owns z.2 0) → Handed v e x := by
    intro m y _ hy he
    obtain ⟨hlocker, hholdsy⟩ := holds_of_handoff hv hstep hy he
    rw [hholds.unique hv' hx hlocker hholdsy]
    exact (handed_iff hv).mpr ⟨hy, he⟩
  have hvalid := hstep.valid
  cases e with
  | grant i =>
    obtain ⟨⟨mi, hmi, -⟩, -⟩ := hvalid
    obtain rfl : i = 0 := hv.mutexes i mi hmi
    obtain ⟨hlocker, hrun⟩ := holds_of_grant hv hstep
    exact Or.inl ⟨rfl, hholds.unique hv' hx hlocker hrun⟩
  | wait i =>
    obtain ⟨⟨mi, hmi, -⟩, -⟩ := hvalid
    obtain rfl : i = 0 := hv.mutexes i mi hmi
    obtain ⟨m', hm', hlocked, ho⟩ := happly
    simp only [Effect.apply, hmi] at hm'
    rw [View.mutexes_setMutex, if_pos rfl] at hm'
    obtain rfl := Option.some.inj hm'
    exact Or.inr (Or.inr ⟨⟨mi, hmi, hlocked, ho⟩, Effect.noConfusion, Effect.noConfusion⟩)
  | release i =>
    obtain ⟨⟨mi, hmi⟩, -⟩ := hvalid
    obtain rfl : i = 0 := hv.mutexes i mi hmi
    cases hheir : heirOf v 0 with
    | none => exact absurd happly (not_holds_release hmi hheir)
    | some y => exact Or.inr (Or.inl (hheirs mi y hmi hheir (Or.inl rfl)))
  | kill y =>
    by_cases hown : v.Owns y.2 0
    · obtain ⟨mi, hmi, ho⟩ := hown
      cases hheir : heirOf v 0 with
      | none =>
        rw [apply_kill_of_owns hv h ⟨mi, hmi, ho⟩] at happly
        exact absurd happly (not_holds_release (v := v.setState y .terminated) hmi hheir)
      | some z => exact Or.inr (Or.inl (hheirs mi z hmi hheir (Or.inr ⟨y, rfl, mi, hmi, ho⟩)))
    · rw [apply_kill_of_not_owns hv h hown] at happly
      refine Or.inr (Or.inr ⟨happly, Effect.noConfusion, fun he => hown ?_⟩)
      obtain ⟨mi, hmi, -, ho⟩ := happly
      rw [Effect.kill.inj he]
      exact ⟨mi, hmi, ho⟩
  | _ => exact Or.inr (Or.inr ⟨happly, Effect.noConfusion, Effect.noConfusion⟩)

/-- Whoever waits for the mutex after an effect has called for it or has waited before. -/
theorem waiting_back {b : Byte} (hv : v.BootShape) (hstep : EffectStep h e v v')
    (hx : v'.state x = some (.blockedOnMutex b)) :
    (e = .wait 0 ∧ x = v.running h) ∨ v.state x = some (.blockedOnMutex b) := by
  have happly : (e.apply h v).state x = some (.blockedOnMutex b) := by
    rcases hstep.leads.cases with rfl | ⟨_, -, hr⟩
    · exact hx
    · exact (sameWaiting_resched hr x b).mp hx
  have hset : ∀ (u : View) (y : TaskId) (st : TaskState), st ≠ .blockedOnMutex b →
      (u.setState y st).state x = some (.blockedOnMutex b) → u.state x = some (.blockedOnMutex b) := by
    intro u y st hst hu
    rw [View.state_setState] at hu
    split at hu
    · obtain ⟨_, -, he⟩ := Option.map_eq_some_iff.mp hu
      exact absurd he hst
    · exact hu
  have hrelease : ∀ (u : View) (i : Fin 8), (u.release i).state x = some (.blockedOnMutex b) →
      u.state x = some (.blockedOnMutex b) := fun u i =>
    View.release_rule (I := fun u' => u'.state x = some (.blockedOnMutex b) →
      u.state x = some (.blockedOnMutex b)) id (fun _ _ _ => id) fun _ _ _ _ hu =>
        hset _ _ _ (by simp) hu
  have hvalid := hstep.valid
  cases e with
  | none => exact Or.inr happly
  | tick now => exact Or.inr (View.state_of_wake (by simp) happly)
  | resched => exact Or.inr happly
  | block st =>
    refine Or.inr (hset v _ st ?_ happly)
    rintro rfl
    exact hvalid
  | grant i =>
    obtain ⟨⟨mi, hmi, -⟩, -⟩ := hvalid
    simp only [Effect.apply, hmi] at happly
    exact Or.inr happly
  | wait i =>
    obtain ⟨⟨mi, hmi, -⟩, -⟩ := hvalid
    obtain rfl : i = 0 := hv.mutexes i mi hmi
    simp only [Effect.apply, hmi] at happly
    rw [View.setMutex_state, View.state_setState] at happly
    split at happly
    · exact Or.inl ⟨rfl, ‹_›⟩
    · exact Or.inr happly
  | release i => exact Or.inr (hrelease v i happly)
  | transfer y => exact Or.inr (hset v y .ready (by simp) happly)
  | kill y =>
    refine Or.inr (View.recoverAll_induction (I := fun u => u.state x = some (.blockedOnMutex b) →
      v.state x = some (.blockedOnMutex b)) (fun u i hu _ hr => hu (hrelease u i hr)) ?_ happly)
    exact hset v y .terminated (by simp)

/-- The task that is handed the mutex can go on. -/
theorem Handed.runnable (hh : Handed v e x) (hv : v.BootShape) (hstep : EffectStep h e v v') :
    Runnable (v'.state x) := by
  obtain ⟨hheir, he⟩ := (handed_iff hv).mp hh
  obtain ⟨m, hm, hx⟩ := Option.bind_eq_some_iff.mp hheir
  have hready : (e.apply h v).state x = some .ready := by
    rcases he with rfl | ⟨y, rfl, hown⟩
    · exact state_release_ready hv hm (Or.inr hx)
    · rw [apply_kill_of_owns hv h hown]
      exact state_release_ready (hv.setState _ fun b hb => by cases hb) hm (Or.inr hx)
  rcases hstep.leads.cases with rfl | ⟨_, -, hr⟩
  · exact Or.inr hready
  · exact runnable_of_resched hr (Or.inr hready)

end Mutex0

/-! ## The guard and the invariant -/

/-- The Watchdog does not terminate Task C while core 1 runs it or while it waits for a mutex. -/
def SparesTaskC (σ : Fleet) (ev : Event) : Prop :=
  match ev.effect σ.sys.kernel with
  | some (h, .kill x) => x = taskC → x.1 = h ∨
    ((view σ.sys.kernel).running x.1 ≠ x ∧ (view σ.sys.kernel).state x ≠ some (.blockedOnMutex 0#8))
  | _ => True

instance (σ : Fleet) (ev : Event) : Decidable (SparesTaskC σ ev) :=
  match he : ev.effect σ.sys.kernel with
  | some (h, .kill x) =>
    decidable_of_iff (x = taskC → x.1 = h ∨ ((view σ.sys.kernel).running x.1 ≠ x ∧
        (view σ.sys.kernel).state x ≠ some (.blockedOnMutex 0#8)))
      (by simp only [SparesTaskC, he])
  | none | some (_, .none) | some (_, .tick _) | some (_, .resched) | some (_, .block _)
  | some (_, .grant _) | some (_, .wait _) | some (_, .release _) | some (_, .transfer _) =>
    isTrue (by simp [SparesTaskC, he])

theorem SparesTaskC.sparesRunning {σ : Fleet} {ev : Event} (hspares : SparesTaskC σ ev) :
    SparesRunning σ ev := by
  unfold SparesTaskC at hspares
  unfold SparesRunning
  split
  · rename_i h x he
    rw [he] at hspares
    exact fun hx => (hspares hx).imp_right And.left
  · trivial

/-- The task waits for a mutex, or it is Task A and was terminated. -/
def InQueue (v : View) (x : TaskId) : Prop :=
  Mutex.Waiting v x ∨ (x = taskA ∧ v.state x = some .terminated)

theorem InQueue.stuck {v : View} {x : TaskId} (hx : InQueue v x) : Stuck v x := by
  rcases hx with hx | ⟨-, hx⟩
  · exact Or.inr hx
  · exact Or.inl hx

/-- The owner of mutex 0 is between its lock and its unlock and can go on; who has its bit is past its
lock and waits; and who waits has its bit. -/
structure LockInv (σ : Fleet) : Prop where
  fleet : FleetInv σ
  owner : ∀ x, Locker x → Holds (view σ.sys.kernel) x 0 → InSection σ x
  queue : ∀ m, (view σ.sys.kernel).mutexes 0 = some m → ∀ w, BitSet.Mem m.waitersBitmap w →
    (σ.point (waiterTask w)).Critical ∧ InQueue (view σ.sys.kernel) (waiterTask w)
  waiting : ∀ x b, (view σ.sys.kernel).state x = some (.blockedOnMutex b) →
    ∃ m, (view σ.sys.kernel).mutexes 0 = some m ∧ BitSet.Mem m.waitersBitmap x.2

section Step
variable {P : Platform} {σ σ' : Fleet} {ev : Event} {h : Hart} {e : Effect} {x : TaskId}
  {point : TaskId → Point} {v v' : View}

/-! ## The programs between lock and unlock -/

theorem critical_of_lock {q : Point} {testCounter : Word} : ∀ c ∈ q.calls testCounter,
    ∀ idx, c.1 = .lockMutex idx → c.2.Critical := by
  cases q with
  | bRecv loops => simp [Point.calls]
  | bCheckin loops =>
    simp only [Point.calls]
    split <;> simp
  | bYield loops => simp [Point.calls]
  | cStart =>
    simp only [Point.calls]
    split
    · simp [Point.Critical]
    · split <;> simp
  | _ => simp [Point.calls, Point.Critical]

theorem calls_of_critical {q : Point} {testCounter : Word} (hq : q.Critical) : ∀ c ∈ q.calls testCounter,
    c.1 = .unlockMutex 0 ∨ (c.1 = .yieldNow ∧ c.2.Critical) := by
  rcases hq with rfl | rfl | rfl
  · simp [Point.calls]
  · simp [Point.calls, Point.Critical]
  · simp [Point.calls]

/-- A task that locks is past its lock afterwards. -/
theorem Turn.locks (hturn : Turn σ h x e point) (he : e = .grant 0 ∨ e = .wait 0) :
    (point x).Critical := by
  cases hturn with
  | @call c p _ hc hserves =>
    rw [Function.update_self]
    cases hserves with
    | grant idx => exact critical_of_lock _ hc idx rfl
    | wait idx => exact critical_of_lock _ hc idx rfl
    | _ => rcases he with he | he <;> cases he
  | copyFault => rcases he with he | he <;> cases he
  | interrupt hint => rcases hint with ⟨_, rfl⟩ | rfl <;> rcases he with he | he <;> cases he
  | fault hfault => rcases hfault with rfl | rfl <;> rcases he with he | he <;> cases he

/-- Between lock and unlock a task calls nothing that it waits for. -/
theorem Turn.stays (hturn : Turn σ h x e point) (hx : (σ.point x).Critical) (he : e ≠ .release 0) :
    (point x).Critical ∧ (∀ st, e ≠ .block st) ∧ ∀ i, e ≠ .wait i := by
  cases hturn with
  | @call c p _ hc hserves =>
    rw [Function.update_self]
    rcases calls_of_critical hx _ hc with rfl | ⟨rfl, hp⟩
    · cases hserves
      exact absurd rfl he
    · cases hserves
      exact ⟨hp, fun _ => Effect.noConfusion, fun _ => Effect.noConfusion⟩
  | @copyFault c p y hc hserves =>
    rcases calls_of_critical hx _ hc with rfl | ⟨rfl, -⟩
    · cases hserves
    · cases hserves
  | interrupt hint =>
    refine ⟨hx, ?_⟩
    rcases hint with ⟨_, rfl⟩ | rfl <;> exact ⟨fun _ => Effect.noConfusion, fun _ => Effect.noConfusion⟩
  | fault hfault =>
    refine ⟨hx, ?_⟩
    rcases hfault with rfl | rfl <;> exact ⟨fun _ => Effect.noConfusion, fun _ => Effect.noConfusion⟩

/-! ## The steps -/

/-- A queued task stays queued until it is handed the mutex, if Task C is not terminated meanwhile. -/
theorem InQueue.effect (hx : InQueue v x) (hstep : EffectStep h e v v')
    (haway : x ≠ v.running h) (hkill : e = .kill x → x = taskA) : InQueue v' x ∨ Handed v e x := by
  by_cases hhanded : Handed v e x
  · exact Or.inr hhanded
  left
  by_cases hkilled : e = .kill x
  · have hA : x = taskA := hkill hkilled
    subst hkilled
    exact Or.inr ⟨hA, terminated_of_kill hstep hhanded⟩
  · have hkeeps : ∀ st, v.state x = some st → st = .terminated ∨ (∃ b, st = .blockedOnMutex b) →
        v'.state x = some st := by
      intro st hst hcases
      refine state_of_leads hstep.leads ((state_apply_other haway ?_ hkilled hhanded ?_).trans hst) ?_ ?_
      · rintro rfl
        obtain ⟨st', hst', hw⟩ := hstep.valid
        obtain rfl := Option.some.inj (hst.symm.trans hst')
        rcases hcases with rfl | ⟨b, rfl⟩
        · exact hw
        · exact hw
      · intro w hw
        obtain rfl := Option.some.inj (hst.symm.trans hw)
        rcases hcases with hc | ⟨b, hc⟩ <;> cases hc
      · rintro rfl
        rcases hcases with hc | ⟨b, hc⟩ <;> cases hc
      · rintro rfl
        rcases hcases with hc | ⟨b, hc⟩ <;> cases hc
    rcases hx with ⟨b, hb⟩ | ⟨hA, hterm⟩
    · exact Or.inl ⟨b, hkeeps _ hb (Or.inr ⟨b, rfl⟩)⟩
    · exact Or.inr ⟨hA, hkeeps _ hterm (Or.inl rfl)⟩

/-- A running locker can go on. -/
theorem FleetInv.runnable (hinv : FleetInv σ) (hx : Locker x) (hrun : (view σ.sys.kernel).running x.1 = x) :
    Runnable ((view σ.sys.kernel).state x) := by
  refine hinv.live x ?_ hrun
  rintro rfl
  rcases hx with h | h <;> cases h

theorem LockInv.away (hinv : LockInv σ) (hx : Locker x) (hqueue : InQueue (view σ.sys.kernel) x) :
    x ≠ (view σ.sys.kernel).running h := by
  intro hrun
  have hself : (view σ.sys.kernel).running x.1 = x := by
    rw [hrun]
    rfl
  exact not_stuck_of_runnable (hinv.fleet.runnable hx hself) hqueue.stuck

/-- A queued task that is terminated is Task A. -/
theorem LockInv.taskA_of_kill (hinv : LockInv σ) (hguard : SparesTaskC σ ev)
    (hev : ev.effect σ.sys.kernel = some (h, .kill x)) (hturn :
      Turn σ h ((view σ.sys.kernel).running h) (.kill x) point) (hx : Locker x)
    (hqueue : InQueue (view σ.sys.kernel) x) : x = taskA := by
  rcases hx with rfl | rfl
  · rfl
  · exfalso
    unfold SparesTaskC at hguard
    rw [hev] at hguard
    rcases hturn.kill hinv.fleet with hrun | ⟨hwatchdog, -⟩
    · exact hinv.away (Or.inr rfl) hqueue hrun
    · have hh : h = 0 := congrArg Prod.fst hwatchdog
      subst hh
      rcases hguard rfl with hno | ⟨-, hno⟩
      · cases hno
      · rcases hqueue with ⟨b, hb⟩ | ⟨hA, -⟩
        · obtain ⟨-, rfl⟩ := hinv.fleet.sys.shape.waiting _ b hb
          exact hno hb
        · cases hA

/-- The new owner locked, was handed the mutex past its lock, or has gone on between lock and unlock. -/
theorem LockInv.owner_effect (hinv : LockInv σ) (hv' : v'.BootShape)
    (hturn : Turn σ h ((view σ.sys.kernel).running h) e point)
    (hstep : EffectStep h e (view σ.sys.kernel) v') (hx : Locker x) (hholds : Holds v' x 0) :
    (point x).Critical ∧ Runnable (v'.state x) := by
  have hv := hinv.fleet.sys.shape
  rcases holds_back hv hv' hx hstep hholds with ⟨rfl, hrun⟩ | hhanded | ⟨hkept, hrelease, hkill⟩
  · have hself : (view σ.sys.kernel).running x.1 = x := by
      rw [hrun]
      rfl
    refine ⟨?_, runnable_effect (hinv.fleet.runnable hx hself) hstep ?_ Effect.noConfusion⟩
    · rw [hrun]
      exact hturn.locks (Or.inl rfl)
    · rintro (⟨_, he⟩ | ⟨_, he⟩) <;> cases he
  · obtain ⟨hheir, -⟩ := (handed_iff hv).mp hhanded
    obtain ⟨m, hm, hheir⟩ := Option.bind_eq_some_iff.mp hheir
    obtain ⟨w, hw, rfl⟩ := Option.map_eq_some_iff.mp hheir
    obtain ⟨hcritical, hqueue⟩ := hinv.queue m hm w (BitSet.mem_of_least hw)
    refine ⟨?_, hhanded.runnable hv hstep⟩
    rw [hturn.point_of_ne (hinv.away hx hqueue)]
    exact hcritical
  · obtain ⟨hcritical, hrunnable⟩ := hinv.owner x hx hkept
    by_cases hrun : x = (view σ.sys.kernel).running h
    · subst hrun
      obtain ⟨hstays, hblock, hwait⟩ := hturn.stays hcritical hrelease
      refine ⟨hstays, runnable_effect hrunnable hstep ?_ hkill⟩
      rintro (⟨st, he⟩ | ⟨i, he⟩)
      · exact absurd he (hblock st)
      · exact absurd he (hwait i)
    · refine ⟨?_, runnable_effect hrunnable hstep (fun _ => hrun) hkill⟩
      rw [hturn.point_of_ne hrun]
      exact hcritical

/-- A task that keeps its bit stays where it waits. -/
theorem LockInv.queue_effect (hinv : LockInv σ) (hguard : SparesTaskC σ ev)
    (hev : ev.effect σ.sys.kernel = some (h, e))
    (hturn : Turn σ h ((view σ.sys.kernel).running h) e point)
    (hstep : EffectStep h e (view σ.sys.kernel) v') (hx : Locker x)
    (hqueue : (σ.point x).Critical ∧ InQueue (view σ.sys.kernel) x)
    (hhanded : ¬ Handed (view σ.sys.kernel) e x) : (point x).Critical ∧ InQueue v' x := by
  have haway := hinv.away (h := h) hx hqueue.2
  refine ⟨?_, (hqueue.2.effect hstep haway fun he => ?_).resolve_right hhanded⟩
  · rw [hturn.point_of_ne haway]
    exact hqueue.1
  · subst he
    exact hinv.taskA_of_kill hguard hev hturn hx hqueue.2

theorem LockInv.effect (hinv : LockInv σ) (hguard : SparesTaskC σ ev) (hfleet : FleetInv σ')
    (hev : ev.effect σ.sys.kernel = some (h, e))
    (hturn : Turn σ h ((view σ.sys.kernel).running h) e σ'.point)
    (hstep : EffectStep h e (view σ.sys.kernel) (view σ'.sys.kernel)) : LockInv σ' := by
  have hv := hinv.fleet.sys.shape
  obtain ⟨m0, hm0⟩ := Option.isSome_iff_exists.mp hinv.fleet.present
  have hm0 : (view σ.sys.kernel).mutexes 0 = some m0 := hm0
  obtain ⟨m1, hm1, hbits⟩ := waiters_effect hv hm0 hstep
  refine ⟨hfleet, fun x hx => hinv.owner_effect hfleet.sys.shape hturn hstep hx, fun m hm w hw => ?_,
    fun x b hx => ?_⟩
  · obtain rfl : m1 = m := Option.some.inj (hm1.symm.trans hm)
    rcases (hbits w).mp hw with ⟨hmem, hhanded⟩ | ⟨rfl, hwrun⟩
    · exact hinv.queue_effect hguard hev hturn hstep (hv.waiters 0 m0 hm0 w hmem)
        (hinv.queue m0 hm0 w hmem) hhanded
    · have hrun : waiterTask w = (view σ.sys.kernel).running h := by
        rw [hwrun]
        exact waiterTask_of_locker (hv.locker_of_grants (Or.inl rfl) hstep.valid.2)
      rw [hrun]
      exact ⟨hturn.locks (Or.inr rfl), Or.inl ⟨0#8, waiting_of_wait hv hstep⟩⟩
  · rcases waiting_back hv hstep hx with ⟨rfl, hrun⟩ | hwaits
    · exact ⟨m1, hm1, (hbits x.2).mpr (Or.inr ⟨rfl, by rw [hrun]⟩)⟩
    · obtain ⟨m, hm, hmem⟩ := hinv.waiting x b hwaits
      obtain rfl : m0 = m := Option.some.inj (hm0.symm.trans hm)
      refine ⟨m1, hm1, (hbits x.2).mpr (Or.inl ⟨hmem, fun hhanded => ?_⟩)⟩
      rw [waiterTask_of_locker (hv.waiting x b hwaits).1] at hhanded
      exact not_stuck_of_runnable (hhanded.runnable hv hstep) (Or.inr ⟨b, hx⟩)

/-- The Watchdog restarts neither the owner of the mutex nor a task in its queue. -/
theorem LockInv.pass (hinv : LockInv σ) (hfleet : FleetInv σ') (hev : ev.effect σ.sys.kernel = none)
    (hmoves : Moves σ ev σ'.point) (hview : StepView σ.sys.kernel ev (view σ'.sys.kernel)) :
    LockInv σ' := by
  obtain ⟨p, hpass, hpoints⟩ := hmoves.of_watchdog hev
  have hcritical : ∀ x, ev.restartsNow σ.sys.kernel ≠ some x → (σ.point x).Critical →
      (σ'.point x).Critical := by
    intro x hno hx
    rcases hpoints x with ⟨hnow, -⟩ | ⟨-, ⟨rfl, -⟩ | hp⟩
    · exact absurd hnow hno
    · rcases hinv.fleet.locker hx with h | h <;> cases h
    · rw [hp]
      exact hx
  have hqueued : ∀ x, InQueue (view σ.sys.kernel) x → ev.restartsNow σ.sys.kernel ≠ some x := by
    intro x hx hnow
    obtain ⟨hcases, hterm⟩ := restartsNow_cases hnow
    rcases hx with ⟨b, hb⟩ | ⟨rfl, -⟩
    · cases hterm.symm.trans hb
    · rcases hcases with ⟨-, he⟩ | ⟨-, he⟩ <;> cases he
  have hrunnable : ∀ x, Runnable ((view σ.sys.kernel).state x) → ev.restartsNow σ.sys.kernel ≠ some x :=
    fun x hx hnow => not_stuck_of_runnable hx (Or.inl (restartsNow_cases hnow).2)
  obtain ⟨hmutexes, hstate, hready⟩ := hview.keeps hev
  refine ⟨hfleet, fun x hx hholds => ?_, fun m hm w hw => ?_, fun x b hx => ?_⟩
  · obtain ⟨hcrit, hrun⟩ := hinv.owner x hx (hholds.congr hmutexes.symm)
    have hno := hrunnable x hrun
    refine ⟨hcritical x hno hcrit, ?_⟩
    rw [hstate x hno]
    exact hrun
  · rw [hmutexes] at hm
    obtain ⟨hcrit, hqueue⟩ := hinv.queue m hm w hw
    have hno := hqueued _ hqueue
    refine ⟨hcritical _ hno hcrit, ?_⟩
    unfold InQueue Mutex.Waiting
    rw [hstate _ hno]
    exact hqueue
  · have hno : ev.restartsNow σ.sys.kernel ≠ some x := fun hnow => by
      cases (hready x hnow).symm.trans hx
    rw [hmutexes]
    exact hinv.waiting x b ((hstate x hno).symm.trans hx)

theorem lockInv_step (σ : Fleet) (ev : Event) (σ' : Fleet) (hinv : LockInv σ)
    (hstep : Guarded (FleetStep P) SparesTaskC σ ev σ') : LockInv σ' := by
  obtain ⟨hstep, hguard⟩ := hstep
  have hfleet : FleetInv σ' := fleetInv_step σ ev σ' hinv.fleet ⟨hstep, hguard.sparesRunning⟩
  obtain ⟨hmoves, hsys⟩ := hstep.cases
  have hview := (step_cases hinv.fleet.sys hsys).1
  cases hev : ev.effect σ.sys.kernel with
  | none => exact hinv.pass hfleet hev hmoves hview
  | some he =>
    exact hinv.effect hguard hfleet hev (hinv.fleet.turn hmoves hsys hev) (effectStep_of_view hview hev)

end Step

theorem lockInv_initial {P : Platform} {σ : Fleet} (hσ : FleetInitial P σ) : LockInv σ := by
  have hview := (initial_view hσ.1).1
  have hmutex : ∀ m, (view σ.sys.kernel).mutexes 0 = some m → m = ⟨false, none, 0#32⟩ := fun m hm =>
    (bootView_mutexes (hview ▸ hm)).2
  refine ⟨fleetInv_initial hσ, fun x _ hholds => ?_, fun m hm w hw => ?_, fun x b hx => ?_⟩
  · obtain ⟨m, hm, hlocked, -⟩ := hholds
    rw [hmutex m hm] at hlocked
    cases hlocked
  · rw [hmutex m hm] at hw
    exact absurd hw (BitSet.not_mem_zero w)
  · rw [hview] at hx
    exact absurd hx (bootView_waiting x b)

theorem lockInv_run {P : Platform} {σ0 σ : Fleet} {es : List Event} (hσ0 : FleetInitial P σ0)
    (hrun : Run (Guarded (FleetStep P) SparesTaskC) σ0 es σ) : LockInv σ :=
  hrun.invariant lockInv_step (lockInv_initial hσ0)

/-- Mutex 0 is free and no task is inside, or its owner is the one task inside. -/
theorem LockInv.owner_cases {σ : Fleet} {m : KernelMutex} (hinv : LockInv σ)
    (hm : (view σ.sys.kernel).mutexes 0 = some m) :
    (m.ownerTaskIdx = none ∧ ∀ x, ¬ InSection σ x) ∨
      ∃ x, m.ownerTaskIdx = some (ownerByte x.2) ∧ ∀ y, InSection σ y ↔ y = x := by
  have hv := hinv.fleet.sys.shape
  cases ho : m.ownerTaskIdx with
  | none =>
    refine Or.inl ⟨rfl, fun x hx => ?_⟩
    obtain ⟨-, m', hm', -, ho'⟩ := hinv.fleet.holds_of_inSection hx
    rw [← Option.some.inj (hm.symm.trans hm'), ho] at ho'
    cases ho'
  | some o =>
    obtain ⟨x, hx, rfl⟩ := hv.owners 0 m hm o ho
    have hlocked : m.locked = true := (hv.consistent 0 m hm).owned.mpr (by rw [ho]; rfl)
    have hholds : Holds (view σ.sys.kernel) x 0 := ⟨m, hm, hlocked, ho⟩
    refine Or.inr ⟨x, rfl, fun y => ⟨fun hy => ?_, fun hy => hy ▸ hinv.owner x hx hholds⟩⟩
    obtain ⟨hlocker, hy⟩ := hinv.fleet.holds_of_inSection hy
    exact hy.unique hv hlocker hx hholds

/-- In every run of the programs in which the Watchdog does not terminate Task C while core 1 runs it or
while it waits for the mutex: mutex 0 is free exactly when no task is between its lock and its unlock and
can run, its recorded owner is that task otherwise, and a task waits, with its bit set, only while another
one is inside. -/
theorem lock_follows_sections (P : Platform) (σ0 σ : Fleet) (es : List Event) (hσ0 : FleetInitial P σ0)
    (hrun : Run (Guarded (FleetStep P) SparesTaskC) σ0 es σ) : ∃ m, σ.sys.kernel.mutexes 0 = some m ∧
      ((m.ownerTaskIdx = none ∧ ∀ x, ¬ InSection σ x) ∨
        ∃ x, m.ownerTaskIdx = some (ownerByte x.2) ∧ ∀ y, InSection σ y ↔ y = x) ∧
      ∀ x b, (view σ.sys.kernel).state x = some (.blockedOnMutex b) →
        (σ.point x).Critical ∧ BitSet.Mem m.waitersBitmap x.2 ∧ ∃ y, y ≠ x ∧ InSection σ y := by
  have hinv := lockInv_run hσ0 hrun
  have hv := hinv.fleet.sys.shape
  obtain ⟨m, hm⟩ := Option.isSome_iff_exists.mp hinv.fleet.present
  have howner := hinv.owner_cases (m := m) hm
  refine ⟨m, hm, howner, fun x b hx => ?_⟩
  obtain ⟨m', hm', hbit⟩ := hinv.waiting x b hx
  obtain rfl : m = m' := Option.some.inj (hm.symm.trans hm')
  have hcritical := (hinv.queue m hm x.2 hbit).1
  rw [waiterTask_of_locker (hv.waiting x b hx).1] at hcritical
  refine ⟨hcritical, hbit, ?_⟩
  rcases howner with ⟨hfree, -⟩ | ⟨y, -, hinside⟩
  · -- a mutex with a bit is locked, so it has an owner
    have hne : m.waitersBitmap ≠ 0#32 := by
      intro hzero
      rw [hzero] at hbit
      exact BitSet.not_mem_zero _ hbit
    have howned := (hv.consistent 0 m hm).owned.mp ((hv.consistent 0 m hm).waited hne)
    rw [hfree] at howned
    cases howned
  · refine ⟨y, ?_, (hinside y).mpr rfl⟩
    rintro rfl
    exact not_stuck_of_runnable ((hinside y).mpr rfl).2 (Or.inr ⟨b, hx⟩)

/-- Task A locks, and Task C waits. -/
def waitingTasks : List Event :=
  [syscall 1 7 0 0 8, syscall 0 2 100 0 0, syscall 0 5 0 0 0, syscall 0 3 0 0 0, syscall 1 3 0 0 0]

theorem lock_follows_sections_waiting : ∃ σ m,
    Run (Guarded (FleetStep packedPlatform) SparesTaskC) bootFleet waitingTasks σ ∧
      σ.sys.kernel.mutexes 0 = some m ∧ m.ownerTaskIdx = some (ownerByte taskA.2) ∧
      BitSet.Mem m.waitersBitmap taskC.2 ∧ ∃ y, y ≠ taskC ∧ InSection σ y := by
  have heval : ((waitingTasks.foldlM (fun σ ev =>
      if SparesTaskC σ ev then σ.next packedPlatform ev else none) bootFleet).map fun σ =>
        ((σ.sys.kernel.mutexes 0).bind KernelMutex.ownerTaskIdx, (view σ.sys.kernel).state taskC)) =
      some (some (ownerByte taskA.2), some (.blockedOnMutex 0)) := by
    decide +kernel
  obtain ⟨σ, hσ, heval⟩ := Option.map_eq_some_iff.mp heval
  obtain ⟨howner, hwaits⟩ := Prod.mk.inj heval
  have hrun : Run (Guarded (FleetStep packedPlatform) SparesTaskC) bootFleet waitingTasks σ :=
    Run.of_foldlM_guarded SparesTaskC hσ
  obtain ⟨m, hm, -, hqueue⟩ := lock_follows_sections packedPlatform bootFleet σ _ bootFleet_initial hrun
  obtain ⟨-, hbit, hinside⟩ := hqueue taskC 0 hwaits
  rw [hm, Option.bind_some] at howner
  exact ⟨σ, m, hrun, hm, howner, hbit, hinside⟩

/-- Task A locks at the end of its time, the Watchdog terminates and restarts Task C while it waits, and
Task A unlocks. -/
def restartedWaiter : List Event :=
  [syscall 0 2 100 0 0] ++ List.replicate 99 (timerTrap 0) ++
    [syscall 1 7 0 0 8, syscall 0 5 0 0 0, syscall 0 3 0 0 0, syscall 1 3 0 0 0, timerTrap 0,
      syscall 0 5 0 0 0, syscall 0 7 0 0x3FC81200 12, .watchdogLock, syscall 0 8 3 0 0,
      .watchdogRestartTaskC, .watchdogRestartHsm, .watchdogUnlock, syscall 0 2 100 0 0, syscall 0 4 0 0 0]

/-- Without the condition on the Watchdog: the restarted Task C gets the mutex, and no task is inside. -/
theorem restarted_waiter_owns : ∃ σ,
    Run (Guarded (FleetStep packedPlatform) SparesRunning) bootFleet restartedWaiter σ ∧
      σ.sys.kernel.mutexes 0 = some ⟨true, some (ownerByte taskC.2), 0⟩ ∧ ∀ x, ¬ InSection σ x := by
  obtain ⟨σ, hrun, heval⟩ := fleetRun_of_eval packedPlatform bootFleet restartedWaiter
    (fun σ => (σ.sys.kernel.mutexes 0, σ.point taskA, σ.point taskC))
    (some ⟨true, some (ownerByte taskC.2), 0⟩, .aRequest, .cStart) (by decide +kernel)
  obtain ⟨hm, heval⟩ := Prod.mk.inj heval
  obtain ⟨ha, hc⟩ := Prod.mk.inj heval
  refine ⟨σ, hrun, hm, fun x hx => ?_⟩
  have hcritical := hx.1
  rcases (fleetInv_run bootFleet_initial hrun).locker hcritical with rfl | rfl
  · rw [ha] at hcritical
    revert hcritical
    decide
  · rw [hc] at hcritical
    revert hcritical
    decide

end Cerberus.Tasks
