import Cerberus.Kernel.Frame

/-! # What a trap does

`trap_result`: from a sound kernel, a handler that gets `SCHED_LOCK` either returns, and the view has
changed by the trap's effect, or stops in one of three ways: the owner assertion of unlock, a fault
of the IPC copy, or an unhandled cause. -/
namespace Cerberus.Kernel
open Scheduler Sync Memory
set_option autoImplicit false

/-- What holds between traps, apart from `SCHED_LOCK`: mutex capabilities are in range, tasks that may
lock are found where the waiter scan looks for them, and `MUTEX_LOCK` is free. -/
structure Sound (k : Kernel) : Prop where
  indexed : (view k).Indexed
  caps : ∀ x s, (view k).static x = some s → ∀ c b,
    lockRight (s.capabilities c) = some b ∨ unlockRight (s.capabilities c) = some b → b.toNat < 8
  lockers : ∀ x s, (view k).static x = some s → ∀ c b, lockRight (s.capabilities c) = some b →
    waiterTask x.2 = x
  mutexLock : k.mutexLock.owner = none

theorem Sound.congr {k k' : Kernel} (hk : Sound k) (hview : view k' = view k)
    (hmutex : k'.mutexLock.owner = none) : Sound k' where
  indexed := hview ▸ hk.indexed
  caps := hview ▸ hk.caps
  lockers := hview ▸ hk.lockers
  mutexLock := hmutex

theorem Sound.withSchedLock {k : Kernel} (hk : Sound k) (l : Spinlock) :
    Sound { k with schedLock := l } := hk.congr rfl hk.mutexLock

/-! ## Indexed views -/

namespace View.Indexed
variable {v : View}

theorem setState (hv : v.Indexed) (x : TaskId) (st : TaskState) : (v.setState x st).Indexed where
  priority := hv.priority
  running := fun h => by
    rw [isSome_setState]
    exact hv.running h
  waiters := fun i m hm w hw => by
    rw [isSome_setState]
    exact hv.waiters i m hm w hw
  owned := hv.owned

theorem setMutex (hv : v.Indexed) {i : Fin 8} {m : KernelMutex}
    (hm : ∀ w, BitSet.Mem m.waitersBitmap w → (v.state (waiterTask w)).isSome)
    (ho : m.ownerTaskIdx.isSome → m.locked = true) : (v.setMutex i m).Indexed where
  priority := hv.priority
  running := hv.running
  waiters := fun _ _ hj => setMutex_rule hm (fun j mj _ => hv.waiters j mj) hj
  owned := fun _ _ hj => setMutex_rule ho (fun j mj _ => hv.owned j mj) hj

theorem of_shape (hv : v.Indexed) {v' : View} (hs : View.SameShape v v')
    (hm : v'.mutexes = v.mutexes) : v'.Indexed where
  priority := hs.static ▸ hv.priority
  running := fun h => by
    rw [hs.isSome, View.running, hs.current]
    exact hv.running h
  waiters := fun i m hm' w hw => by
    rw [hs.isSome]
    rw [hm] at hm'
    exact hv.waiters i m hm' w hw
  owned := fun i m hm' => by
    rw [hm] at hm'
    exact hv.owned i m hm'

theorem release (hv : v.Indexed) (i : Fin 8) : (v.release i).Indexed := by
  refine release_rule hv (fun m hm _ => ?_) fun m w hm _ => ?_
  · exact hv.setMutex (fun w hw => hv.waiters i m hm w hw) fun ho => by cases ho
  · refine (hv.setMutex (fun w' hw' => hv.waiters i m hm w' ?_) fun _ => rfl).setState _ _
    exact (BitSet.mem_erase.mp hw').1

end View.Indexed

/-! ## Locks -/

def SameLocks (k k' : Kernel) : Prop := k'.schedLock = k.schedLock ∧ k'.mutexLock = k.mutexLock

theorem SameLocks.refl (k : Kernel) : SameLocks k k := ⟨rfl, rfl⟩

theorem SameLocks.trans {k1 k2 k3 : Kernel} (h1 : SameLocks k1 k2) (h2 : SameLocks k2 k3) :
    SameLocks k1 k3 := ⟨h2.1.trans h1.1, h2.2.trans h1.2⟩

theorem switchTask_sameLocks (P : Platform) (h : Hart) (cycles : Word) (isTick : Bool) (sp : Word)
    (k : Kernel) : SameLocks k (switchTask P h cycles isTick sp k).2 := by
  unfold switchTask
  split
  · exact ⟨rfl, rfl⟩
  · split <;> exact ⟨rfl, rfl⟩

theorem lockMutexes_eq {k : Kernel} (h : Hart) (hfree : k.mutexLock.owner = none) :
    lockMutexes h k = .ok { k with mutexLock := ⟨some h, 1#32⟩ } := by
  simp [lockMutexes, Spinlock.lock, hfree]

theorem unlock_owner (h : Hart) : (Spinlock.mk (some h) 1#32).unlock.owner = none := by
  simp [Spinlock.unlock]

/-! ## Mutex recovery -/

theorem recoverMutex_eq {k : Kernel} (hv : (view k).Indexed) (target : Fin MAX_PARTITIONS)
    (i : Fin 8) : ∃ k', recoverMutex target k i = .ok k' ∧
      view k' = (view k).recover target i ∧ SameLocks k k' := by
  unfold recoverMutex
  cases hm : k.mutexes i with
  | none =>
    have hno : ¬ (view k).Owns target i := by
      rintro ⟨m, hm', -⟩
      have hm'' : k.mutexes i = some m := hm'
      rw [hm] at hm''
      cases hm''
    refine ⟨k, rfl, ?_, SameLocks.refl k⟩
    rw [View.recover, if_neg hno]
  | some m =>
    have hmv : (view k).mutexes i = some m := hm
    by_cases ho : m.ownerTaskIdx = some (BitVec.ofNat 8 target.val)
    · have hown : (view k).Owns target i := ⟨m, hmv, ho⟩
      rw [View.recover, if_pos hown]
      simp only [if_pos ho, highestWaiter_eq hv.priority fun w hw => hv.waiters i m hmv w hw]
      rcases View.release_cases hmv with ⟨hl, hr⟩ | ⟨w, hl, hr⟩
      · rw [hr, hl]
        exact ⟨_, rfl, rfl, ⟨rfl, rfl⟩⟩
      · rw [hr, hl]
        exact ⟨_, rfl, by simp [waiterTask], ⟨rfl, rfl⟩⟩
    · have hno : ¬ (view k).Owns target i := by
        rintro ⟨m', hm', ho'⟩
        rw [hmv] at hm'
        rw [← Option.some.inj hm'] at ho'
        exact ho ho'
      refine ⟨k, by simp only [if_neg ho], ?_, SameLocks.refl k⟩
      rw [View.recover, if_neg hno]

theorem recoverLoop_eq {k : Kernel} (hv : (view k).Indexed) (target : Fin MAX_PARTITIONS)
    (l : List (Fin 8)) : ∃ k', l.foldlM (recoverMutex target) k = .ok k' ∧
      view k' = l.foldl (View.recover target) (view k) ∧ SameLocks k k' := by
  induction l generalizing k with
  | nil => exact ⟨k, rfl, rfl, SameLocks.refl k⟩
  | cons i l ih =>
    obtain ⟨k1, h1, hview1, hlocks1⟩ := recoverMutex_eq hv target i
    have hv1 : (view k1).Indexed := by
      rw [hview1, View.recover]
      split
      · exact hv.release i
      · exact hv
    obtain ⟨k2, h2, hview2, hlocks2⟩ := ih hv1
    refine ⟨k2, ?_, ?_, hlocks1.trans hlocks2⟩
    · rw [List.foldlM_cons, h1]
      exact h2
    · rw [List.foldl_cons, ← hview1, hview2]

/-- Recovery always succeeds, and is the recovery of the view. -/
theorem recoverMutexes_eq {k : Kernel} (hv : (view k).Indexed) (hfree : k.mutexLock.owner = none)
    (h : Hart) (target : Fin MAX_PARTITIONS) : ∃ k', recoverMutexes h target k = .ok k' ∧
      view k' = (view k).recoverAll target ∧ k'.schedLock = k.schedLock ∧
      k'.mutexLock.owner = none := by
  obtain ⟨k2, h2, hview, hlocks⟩ :=
    recoverLoop_eq (k := { k with mutexLock := ⟨some h, 1#32⟩ }) hv target (List.finRange 8)
  refine ⟨unlockMutexes k2, ?_, hview, hlocks.1, ?_⟩
  · unfold recoverMutexes
    rw [lockMutexes_eq h hfree]
    simp only [h2]
  · simp only [unlockMutexes, hlocks.2]
    exact unlock_owner h

/-! ## The outcomes of a handler -/

/-- The slot that `schedule` would name on hart `h`. -/
def View.selectNext (v : View) (h : Hart) : Option (Fin MAX_PARTITIONS) :=
  BitMapScheduler.pickNext (fun i => v.state (h, i) = some .ready) (v.current h)

def Runnable (st : Option TaskState) : Prop := st = some .running ∨ st = some .ready

/-- If the running task cannot go on, the switch is to the slot that `schedule` names, from its saved
stack pointer, and there is none if `schedule` names none. -/
def Picks (h : Hart) (k : Kernel) (e : Effect) (sp : Word) (k' : Kernel) : Prop :=
  ∀ isTick, e.switches h (view k) = some isTick →
    ¬ Runnable ((e.apply h (view k)).state ((view k).running h)) →
    match (e.apply h (view k)).selectNext h with
    | none => k'.current h = k.current h
    | some n => k'.current h = n ∧ savedSpOf k (h, n) = some sp

theorem Picks.of_switches {h : Hart} {k : Kernel} {e : Effect} {sp : Word} {k' : Kernel}
    (hsw : e.switches h (view k) = none) : Picks h k e sp k' := fun isTick he => by
  rw [hsw] at he
  cases he

theorem Picks.congr {h : Hart} {k k1 k2 k' : Kernel} {e : Effect} {sp : Word}
    (hp : Picks h k1 e sp k2) (hview : view k1 = view k) (hu : Untouched k k1)
    (hcur : k'.current = k2.current) : Picks h k e sp k' := by
  intro isTick hsw hrun
  have hpick := hp isTick (hview ▸ hsw) (hview ▸ hrun)
  rw [hview, hu.current] at hpick
  rw [hcur]
  split
  · rename_i hn
    simpa only [hn] using hpick
  · rename_i n hn
    simp only [hn, hu.savedSp] at hpick
    exact hpick

/-- The outcomes of a handler that starts in `k` and gets `SCHED_LOCK`: `during` is the lock while
it runs and `after` the lock once it returns, `e` its effect, and `copies` says that no byte of its
copy faults. -/
inductive Result (h : Hart) (k : Kernel) (during after : Spinlock) (e : Effect) (copies : Prop) :
    Outcome → Prop where
  | returns {sp : Word} {k' : Kernel} (hleads : e.Leads h (view k) (view k'))
      (hsched : k'.schedLock = after) (hmutex : k'.mutexLock.owner = none)
      (howns : ∀ i, e = .release i → (view k).Owns (k.current h) i) (hcopies : copies)
      (hframe : CallerOnly h k k') (hpicks : Picks h k e sp k') :
      Result h k during after e copies (.ok (sp, k'))
  | notOwner {i : Fin 8} (he : e = .release i) (hnot : ¬ (view k).Owns (k.current h) i) :
      Result h k during after e copies (.error .ownerAssertion)
  | copyFault {cause : Word} {kf : Kernel} {x : TaskId} (he : e = .transfer x) (hnot : ¬ copies)
      (hcause : cause = 5#32 ∨ cause = 7#32) (hview : view kf = view k)
      (hsched : kf.schedLock = during) (hmutex : kf.mutexLock = k.mutexLock)
      (hframe : Untouched k kf) :
      Result h k during after e copies (.error (.copyFault cause kf))

/-- What holds of the body's outcome holds of the outcome under the lock, if the release keeps it. -/
theorem withSchedLock_rule {h : Hart} {k : Kernel} {body : Kernel → Outcome} {Q : Outcome → Prop}
    (hspin : Q (.error .spinning))
    (hrelease : ∀ sp k', Q (.ok (sp, k')) → Q (.ok (sp, { k' with schedLock := k'.schedLock.unlock })))
    (hbody : ∀ l, Q (body { k with schedLock := l })) : Q (withSchedLock h k body) := by
  unfold withSchedLock
  cases k.schedLock.lock h with
  | none => exact hspin
  | some l =>
    have hl := hbody l
    dsimp only
    generalize body { k with schedLock := l } = out at hl
    cases out with
    | ok r => exact hrelease r.1 r.2 hl
    | error e => exact hl

theorem withSchedLock_result {h : Hart} {k : Kernel} {l : Spinlock} {e : Effect} {copies : Prop}
    {body : Kernel → Outcome} (hl : k.schedLock.lock h = some l)
    (hbody : Result h { k with schedLock := l } l l e copies (body { k with schedLock := l })) :
    Result h k l l.unlock e copies (withSchedLock h k body) := by
  unfold withSchedLock
  simp only [hl]
  generalize body { k with schedLock := l } = r at hbody
  cases hbody with
  | returns hleads hsched hmutex howns hcopies hframe hpicks =>
    exact .returns hleads (congrArg Spinlock.unlock hsched) hmutex howns hcopies
      ⟨hframe.pmp, hframe.savedSp⟩ (hpicks.congr rfl (.of_eq rfl rfl) rfl)
  | notOwner he hnot => exact .notOwner he hnot
  | copyFault he hnot hcause hview hsched hmutex hframe =>
    exact .copyFault he hnot hcause hview hsched hmutex
      ⟨hframe.pmp, hframe.current, hframe.savedSp⟩

theorem Result.and_then {h : Hart} {k : Kernel} {during after : Spinlock} {e : Effect}
    {copies : Prop} {r : Word × Kernel} (hr : Result h k during after e copies (.ok r)) {k2 : Kernel}
    (hview : view k2 = view r.2) (hlocks : SameLocks r.2 k2) (hu : Untouched r.2 k2) :
    Result h k during after e copies (.ok (r.1, k2)) := by
  obtain ⟨sp, k1⟩ := r
  cases hr with
  | returns hleads hsched hmutex howns hcopies hframe hpicks =>
    refine .returns (hview ▸ hleads) (hlocks.1.trans hsched) ?_ howns hcopies (hframe.then hu)
      (hpicks.congr rfl (.of_eq rfl rfl) hu.current)
    rw [hlocks.2]
    exact hmutex

theorem Result.congr {h : Hart} {k k' : Kernel} {during after : Spinlock} {e : Effect}
    {copies : Prop} {o : Outcome} (hr : Result h k' during after e copies o)
    (hview : view k' = view k) (hmutex : k'.mutexLock = k.mutexLock) (hu : Untouched k k') :
    Result h k during after e copies o := by
  have hcur : k'.current = k.current := congrArg View.current hview
  cases hr with
  | returns hleads hsched hfree howns hcopies hframe hpicks =>
    exact .returns (hview ▸ hleads) hsched hfree (hcur ▸ hview ▸ howns) hcopies (hframe.after hu)
      (hpicks.congr hview hu rfl)
  | notOwner he hnot => exact .notOwner he (hcur ▸ hview ▸ hnot)
  | copyFault he hnot hcause hkf hsched hm hframe =>
    exact .copyFault he hnot hcause (hkf.trans hview) hsched (hm.trans hmutex) (hu.trans hframe)

theorem Result.isSome {h : Hart} {k : Kernel} {during after : Spinlock} {e : Effect}
    {copies : Prop} {r : Word × Kernel} (hr : Result h k during after e copies (.ok r))
    (x : TaskId) : ((view r.2).state x).isSome = ((view k).state x).isSome := by
  obtain ⟨sp, k1⟩ := r
  cases hr with
  | returns hleads => exact hleads.isSome x

section Handlers
variable {P : Platform} {h : Hart} {t : Trap} {k : Kernel} {l : Spinlock}

theorem selectNext_view (k : Kernel) (h : Hart) :
    (view k).selectNext h = (k.scheds h).selectNext := (BitMapScheduler.selectNext_eq_pickNext _).symm

theorem current_registered (hreg : ((view k).state ((view k).running h)).isSome) :
    ((k.scheds h).taskTable (k.scheds h).currentPartitionIdx).isSome := by
  rw [view_state_isSome] at hreg
  exact hreg

theorem switchTask_picks {k1 : Kernel} {e : Effect} {isTick : Bool} {cycles sp : Word}
    (hview : view k1 = e.apply h (view k)) (hsw : e.switches h (view k) = some isTick)
    (hreg : ((view k1).state ((view k1).running h)).isSome) (hu : Untouched k k1) :
    Picks h k e (switchTask P h cycles isTick sp k1).1 (switchTask P h cycles isTick sp k1).2 := by
  intro b hb hrun
  obtain rfl : isTick = b := Option.some.inj (hsw.symm.trans hb)
  have hreg' := current_registered hreg
  have hcur : (k1.scheds h).currentPartitionIdx = k.current h := congrFun hu.current h
  have hstopped : (k1.scheds h).currentRunnable = false := by
    rw [← hview] at hrun
    have hst : (view k1).state ((view k).running h) =
        (k1.scheds h).stateAt (k1.scheds h).currentPartitionIdx := by
      rw [hcur]
      rfl
    rw [hst] at hrun
    simpa [BitMapScheduler.currentRunnable, Runnable] using hrun
  rw [← hview, selectNext_view]
  rcases BitMapScheduler.schedule_cases (b := isTick) hreg' with
    ⟨r, hsched, ⟨hno, -⟩ | ⟨-, hnone⟩⟩ | ⟨n, tcb, -, hsel, htcb, hsched⟩
  · exact absurd (Or.inr (Or.inr hstopped)) hno
  · simp only [hnone, switchTask, hsched]
    simpa [Kernel.current] using hcur
  · have hsaved : savedSpOf k1 (h, n) = some tcb.savedSp := by
      have hn : savedSps (((k1.scheds h).spendTick isTick).swapTo n) n = some tcb.savedSp := by
        rw [savedSps, htcb]
        rfl
      simpa [savedSpOf] using hn
    simp only [hsel, switchTask, hsched, BitMapScheduler.swapTo_currentPartitionIdx, htcb]
    refine ⟨?_, by rw [← hu.savedSp, hsaved]⟩
    simp [Kernel.current, Kernel.setPmp]

/-- The context switch that ends a handler. -/
theorem switch_result {k1 : Kernel} {e : Effect} {isTick : Bool} {cycles sp : Word}
    (hview : view k1 = e.apply h (view k)) (hsw : e.switches h (view k) = some isTick)
    (hv : (view k1).Indexed) (hsched : k1.schedLock = l) (hmutex : k1.mutexLock.owner = none)
    (howns : ∀ i, e = .release i → (view k).Owns (k.current h) i) (hu : Untouched k k1) :
    Result h k l l e True (.ok (switchTask P h cycles isTick sp k1)) := by
  have hlocks := switchTask_sameLocks P h cycles isTick sp k1
  show Result h k l l e True (.ok ((switchTask P h cycles isTick sp k1).1,
    (switchTask P h cycles isTick sp k1).2))
  refine .returns ?_ (hlocks.1.trans hsched) ?_ howns trivial
    ((switchTask_callerOnly P h cycles isTick sp k1).after hu)
    (switchTask_picks hview hsw (hv.running h) hu)
  · rw [Effect.Leads, hsw, ← hview]
    exact switchTask_resched P h cycles isTick sp k1
  · rw [hlocks.2]
    exact hmutex

theorem Sound.running_isSome (hk : Sound k) (h : Hart) :
    ∃ tcb, (k.scheds h).taskTable (k.current h) = some tcb :=
  Option.isSome_iff_exists.mp (current_registered (hk.indexed.running h))

theorem current_of_apply {k1 : Kernel} {e : Effect} (hview : view k1 = e.apply h (view k)) :
    k1.current h = k.current h := by
  have hshape := (Effect.apply_shape h (view k) e).current
  rw [← hview] at hshape
  exact congrFun hshape h

/-- An effect leaves the current slot registered. -/
theorem registered_of_apply {k1 : Kernel} {e : Effect} (hk : Sound k)
    (hview : view k1 = e.apply h (view k)) :
    ((view k1).state ((view k1).running h)).isSome := by
  have hshape := Effect.apply_shape h (view k) e
  rw [hview, View.running, hshape.current, hshape.isSome]
  exact hk.indexed.running h

theorem sysYield_result (hk : Sound k) (hl : k.schedLock.lock h = some l) :
    Result h k l l.unlock .resched True (sysYield P h t k) :=
  withSchedLock_result hl
    (switch_result rfl rfl (hk.withSchedLock l).indexed rfl hk.mutexLock (fun _ he => by cases he)
      (.of_eq rfl rfl))

theorem blockCaller_result (hk : Sound k) (st : TaskState) :
    Result h k k.schedLock k.schedLock (.block st) True (blockCaller P h t st k) := by
  obtain ⟨tcb, htcb⟩ := hk.running_isSome h
  unfold blockCaller
  simp only [htcb]
  refine switch_result (view_setState k h _ st) rfl ?_ rfl hk.mutexLock (fun _ he => by cases he)
    (.setState k h _ st)
  rw [view_setState]
  exact hk.indexed.setState _ _

theorem sysSleep_result (hk : Sound k) (hl : k.schedLock.lock h = some l) :
    Result h k l l.unlock (.block (.blocked (k.tickCount + k.readFrame t.userSp 6))) True
      (sysSleep P h t k) := by
  unfold sysSleep
  exact withSchedLock_result hl (blockCaller_result (hk.withSchedLock l) _)

theorem sysCheckin_result (hk : Sound k) (hl : k.schedLock.lock h = some l) :
    Result h k l l.unlock .none True (sysCheckin h t k) :=
  withSchedLock_result hl (.returns rfl rfl hk.mutexLock (fun _ he => by cases he) trivial
    (.of_eq rfl rfl) (.of_switches rfl))

theorem granted_eq (hk : Sound k) (h : Hart) (capIdx : Word) (right : Capability → Option Byte) :
    ∃ r, granted k h capIdx right = .ok r ∧ ∀ b, r = some b →
      ∃ s c, (view k).static ((view k).running h) = some s ∧ right (s.capabilities c) = some b := by
  obtain ⟨tcb, htcb⟩ := hk.running_isSome h
  unfold granted
  by_cases hc : capIdx.toNat < 8
  · simp only [dif_pos hc, htcb]
    refine ⟨_, rfl, fun b hb => ⟨static tcb, ⟨capIdx.toNat, hc⟩, ?_, hb⟩⟩
    have hrun : (k.scheds h).taskTable (k.current h) = some tcb := htcb
    simp only [view, View.running, hrun, Option.map_some]
  · simp only [dif_neg hc]
    exact ⟨none, rfl, fun b hb => by cases hb⟩

theorem grantedMutex_eq (hk : Sound k) (h : Hart) (capIdx : Word) {right : Capability → Option Byte}
    (hright : right = lockRight ∨ right = unlockRight) :
    ∃ r, grantedMutex k h capIdx right = .ok r ∧ ∀ i m, r = some (i, m) →
      k.mutexes i = some m ∧ ∃ s c, (view k).static ((view k).running h) = some s ∧
        right (s.capabilities c) = some (BitVec.ofNat 8 i.val) := by
  obtain ⟨r, hr, hgrant⟩ := granted_eq hk h capIdx right
  unfold grantedMutex
  rw [hr]
  cases r with
  | none => exact ⟨none, rfl, fun i m he => by cases he⟩
  | some b =>
    obtain ⟨s, c, hs, hb⟩ := hgrant b rfl
    have hb8 : b.toNat < 8 := by
      apply hk.caps _ s hs c b
      rcases hright with rfl | rfl
      · exact Or.inl hb
      · exact Or.inr hb
    simp only [dif_pos hb8]
    refine ⟨_, rfl, fun i m he => ?_⟩
    obtain ⟨m', hm', hpair⟩ := Option.map_eq_some_iff.mp he
    obtain ⟨rfl, rfl⟩ := Prod.ext_iff.mp hpair
    refine ⟨hm', s, c, hs, ?_⟩
    rw [hb]
    simp

theorem finishLock_result {r : Word × Kernel} {runningIdx : Fin MAX_PARTITIONS}
    {during after : Spinlock} {e : Effect} {copies : Prop}
    (hr : Result h k during after e copies (.ok r))
    (hreg : ((view r.2).state (h, runningIdx)).isSome) :
    Result h k during after e copies (finishLock h t runningIdx r) := by
  rw [view_state_isSome] at hreg
  obtain ⟨tcb, htcb⟩ := Option.isSome_iff_exists.mp hreg
  have htcb' : (r.2.scheds h).taskTable runningIdx = some tcb := htcb
  unfold finishLock
  simp only [htcb']
  split
  · exact hr
  · exact hr.and_then rfl ⟨rfl, rfl⟩ (.of_eq rfl rfl)

theorem refused_result {k1 : Kernel} {copies : Prop} {sp : Word} (hview : view k1 = view k)
    (hsched : k1.schedLock = l) (hmutex : k1.mutexLock.owner = none) (hcopies : copies)
    (hu : Untouched k k1) : Result h k l l .none copies (.ok (sp, k1)) :=
  .returns hview hsched hmutex (fun _ he => by cases he) hcopies (hu.callerOnly h) (.of_switches rfl)

theorem lockMutex_result (hk : Sound k) (capIdx : Word) :
    Result h k k.schedLock k.schedLock (lockEffect k h capIdx) True (lockMutex P h t capIdx k) := by
  obtain ⟨r, hr, hmutex⟩ := grantedMutex_eq hk h capIdx (Or.inl rfl)
  have hr' : grantedMutex { k with mutexLock := ⟨some h, 1#32⟩ } h capIdx lockRight = .ok r := hr
  unfold lockMutex lockEffect
  simp only [lockMutexes_eq h hk.mutexLock]
  cases r with
  | none =>
    simp only [hr', hr]
    exact refused_result rfl rfl (unlock_owner h) trivial (.of_eq rfl rfl)
  | some im =>
    obtain ⟨i, m⟩ := im
    obtain ⟨hmv, s, c, hs, hright⟩ := hmutex i m rfl
    have hmv : (view k).mutexes i = some m := hmv
    simp only [hr', hr]
    by_cases hlocked : m.locked = false
    · -- granted: the owner is recorded and nobody is scheduled
      simp only [if_pos hlocked]
      have hgrant : Result h k k.schedLock k.schedLock (.grant i) True
          (.ok (t.userSp, unlockMutexes (Kernel.setMutex { k with mutexLock := ⟨some h, 1#32⟩ } i
            { m with locked := true, ownerTaskIdx := some (BitVec.ofNat 8 (k.current h).val) }))) := by
        refine .returns ?_ rfl (unlock_owner h) (fun _ he => by cases he) trivial
          (.of_eq rfl rfl) (.of_switches rfl)
        simp only [Effect.Leads, Effect.switches, Effect.apply, hmv]
        rfl
      exact finishLock_result hgrant (hk.indexed.running h)
    · simp only [if_neg hlocked]
      have hwait : Result h k k.schedLock k.schedLock (.wait i) True
          (.ok (switchTask P h t.cycles false t.userSp (unlockMutexes (Kernel.setMutex
            (Kernel.setState { k with mutexLock := ⟨some h, 1#32⟩ } h (k.current h)
              (.blockedOnMutex (BitVec.ofNat 8 i.val))) i
            { m with waitersBitmap := m.waitersBitmap ||| bit (k.current h) })))) := by
        have hset : Untouched k (k.setState h (k.current h) (.blockedOnMutex (BitVec.ofNat 8 i.val))) :=
          .setState ..
        refine switch_result ?_ rfl ?_ rfl (unlock_owner h) (fun _ he => by cases he)
          (hset.then_eq rfl rfl)
        · simp only [view_unlockMutexes, view_setMutex, view_setState, Effect.apply, hmv]
          rfl
        · simp only [view_unlockMutexes, view_setMutex, view_setState]
          refine (hk.indexed.setState _ _).setMutex (fun w hw => ?_) (hk.indexed.owned i m hmv)
          rw [View.isSome_setState]
          rcases BitSet.mem_insert.mp hw with hw | rfl
          · exact hk.indexed.waiters i m hmv w hw
          · have hwt : waiterTask (k.current h) = (view k).running h := hk.lockers _ s hs c _ hright
            rw [hwt]
            exact hk.indexed.running h
      refine finishLock_result hwait ?_
      rw [hwait.isSome]
      exact hk.indexed.running h

theorem sysLock_result (hk : Sound k) (hl : k.schedLock.lock h = some l) :
    Result h k l l.unlock (lockEffect k h (k.readFrame t.userSp 6)) True (sysLock P h t k) :=
  withSchedLock_result hl (lockMutex_result (hk.withSchedLock l) _)

theorem releaseMutex_eq (hk : Sound k) {i : Fin 8} {m : KernelMutex} (hm : k.mutexes i = some m)
    {o : Byte} (ho : m.ownerTaskIdx = some o) :
    ∃ k2, releaseMutex h i m { k with mutexLock := ⟨some h, 1#32⟩ } = .ok k2 ∧
      view k2 = (view k).release i ∧ k2.schedLock = k.schedLock ∧ k2.mutexLock.owner = none ∧
      Untouched k k2 := by
  have hmv : (view k).mutexes i = some m := hm
  have hlocked : m.locked = true := hk.indexed.owned i m hmv (by rw [ho]; rfl)
  have hscan : highestWaiter { k with mutexLock := ⟨some h, 1#32⟩ } m.waitersBitmap =
      .ok (BitSet.least m.waitersBitmap) :=
    highestWaiter_eq hk.indexed.priority fun w hw => hk.indexed.waiters i m hmv w hw
  unfold releaseMutex
  rcases View.release_cases hmv with ⟨hl, hr⟩ | ⟨w, hl, hr⟩
  · rw [hr]
    simp only [hscan, hl]
    exact ⟨_, rfl, rfl, rfl, unlock_owner h, .of_eq rfl rfl⟩
  · have hreg := hk.indexed.waiters i m hmv w (BitSet.mem_of_least hl)
    rw [view_state_isSome] at hreg
    obtain ⟨tcb, htcb⟩ := Option.isSome_iff_exists.mp hreg
    have htcb' : (k.scheds (waiterHart w)).taskTable w = some tcb := htcb
    have hto : { m.handTo w with locked := m.locked } = m.handTo w := by rw [hlocked]; rfl
    rw [hr]
    simp only [hscan, hl, handOff, htcb', hto]
    have hset : Untouched k (k.setState (waiterHart w) w .ready) := .setState ..
    refine ⟨_, rfl, ?_, ?_, ?_, ?_⟩
    · split <;>
        simp only [view_setMsip, view_unlockMutexes, view_writeFrame, view_setState,
          view_setMutex] <;> rfl
    · split <;> rfl
    · split <;> exact unlock_owner h
    · split <;> exact hset.then_eq rfl rfl

theorem unlockMutex_result (hk : Sound k) (capIdx : Word) :
    Result h k k.schedLock k.schedLock (unlockEffect k h capIdx) True
      (unlockMutex P h t capIdx k) := by
  obtain ⟨r, hr, hmutex⟩ := grantedMutex_eq hk h capIdx (Or.inr rfl)
  have hr' : grantedMutex { k with mutexLock := ⟨some h, 1#32⟩ } h capIdx unlockRight = .ok r := hr
  unfold unlockMutex unlockEffect
  simp only [lockMutexes_eq h hk.mutexLock]
  cases r with
  | none =>
    simp only [hr', hr]
    exact refused_result rfl rfl (unlock_owner h) trivial (.of_eq rfl rfl)
  | some im =>
    obtain ⟨i, m⟩ := im
    have hm : k.mutexes i = some m := (hmutex i m rfl).1
    simp only [hr', hr]
    by_cases ho : m.ownerTaskIdx = some (BitVec.ofNat 8 (k.current h).val)
    · simp only [if_pos ho]
      obtain ⟨k2, hk2, hview, hsched, hfree, hu⟩ := releaseMutex_eq (h := h) hk hm ho
      simp only [hk2]
      have hv2 : (view k2).Indexed := by
        rw [hview]
        exact hk.indexed.release i
      have hswitch : Result h k k.schedLock k.schedLock (.release i) True
          (.ok (switchTask P h t.cycles false t.userSp k2)) :=
        switch_result hview rfl hv2 hsched hfree (fun j hj => by
          obtain rfl : i = j := by simpa using hj
          exact ⟨m, hm, ho⟩) hu
      exact hswitch.and_then rfl ⟨rfl, rfl⟩ (.of_eq rfl rfl)
    · simp only [if_neg ho]
      refine .notOwner rfl ?_
      rintro ⟨m', hm', ho'⟩
      have hm'' : k.mutexes i = some m' := hm'
      rw [hm] at hm''
      rw [← Option.some.inj hm''] at ho'
      exact ho ho'

theorem sysUnlock_result (hk : Sound k) (hl : k.schedLock.lock h = some l) :
    Result h k l l.unlock (unlockEffect k h (k.readFrame t.userSp 6)) True (sysUnlock P h t k) :=
  withSchedLock_result hl (unlockMutex_result (hk.withSchedLock l) _)

/-! ### IPC -/

/-- No byte of the M-mode copy faults. -/
def CopyPermitted (P : Platform) (r : PmpRegs) (src dst : Word) (n : ℕ) : Prop :=
  ∀ j < n, (P.mapped (src + BitVec.ofNat 32 j) && mModeMay r .read (src + BitVec.ofNat 32 j)) ∧
    (P.mapped (dst + BitVec.ofNat 32 j) && mModeMay r .write (dst + BitVec.ofNat 32 j))

theorem copyPermitted_succ {r : PmpRegs} {src dst : Word} {n : ℕ} :
    CopyPermitted P r src dst (n + 1) ↔
      ((P.mapped src && mModeMay r .read src) ∧ (P.mapped dst && mModeMay r .write dst)) ∧
        CopyPermitted P r (src + 1#32) (dst + 1#32) n := by
  have hshift : ∀ (a : Word) (j : ℕ), a + 1#32 + BitVec.ofNat 32 j = a + BitVec.ofNat 32 (j + 1) := by
    intro a j
    rw [BitVec.add_assoc, BitVec.ofNat_add, BitVec.add_comm (1#32)]
  have hzero : ∀ a : Word, a + BitVec.ofNat 32 0 = a := fun a => by simp
  constructor
  · intro hc
    refine ⟨?_, fun j hj => ?_⟩
    · have h0 := hc 0 (Nat.succ_pos n)
      rw [hzero, hzero] at h0
      exact h0
    · rw [hshift, hshift]
      exact hc (j + 1) (Nat.succ_lt_succ hj)
  · rintro ⟨h0, hs⟩ j hj
    cases j with
    | zero =>
      rw [hzero, hzero]
      exact h0
    | succ j =>
      have hj' := hs j (Nat.lt_of_succ_lt_succ hj)
      rw [hshift, hshift] at hj'
      exact hj'

theorem copyBytes_cases (P : Platform) (r : PmpRegs) (n : ℕ) (src dst : Word) (m : Memory) :
    (∃ m', copyBytes P r n src dst m = .ok m' ∧ CopyPermitted P r src dst n) ∨
    (∃ cause m', copyBytes P r n src dst m = .error (cause, m') ∧
      (cause = 5#32 ∨ cause = 7#32) ∧ ¬ CopyPermitted P r src dst n) := by
  induction n generalizing src dst m with
  | zero => exact Or.inl ⟨m, rfl, fun j hj => absurd hj (Nat.not_lt_zero j)⟩
  | succ n ih =>
    unfold copyBytes
    by_cases hs : P.mapped src && mModeMay r .read src
    · rw [if_pos hs]
      by_cases hd : P.mapped dst && mModeMay r .write dst
      · rw [if_pos hd]
        rcases ih (src + 1#32) (dst + 1#32) (Function.update m dst (m src)) with
          ⟨m', hm', hc⟩ | ⟨cause, m', hm', hcause, hc⟩
        · exact Or.inl ⟨m', hm', copyPermitted_succ.mpr ⟨⟨hs, hd⟩, hc⟩⟩
        · exact Or.inr ⟨cause, m', hm', hcause, fun h => hc (copyPermitted_succ.mp h).2⟩
      · rw [if_neg hd]
        exact Or.inr ⟨_, _, rfl, Or.inr rfl, fun h => hd (copyPermitted_succ.mp h).1.2⟩
    · rw [if_neg hs]
      exact Or.inr ⟨_, _, rfl, Or.inl rfl, fun h => hs (copyPermitted_succ.mp h).1.1⟩

theorem findPartner_state {α : Type} {want : TaskState → Option α} {ph : Hart}
    {pi : Fin MAX_PARTITIONS} {a : α} (hf : findPartner want k = some (ph, pi, a)) :
    ∃ st, k.stateOf ph pi = some st ∧ want st = some a := by
  obtain ⟨x, -, hx⟩ := List.exists_of_findSome?_eq_some hf
  obtain ⟨b, hb, hpair⟩ := Option.map_eq_some_iff.mp hx
  obtain ⟨st, hst, hwant⟩ := Option.bind_eq_some_iff.mp hb
  simp only [Prod.mk.injEq] at hpair
  obtain ⟨rfl, rfl, rfl⟩ := hpair
  exact ⟨st, hst, hwant⟩

theorem rendezvous_result (hk : Sound k) {endpointIdx : Byte} {src dst len mine theirs : Word}
    {x : TaskId} (hx : ((view k).state x).isSome) :
    Result h k k.schedLock k.schedLock (.transfer x)
      (CopyPermitted P (k.pmp h) src dst len.toNat)
      (rendezvous P h t endpointIdx src dst len x mine theirs k) := by
  rw [view_state_isSome] at hx
  obtain ⟨tcb, htcb⟩ := Option.isSome_iff_exists.mp hx
  unfold rendezvous
  simp only [htcb]
  rcases copyBytes_cases P (k.pmp h) len.toNat src dst k.mem with
    ⟨m', hm', hc⟩ | ⟨cause, m', hm', hcause, hc⟩
  · simp only [hm']
    have hset : Untouched k (k.setState x.1 x.2 .ready) := .setState ..
    refine .returns ?_ ?_ ?_ (fun _ he => by cases he) hc (Untouched.callerOnly ?_ h)
      (.of_switches rfl)
    · simp only [Effect.Leads, Effect.switches, Effect.apply]
      split <;> simp
    · split <;> rfl
    · split <;> exact hk.mutexLock
    · split <;> exact hset.then_eq rfl rfl
  · simp only [hm']
    exact .copyFault rfl hc hcause rfl rfl rfl (.of_eq rfl rfl)

/-- The bytes of the rendezvous, if there is one, can be copied. -/
def PlanPermitted (P : Platform) (k : Kernel) (h : Hart) (p? : Option Plan) : Prop :=
  ∀ p, p? = some p → CopyPermitted P (k.pmp h) p.src p.dst p.len.toNat

theorem Result.copies_congr {during after : Spinlock} {e : Effect} {c c' : Prop} (hc : c ↔ c')
    {o : Outcome} (hr : Result h k during after e c o) : Result h k during after e c' o := by
  rw [← propext hc]
  exact hr

/-- No partner waits at the endpoint: the caller blocks and nothing is copied. -/
theorem noPartner_result (hk : Sound k) (st : TaskState) :
    Result h k k.schedLock k.schedLock (.block st) (PlanPermitted P k h none)
      (blockCaller P h t st k) := by
  refine (blockCaller_result hk st).copies_congr ?_
  simp [PlanPermitted]

theorem partner_result {α : Type} {want : TaskState → Option α} (hk : Sound k) {ph : Hart}
    {pi : Fin MAX_PARTITIONS} {a : α} (hf : findPartner want k = some (ph, pi, a))
    {endpointIdx : Byte} {mine theirs : Word} (p : Plan) :
    Result h k k.schedLock k.schedLock (.transfer (ph, pi)) (PlanPermitted P k h (some p))
      (rendezvous P h t endpointIdx p.src p.dst p.len (ph, pi) mine theirs k) := by
  obtain ⟨st, hst, -⟩ := findPartner_state hf
  refine (rendezvous_result hk ?_).copies_congr ?_
  · exact Option.isSome_iff_exists.mpr ⟨st, hst⟩
  · simp [PlanPermitted]

theorem sendMessage_result (hk : Sound k) (capIdx msgAddr msgLen : Word) :
    Result h k k.schedLock k.schedLock
      (ipcEffect k h capIdx sendRight waitingReceiver fun e => .blockedOnIpcSend e msgAddr msgLen)
      (PlanPermitted P k h (sendPlan k h capIdx msgAddr msgLen))
      (sendMessage P h t capIdx msgAddr msgLen k) := by
  obtain ⟨r, hr, -⟩ := granted_eq hk h capIdx sendRight
  unfold sendMessage ipcEffect sendPlan
  simp only [hr]
  cases r with
  | none => exact refused_result rfl rfl hk.mutexLock (fun p hp => by cases hp) (.of_eq rfl rfl)
  | some endpointIdx =>
    cases hf : findPartner (waitingReceiver endpointIdx) k with
    | none =>
      simp only [hf]
      exact noPartner_result hk _
    | some y =>
      obtain ⟨ph, pi, bufAddr, maxLen⟩ := y
      simp only [hf]
      exact partner_result hk hf _

theorem sysSend_result (hk : Sound k) (hl : k.schedLock.lock h = some l) :
    Result h k l l.unlock
      (ipcEffect k h (k.readFrame t.userSp 6) sendRight waitingReceiver fun e =>
        .blockedOnIpcSend e (k.readFrame t.userSp 7) (k.readFrame t.userSp 8))
      (PlanPermitted P k h (sendPlan k h (k.readFrame t.userSp 6) (k.readFrame t.userSp 7)
        (k.readFrame t.userSp 8)))
      (sysSend P h t k) :=
  withSchedLock_result hl (sendMessage_result (hk.withSchedLock l) _ _ _)

theorem receiveMessage_result (hk : Sound k) (capIdx bufAddr maxLen : Word) :
    Result h k k.schedLock k.schedLock
      (ipcEffect k h capIdx recvRight waitingSender fun e => .blockedOnIpcRecv e bufAddr maxLen)
      (PlanPermitted P k h (recvPlan k h capIdx bufAddr maxLen))
      (receiveMessage P h t capIdx bufAddr maxLen k) := by
  obtain ⟨r, hr, -⟩ := granted_eq hk h capIdx recvRight
  unfold receiveMessage ipcEffect recvPlan
  simp only [hr]
  cases r with
  | none => exact refused_result rfl rfl hk.mutexLock (fun p hp => by cases hp) (.of_eq rfl rfl)
  | some endpointIdx =>
    cases hf : findPartner (waitingSender endpointIdx) k with
    | none =>
      simp only [hf]
      exact noPartner_result hk _
    | some y =>
      obtain ⟨ph, pi, msgAddr, msgLen⟩ := y
      simp only [hf]
      exact partner_result hk hf _

theorem sysRecv_result (hk : Sound k) (hl : k.schedLock.lock h = some l) :
    Result h k l l.unlock
      (ipcEffect k h (k.readFrame t.userSp 6) recvRight waitingSender fun e =>
        .blockedOnIpcRecv e (k.readFrame t.userSp 7) (k.readFrame t.userSp 8))
      (PlanPermitted P k h (recvPlan k h (k.readFrame t.userSp 6) (k.readFrame t.userSp 7)
        (k.readFrame t.userSp 8)))
      (sysRecv P h t k) :=
  withSchedLock_result hl (receiveMessage_result (hk.withSchedLock l) _ _ _)

/-! ### Termination -/

theorem kill_eq (hk : Sound k) (x : TaskId) :
    ∃ k2, recoverMutexes h x.2 (k.setState x.1 x.2 .terminated) = .ok k2 ∧
      view k2 = (Effect.kill x).apply h (view k) ∧ (view k2).Indexed ∧
      k2.schedLock = k.schedLock ∧ k2.mutexLock.owner = none ∧ Untouched k k2 := by
  have hv : (view (k.setState x.1 x.2 .terminated)).Indexed := by
    rw [view_setState]
    exact hk.indexed.setState _ _
  obtain ⟨k2, hk2, hview, hsched, hfree⟩ := recoverMutexes_eq hv hk.mutexLock h x.2
  have hset : Untouched k (k.setState x.1 x.2 .terminated) := .setState ..
  refine ⟨k2, hk2, ?_, ?_, hsched, hfree, hset.trans (recoverMutexes_untouched hk2)⟩
  · rw [hview, view_setState]
    rfl
  · rw [hview]
    exact View.recoverAll_induction (I := View.Indexed) (fun u i hu _ => hu.release i) hv

theorem terminateTask_result (hk : Sound k) (targetPrio : Word) :
    Result h k k.schedLock k.schedLock
      (match findTask k targetPrio with
        | some x => .kill x
        | none => .none) True (terminateTask P h t targetPrio k) := by
  unfold terminateTask
  cases hf : findTask k targetPrio with
  | none => exact refused_result rfl rfl hk.mutexLock trivial (.of_eq rfl rfl)
  | some x =>
    obtain ⟨foundHart, target⟩ := x
    obtain ⟨k2, hk2, hview, hv2, hsched, hfree, hu⟩ := kill_eq (h := h) hk (foundHart, target)
    have hcur : (k2.writeFrame t.userSp 6 0#32).current = k.current := by
      have hshape := (Effect.apply_shape h (view k) (.kill (foundHart, target))).current
      rw [← hview] at hshape
      exact hshape
    simp only [hk2, hcur]
    by_cases hne : foundHart ≠ h
    · rw [if_pos hne]
      have hno : ((foundHart, target) : TaskId) ≠ (view k).running h :=
        fun he => hne (Prod.ext_iff.mp he).1
      refine .returns ?_ hsched hfree (fun _ he => by cases he) trivial
        ((hu.callerOnly h).then (.of_eq rfl rfl)) (.of_switches (if_neg hno))
      simp only [Effect.Leads, Effect.switches, if_neg hno]
      exact hview
    · rw [if_neg hne]
      have hfh : foundHart = h := not_not.mp hne
      subst hfh
      by_cases ht : target = k.current foundHart
      · rw [if_pos ht]
        have hrun : ((foundHart, target) : TaskId) = (view k).running foundHart := by
          rw [ht]
          rfl
        refine switch_result hview ?_ hv2 hsched hfree (fun _ he => by cases he)
          (hu.then_eq rfl rfl)
        simp only [Effect.switches, if_pos hrun]
      · rw [if_neg ht]
        have hno : ((foundHart, target) : TaskId) ≠ (view k).running foundHart :=
          fun he => ht (Prod.ext_iff.mp he).2
        refine .returns ?_ hsched hfree (fun _ he => by cases he) trivial
          ((hu.callerOnly _).then (.of_eq rfl rfl)) (.of_switches (if_neg hno))
        simp only [Effect.Leads, Effect.switches, if_neg hno]
        exact hview

theorem sysTerminate_result (hk : Sound k) (hl : k.schedLock.lock h = some l) :
    Result h k l l.unlock
      (match findTask k (k.readFrame t.userSp 6) with
        | some x => .kill x
        | none => .none) True (sysTerminate P h t k) :=
  withSchedLock_result hl (terminateTask_result (hk.withSchedLock l) _)

theorem terminateRunning_result (hk : Sound k) :
    Result h k k.schedLock k.schedLock (.kill (h, k.current h)) True
      (terminateRunning P h t k) := by
  obtain ⟨tcb, htcb⟩ := hk.running_isSome h
  obtain ⟨k2, hk2, hview, hv2, hsched, hfree, hu⟩ := kill_eq (h := h) hk (h, k.current h)
  unfold terminateRunning
  simp only [htcb, hk2]
  refine switch_result hview ?_ hv2 hsched hfree (fun _ he => by cases he) hu
  have hrun : ((h, k.current h) : TaskId) = (view k).running h := rfl
  simp only [Effect.switches, if_pos hrun]

theorem containFault_result (hk : Sound k) (hl : k.schedLock.lock h = some l) :
    Result h k l l.unlock (.kill (h, k.current h)) True (containFault P h t k) := by
  unfold containFault
  generalize hk1 : k.logTelemetry _ = k1
  have hview : view k1 = view k := hk1 ▸ rfl
  have hmutex : k1.mutexLock = k.mutexLock := hk1 ▸ rfl
  have hcur : k1.current = k.current := hk1 ▸ rfl
  have hu : Untouched k k1 := hk1 ▸ .of_eq rfl rfl
  have hk1' : Sound k1 := hk.congr hview (hmutex ▸ hk.mutexLock)
  have hl1 : k1.schedLock.lock h = some l := hk1 ▸ hl
  have hbody := withSchedLock_result hl1
    (terminateRunning_result (P := P) (t := t) (hk1'.withSchedLock l))
  rw [← hcur]
  exact hbody.congr hview hmutex hu

/-! ### Interrupts -/

theorem view_wakeSleepers (now : Word) :
    view (k.setSched h (wakeSleepers now (k.scheds h))) = (view k).wake h now := by
  rw [view_setSched k h fun j => statics_wakeSleepers _ _ _]
  apply View.ext
  · rfl
  · funext x
    obtain ⟨h', i⟩ := x
    by_cases hh : h' = h
    · subst hh
      simp only [View.wake, if_true, view, Kernel.stateOf, BitMapScheduler.stateAt, wakeSleepers,
        Option.map_map]
      rfl
    · simp [View.wake, hh]
  · exact Function.update_eq_self h k.current
  · rfl

theorem timerInterrupt_result (hk : Sound k) (hl : k.schedLock.lock h = some l) :
    Result h k l l.unlock (.tick (k.tickCount + 1#32)) True (timerInterrupt P h t k) := by
  unfold timerInterrupt
  refine (withSchedLock_result (k := { k with tickCount := k.tickCount + 1#32 }) hl ?_).congr rfl rfl
    (.of_eq rfl rfl)
  refine switch_result (view_wakeSleepers _) rfl ?_ rfl hk.mutexLock (fun _ he => by cases he)
    (.setSched rfl fun j => savedSps_wakeSleepers _ j _)
  rw [view_wakeSleepers]
  exact hk.indexed.of_shape (Effect.apply_shape h (view k) (.tick (k.tickCount + 1#32))) rfl

theorem softwareInterrupt_result (hk : Sound k) (hl : k.schedLock.lock h = some l) :
    Result h k l l.unlock .resched True (softwareInterrupt P h t k) := by
  unfold softwareInterrupt
  refine (withSchedLock_result (k := k.setMsip h false) hl ?_).congr rfl rfl (.of_eq rfl rfl)
  exact switch_result rfl rfl hk.indexed rfl hk.mutexLock (fun _ he => by cases he) (.of_eq rfl rfl)

/-! ### Dispatch -/

/-- The trap takes `SCHED_LOCK`: all do but an unknown syscall and an emulated counter read. -/
def TakesLock (k : Kernel) (t : Trap) : Prop :=
  if t.mcause = ECALL_UMODE then
    1 ≤ (k.readFrame t.userSp 13).toNat ∧ (k.readFrame t.userSp 13).toNat ≤ 8
  else ¬ (t.mcause = 2#32 ∧ readsCounter (k.mem.readWord (k.readFrame t.userSp 28)) = true)

/-- The causes `trap_handler` has an arm for. -/
def HandledCause (cause : Word) : Prop :=
  cause = TIMER_INTERRUPT ∨ cause = SOFTWARE_INTERRUPT ∨ cause = ECALL_UMODE ∨
    contained cause = true

instance (cause : Word) : Decidable (HandledCause cause) := by
  unfold HandledCause
  infer_instance

theorem withSchedLock_spinning {body : Kernel → Outcome} (hl : k.schedLock.lock h = none) :
    withSchedLock h k body = .error .spinning := by
  simp [withSchedLock, hl]

theorem syscallId_cases {n : ℕ} (hid : 1 ≤ n ∧ n ≤ 8) :
    n = 1 ∨ n = 2 ∨ n = 3 ∨ n = 4 ∨ n = 5 ∨ n = 6 ∨ n = 7 ∨ n = 8 := by
  omega

theorem ecall_result (hk : Sound k) (hl : k.schedLock.lock h = some l)
    (hid : 1 ≤ (k.readFrame t.userSp 13).toNat ∧ (k.readFrame t.userSp 13).toNat ≤ 8)
    (hcause : t.mcause = ECALL_UMODE) :
    Result h k l l.unlock (ecallEffect k h t) (PlanPermitted P k h (transferPlan k h t))
      (ecall P h t k) := by
  have hk0 : ∀ v, Sound (k.writeFrame t.userSp 28 v) := fun v => hk.congr rfl hk.mutexLock
  have hl0 : ∀ v, (k.writeFrame t.userSp 28 v).schedLock.lock h = some l := fun _ => hl
  have hnone : True ↔ PlanPermitted P k h none := by simp [PlanPermitted]
  unfold ecall ecallEffect transferPlan
  rw [if_pos hcause]
  generalize k.readFrame t.userSp 28 + 4#32 = v
  rcases syscallId_cases hid with hn | hn | hn | hn | hn | hn | hn | hn <;> simp only [hn]
  · exact ((sysYield_result (hk0 v) (hl0 v)).congr (k := k) rfl rfl (.of_eq rfl rfl)).copies_congr hnone
  · have hr := sysSleep_result (P := P) (t := t) (hk0 v) (hl0 v)
    simp (disch := omega) only [readFrame_writePc] at hr
    exact (hr.congr (k := k) rfl rfl (.of_eq rfl rfl)).copies_congr hnone
  · have hr := sysLock_result (P := P) (t := t) (hk0 v) (hl0 v)
    simp (disch := omega) only [readFrame_writePc] at hr
    exact (hr.congr (k := k) rfl rfl (.of_eq rfl rfl)).copies_congr hnone
  · have hr := sysUnlock_result (P := P) (t := t) (hk0 v) (hl0 v)
    simp (disch := omega) only [readFrame_writePc] at hr
    exact (hr.congr (k := k) rfl rfl (.of_eq rfl rfl)).copies_congr hnone
  · exact ((sysCheckin_result (hk0 v) (hl0 v)).congr (k := k) rfl rfl (.of_eq rfl rfl)).copies_congr hnone
  · have hr := sysSend_result (P := P) (t := t) (hk0 v) (hl0 v)
    simp (disch := omega) only [readFrame_writePc] at hr
    exact hr.congr (k := k) rfl rfl (.of_eq rfl rfl)
  · have hr := sysRecv_result (P := P) (t := t) (hk0 v) (hl0 v)
    simp (disch := omega) only [readFrame_writePc] at hr
    exact hr.congr (k := k) rfl rfl (.of_eq rfl rfl)
  · have hr := sysTerminate_result (P := P) (t := t) (hk0 v) (hl0 v)
    simp (disch := omega) only [readFrame_writePc] at hr
    exact (hr.congr (k := k) rfl rfl (.of_eq rfl rfl)).copies_congr hnone

theorem ecall_spinning (hl : k.schedLock.lock h = none)
    (hid : 1 ≤ (k.readFrame t.userSp 13).toNat ∧ (k.readFrame t.userSp 13).toNat ≤ 8) :
    ecall P h t k = .error .spinning := by
  have hspin : ∀ v body, withSchedLock h (k.writeFrame t.userSp 28 v) body = .error .spinning :=
    fun _ _ => withSchedLock_spinning hl
  unfold ecall
  rcases syscallId_cases hid with hn | hn | hn | hn | hn | hn | hn | hn <;> simp only [hn]
  · exact hspin _ _
  · unfold sysSleep
    exact hspin _ _
  all_goals exact hspin _ _

theorem ecall_unknown
    (hid : ¬ (1 ≤ (k.readFrame t.userSp 13).toNat ∧ (k.readFrame t.userSp 13).toNat ≤ 8)) :
    ecall P h t k = .ok (t.userSp,
      k.writeFrame t.userSp 28 (k.readFrame t.userSp 28 + 4#32)) ∧
      ecallEffect k h t = .none := by
  unfold ecall ecallEffect
  constructor
  · dsimp only
    split <;> first | rfl | (exfalso; omega)
  · dsimp only
    split <;> first | rfl | (exfalso; omega)

theorem transferPlan_eq_none
    (hid : ¬ (1 ≤ (k.readFrame t.userSp 13).toNat ∧ (k.readFrame t.userSp 13).toNat ≤ 8)) :
    transferPlan k h t = none := by
  unfold transferPlan
  split
  · split <;> first | rfl | (exfalso; omega)
  · rfl

theorem transferPlan_of_ne (hne : t.mcause ≠ ECALL_UMODE) : transferPlan k h t = none := by
  rw [transferPlan, if_neg hne]

/-- The trap's arm runs, waits for the lock, or does not need it. -/
inductive TrapResult (P : Platform) (h : Hart) (t : Trap) (k : Kernel) : Outcome → Prop where
  | runs {l : Spinlock} {o : Outcome} (htakes : TakesLock k t) (hl : k.schedLock.lock h = some l)
      (hr : Result h k l l.unlock (effect k h t) (PlanPermitted P k h (transferPlan k h t)) o) :
      TrapResult P h t k o
  | spins (htakes : TakesLock k t) (hl : k.schedLock.lock h = none) :
      TrapResult P h t k (.error .spinning)
  | lockFree {k' : Kernel} (htakes : ¬ TakesLock k t) (he : effect k h t = .none)
      (hp : transferPlan k h t = none) (hview : view k' = view k) (hlocks : SameLocks k k')
      (hframe : Untouched k k') : TrapResult P h t k (.ok (t.userSp, k'))

theorem TrapResult.of_lock {o : Outcome} {e : Effect} (htakes : TakesLock k t)
    (he : effect k h t = e) (hp : transferPlan k h t = none)
    (hrun : ∀ l, k.schedLock.lock h = some l → Result h k l l.unlock e True o)
    (hspin : k.schedLock.lock h = none → o = .error .spinning) : TrapResult P h t k o := by
  cases hl : k.schedLock.lock h with
  | none =>
    rw [hspin hl]
    exact .spins htakes hl
  | some l =>
    refine .runs htakes hl ((he ▸ hrun l hl).copies_congr ?_)
    simp [PlanPermitted, hp]

theorem trap_result (hk : Sound k) (hc : HandledCause t.mcause) :
    TrapResult P h t k (trapHandler P h t k) := by
  unfold trapHandler
  by_cases htimer : t.mcause = TIMER_INTERRUPT
  · have hne : t.mcause ≠ ECALL_UMODE := by
      rw [htimer]
      decide
    have htakes : TakesLock k t := by
      rw [TakesLock, if_neg hne, htimer]
      exact fun hno => absurd hno.1 (by decide)
    rw [if_pos htimer]
    exact .of_lock htakes (by rw [effect, if_pos htimer]) (transferPlan_of_ne hne)
      (fun l hl => timerInterrupt_result hk hl) fun hl => by
        unfold timerInterrupt
        exact withSchedLock_spinning (k := { k with tickCount := k.tickCount + 1#32 }) hl
  · rw [if_neg htimer]
    by_cases hsoft : t.mcause = SOFTWARE_INTERRUPT
    · have hne : t.mcause ≠ ECALL_UMODE := by
        rw [hsoft]
        decide
      have htakes : TakesLock k t := by
        rw [TakesLock, if_neg hne, hsoft]
        exact fun hno => absurd hno.1 (by decide)
      rw [if_pos hsoft]
      exact .of_lock htakes (by rw [effect, if_neg htimer, if_pos hsoft]) (transferPlan_of_ne hne)
        (fun l hl => softwareInterrupt_result hk hl) fun hl =>
          withSchedLock_spinning (k := k.setMsip h false) hl
    · rw [if_neg hsoft]
      by_cases hecall : t.mcause = ECALL_UMODE
      · rw [if_pos hecall]
        have heff : effect k h t = ecallEffect k h t := by
          rw [effect, if_neg htimer, if_neg hsoft, if_pos hecall]
        by_cases hid : 1 ≤ (k.readFrame t.userSp 13).toNat ∧ (k.readFrame t.userSp 13).toNat ≤ 8
        · have htakes : TakesLock k t := by
            rw [TakesLock, if_pos hecall]
            exact hid
          cases hl : k.schedLock.lock h with
          | none =>
            rw [ecall_spinning hl hid]
            exact .spins htakes hl
          | some l => exact .runs htakes hl (heff ▸ ecall_result hk hl hid hecall)
        · have htakes : ¬ TakesLock k t := by
            rw [TakesLock, if_pos hecall]
            exact hid
          obtain ⟨hret, hnone⟩ := ecall_unknown (P := P) (h := h) hid
          rw [hret]
          exact .lockFree htakes (heff.trans hnone) (transferPlan_eq_none hid) rfl ⟨rfl, rfl⟩
            (.of_eq rfl rfl)
      · rw [if_neg hecall]
        unfold exception
        have hcont : contained t.mcause = true :=
          ((hc.resolve_left htimer).resolve_left hsoft).resolve_left hecall
        by_cases hcsr : t.mcause = 2#32 ∧
            readsCounter (k.mem.readWord (k.readFrame t.userSp 28)) = true
        · have htakes : ¬ TakesLock k t := by
            rw [TakesLock, if_neg hecall]
            exact fun hno => hno hcsr
          simp only [if_pos hcsr]
          refine .lockFree htakes ?_ (transferPlan_of_ne hecall) ?_ ?_ ?_
          · rw [effect, if_neg htimer, if_neg hsoft, if_neg hecall, if_pos hcsr]
          · unfold emulateCounter
            cases frameIdx (k.mem.readWord (k.readFrame t.userSp 28)) <;> rfl
          · unfold emulateCounter
            cases frameIdx (k.mem.readWord (k.readFrame t.userSp 28)) <;> exact ⟨rfl, rfl⟩
          · unfold emulateCounter
            cases frameIdx (k.mem.readWord (k.readFrame t.userSp 28)) <;> exact .of_eq rfl rfl
        · have htakes : TakesLock k t := by
            rw [TakesLock, if_neg hecall]
            exact hcsr
          simp only [if_neg hcsr, hcont, if_true]
          refine .of_lock htakes ?_ (transferPlan_of_ne hecall)
            (fun l hl => containFault_result hk hl) fun hl =>
              withSchedLock_spinning (k := k.logTelemetry _) hl
          rw [effect, if_neg htimer, if_neg hsoft, if_neg hecall, if_neg hcsr]

theorem trap_unhandled (hc : ¬ HandledCause t.mcause) :
    trapHandler P h t k = .error .unhandledException := by
  simp only [HandledCause, not_or] at hc
  obtain ⟨htimer, hsoft, hecall, hcont⟩ := hc
  have hcsr : ¬ (t.mcause = 2#32 ∧
      readsCounter (k.mem.readWord (k.readFrame t.userSp 28)) = true) := by
    rintro ⟨h2, -⟩
    rw [h2] at hcont
    exact hcont (by decide)
  rw [trapHandler, if_neg htimer, if_neg hsoft, if_neg hecall]
  simp only [exception, if_neg hcsr, if_neg hcont]

end Handlers

end Cerberus.Kernel
