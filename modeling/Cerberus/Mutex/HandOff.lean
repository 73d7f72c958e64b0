import Cerberus.Kernel.Recovery
import Cerberus.Mutex.WaitSet

/-! # The three ways to give a mutex up

The owner unlocks, syscall 8 terminates it, or it faults. The three paths choose the same waiter and
write the same mutex, but only unlock writes the waiter's saved `a0` and signals the waiter's hart.
The kernel is any one: the task tables, the waiter sets and the places of owner and waiters are
arbitrary. -/
namespace Cerberus.Mutex
open Kernel Scheduler Sync Memory Transition
set_option autoImplicit false

def WaitsFor (k : Kernel) (x : TaskId) (i : Fin 8) : Prop :=
  k.stateOf x.1 x.2 = some (.blockedOnMutex (BitVec.ofNat 8 i.val))

/-- Task `o` owns mutex `i`, and the waiter bits are the tasks `BlockedOnMutex` it. -/
structure OwnedBy (k : Kernel) (i : Fin 8) (m : KernelMutex) (o : TaskId) : Prop where
  mutex : k.mutexes i = some m
  locked : m.locked = true
  owner : m.ownerTaskIdx = some (ownerByte o.2)
  registered : ((k.scheds o.1).taskTable o.2).isSome
  waiters : ∀ w, BitSet.Mem m.waitersBitmap w ↔ ∃ h, WaitsFor k (h, w) i

instance (k : Kernel) (x : TaskId) (i : Fin 8) : Decidable (WaitsFor k x i) :=
  inferInstanceAs (Decidable (_ = _))

instance (k : Kernel) (i : Fin 8) (m : KernelMutex) (o : TaskId) : Decidable (OwnedBy k i m o) :=
  decidable_of_iff (k.mutexes i = some m ∧ m.locked = true ∧
      m.ownerTaskIdx = some (ownerByte o.2) ∧ ((k.scheds o.1).taskTable o.2).isSome ∧
      ∀ w, BitSet.Mem m.waitersBitmap w ↔ ∃ h, WaitsFor k (h, w) i)
    ⟨fun ⟨hm, hl, ho, hr, hw⟩ => ⟨hm, hl, ho, hr, hw⟩,
      fun ho => ⟨ho.mutex, ho.locked, ho.owner, ho.registered, ho.waiters⟩⟩

inductive Path where
  | unlock
  | terminate
  | fault

/-- The trap takes this path, and releases mutex `i` of task `o` on it. -/
def Path.Taken (k : Kernel) (h : Hart) (t : Trap) (i : Fin 8) (m : KernelMutex) (o : TaskId) :
    Path → Prop
  | .unlock => t.mcause = ECALL_UMODE ∧ (k.readFrame t.userSp 13).toNat = 4 ∧
      o = (h, k.current h) ∧
      grantedMutex k h (k.readFrame t.userSp 6) unlockRight = .ok (some (i, m))
  | .terminate => t.mcause = ECALL_UMODE ∧ (k.readFrame t.userSp 13).toNat = 8 ∧
      findTask k (k.readFrame t.userSp 6) = some o
  | .fault => contained t.mcause = true ∧
      ¬ (t.mcause = 2#32 ∧ readsCounter (k.mem.readWord (k.readFrame t.userSp 28)) = true) ∧
      o = (h, k.current h)

/-- `Ready`, or `Running` if the context switch of the same trap has picked the task. -/
def Woken (k : Kernel) (x : TaskId) : Prop :=
  k.stateOf x.1 x.2 = some .ready ∨
    k.stateOf x.1 x.2 = some .running ∧ k.current x.1 = x.2

/-- Mutex `i`, which was `m`, has gone to the waiter `x`; `h` is the acting hart. -/
structure HandedTo (h : Hart) (i : Fin 8) (m : KernelMutex) (x : TaskId) (k' : Kernel) : Prop where
  mutex : k'.mutexes i =
    some ⟨true, some (ownerByte x.2), m.waitersBitmap &&& ~~~BitSet.single x.2⟩
  woken : Woken k' x
  a0 : ∃ sp, savedSpOf k' x = some sp ∧ k'.readFrame sp 6 = 0#32
  signalled : x.1 ≠ h → k'.msip x.1 = true

/-- Without a waiter in `k` the mutex is free in `k'`, and with one it has gone to the waiter that the
scan chooses. -/
def GivenUp (k : Kernel) (h : Hart) (i : Fin 8) (m : KernelMutex) (k' : Kernel) : Prop :=
  ((∀ x, ¬ WaitsFor k x i) → k'.mutexes i = some { m with locked := false, ownerTaskIdx := none }) ∧
    ((∃ x, WaitsFor k x i) → ∃ x, WaitsFor k x i ∧
      highestWaiter k m.waitersBitmap = .ok (some x.2) ∧ HandedTo h i m x k')

/-- The handler returns and has given the mutex up. -/
def HandsOver (k : Kernel) (h : Hart) (i : Fin 8) (m : KernelMutex) (out : Outcome) : Prop :=
  ∃ sp k', out = .ok (sp, k') ∧ GivenUp k h i m k'

/-- The scan finds the control blocks it reads, and the one of the waiter it chooses is the waiting
task's own. -/
def Resolves (k : Kernel) (i : Fin 8) (m : KernelMutex) : Prop :=
  ∃ w?, highestWaiter k m.waitersBitmap = .ok w? ∧ ∀ w ∈ w?, WaitsFor k (waiterTask w) i

/-- The word `a0` of the frame at `sp` is 0. -/
def ReadsZero (k : Kernel) (sp : Option Word) : Prop := ∃ a, sp = some a ∧ k.readFrame a 6 = 0#32

/-- The waiter `x` finds 0 in its `a0` and its hart has a software interrupt pending, although syscall
8 writes only the caller's frame and signals only the hart of `o`, and a fault does neither. -/
def Path.Told (k : Kernel) (h : Hart) (t : Trap) (o x : TaskId) : Path → Prop
  | .unlock => True
  | .terminate =>
    ReadsZero ((k.writeFrame t.userSp 28 (k.readFrame t.userSp 28 + 4#32)).writeFrame t.userSp 6 0#32)
      (if o = (h, k.current h) ∧ x = o then some t.userSp else savedSpOf k x) ∧
    (x.1 = h ∨ o.1 ≠ h ∨ k.msip x.1 = true)
  | .fault => ReadsZero k (if x = o then some t.userSp else savedSpOf k x) ∧
    (x.1 = h ∨ k.msip x.1 = true)

/-- When a path gives the mutex up as it should. -/
def Path.Agrees (k : Kernel) (h : Hart) (t : Trap) (i : Fin 8) (m : KernelMutex) (o : TaskId)
    (p : Path) : Prop :=
  Resolves k i m ∧ (p ≠ .unlock → Scans k o.2) ∧
    ∀ w, highestWaiter k m.waitersBitmap = .ok (some w) → p.Told k h t o (waiterTask w)

/-! ## The context switch at the end -/

section Switch
variable {P : Platform} {h : Hart} {cycles sp : Word} {isTick : Bool} {k k' : Kernel} {x : TaskId}

theorem switchTask_same (P : Platform) (h : Hart) (cycles : Word) (isTick : Bool) (sp : Word)
    (k : Kernel) : (switchTask P h cycles isTick sp k).2.mem = k.mem ∧
      (switchTask P h cycles isTick sp k).2.msip = k.msip ∧
      (switchTask P h cycles isTick sp k).2.mutexes = k.mutexes := by
  unfold switchTask
  split
  · exact ⟨rfl, rfl, rfl⟩
  · split <;> exact ⟨rfl, rfl, rfl⟩

/-- A switch that finds a `Ready` task saves the interrupted context. -/
theorem switchTask_saves (hreg : ((view k).state ((view k).running h)).isSome)
    (hready : ∃ n, (view k).state (h, n) = some .ready) :
    savedSpOf (switchTask P h cycles false sp k).2 (h, k.current h) = some sp := by
  have hreg' := current_registered hreg
  obtain ⟨n, hn⟩ := hready
  rcases BitMapScheduler.schedule_cases (b := false) hreg' with
    ⟨r, -, ⟨hno, -⟩ | ⟨-, hnone⟩⟩ | ⟨n, tcb, -, -, htcb, hsched⟩
  · exact absurd (Or.inr (Or.inl rfl)) hno
  · exact absurd hn (BitMapScheduler.selectNext_eq_none_iff.mp hnone n)
  · simp only [switchTask, hsched, BitMapScheduler.swapTo_currentPartitionIdx, htcb]
    have hsaved : savedSps ((((k.scheds h).spendTick false).swapTo n).setSavedSp
        (k.scheds h).currentPartitionIdx sp) (k.scheds h).currentPartitionIdx = some sp := by
      apply savedSps_setSavedSp_self
      simpa using hreg'
    simpa [savedSpOf, Kernel.current, Kernel.setPmp] using hsaved

theorem woken_of_ready (hs : view k' = view k ∨ View.Resched h false (view k) (view k'))
    (hx : (view k).state x = some .ready) : Woken k' x := by
  have hsame : view k' = view k → Woken k' x := fun hv => Or.inl (by
    show (view k').state x = _
    rw [hv, hx])
  rcases hs with hv | ⟨hv, -⟩ | ⟨n, -, hv⟩
  · exact hsame hv
  · exact hsame hv
  · have hst : k'.stateOf x.1 x.2 = ((view k).swap h n).state x := congrFun (congrArg View.state hv) x
    rw [View.state_swap] at hst
    by_cases hxn : x = (h, n)
    · rw [if_pos hxn, hx] at hst
      refine Or.inr ⟨hst, ?_⟩
      have hcur : k'.current x.1 = ((view k).swap h n).current x.1 :=
        congrFun (congrArg View.current hv) x.1
      rw [hcur, hxn]
      simp [View.swap]
    · rw [if_neg hxn, if_neg (by rw [hx]; simp), hx] at hst
      exact Or.inl hst

theorem not_woken_of_not_runnable
    (hs : view k' = view k ∨ View.Resched h false (view k) (view k'))
    (hx : ¬ Runnable ((view k).state x)) : ¬ Woken k' x := by
  have hsame : (view k').state x = (view k).state x → ¬ Woken k' x := by
    rintro hst (hr | ⟨hr, -⟩)
    · exact hx (Or.inr (hst ▸ hr))
    · exact hx (Or.inl (hst ▸ hr))
  rcases hs with hv | ⟨hv, -⟩ | ⟨n, hn, hv⟩
  · exact hsame (by rw [hv])
  · exact hsame (by rw [hv])
  · refine hsame ?_
    rw [hv, View.state_swap, if_neg, if_neg]
    · exact fun hr => hx (Or.inl hr.2)
    · rintro rfl
      exact hx (Or.inr hn)

end Switch

/-! ## What the outcome has to be -/

section Outcome
variable {k k' : Kernel} {h : Hart} {i : Fin 8} {m : KernelMutex} {o : TaskId} {w : Fin MAX_PARTITIONS}

theorem GivenUp.congr {k'' : Kernel} (hg : GivenUp k h i m k') (hscheds : k''.scheds = k'.scheds)
    (hmutexes : k''.mutexes = k'.mutexes) (hmem : k''.mem = k'.mem) (hmsip : k''.msip = k'.msip) :
    GivenUp k h i m k'' := by
  refine ⟨fun hno => by rw [hmutexes, hg.1 hno], fun hsome => ?_⟩
  obtain ⟨x, hx, hscan, hto⟩ := hg.2 hsome
  refine ⟨x, hx, hscan, by rw [hmutexes, hto.mutex], ?_, ?_, by rw [hmsip]; exact hto.signalled⟩
  · unfold Woken Kernel.stateOf Kernel.current
    rw [hscheds]
    exact hto.woken
  · unfold savedSpOf Kernel.readFrame
    rw [hscheds, hmem]
    exact hto.a0

theorem handsOver_withSchedLock (k0 : Kernel) {l : Spinlock} {body : Kernel → Outcome}
    (hl : k0.schedLock.lock h = some l) : HandsOver k h i m (withSchedLock h k0 body) ↔
      HandsOver k h i m (body { k0 with schedLock := l }) := by
  unfold withSchedLock
  simp only [hl]
  cases body { k0 with schedLock := l } with
  | error e => exact Iff.rfl
  | ok r =>
    constructor
    · rintro ⟨sp, k', hr, hg⟩
      obtain ⟨-, rfl⟩ := Prod.mk.inj (Except.ok.inj hr)
      exact ⟨r.1, r.2, rfl, hg.congr rfl rfl rfl rfl⟩
    · rintro ⟨sp, k', hr, hg⟩
      obtain rfl : r = (sp, k') := Except.ok.inj hr
      exact ⟨sp, _, rfl, hg.congr rfl rfl rfl rfl⟩

theorem not_handsOver_error (e : Stop) : ¬ HandsOver k h i m (.error e) := by
  rintro ⟨sp, k', hr, -⟩
  cases hr

theorem OwnedBy.no_waiter (ho : OwnedBy k i m o) (hscan : highestWaiter k m.waitersBitmap = .ok none)
    (x : TaskId) : ¬ WaitsFor k x i := fun hx =>
  not_mem_of_highestWaiter hscan x.2 ((ho.waiters x.2).mpr ⟨x.1, hx⟩)

/-- Nobody waits, and the mutex is free. -/
theorem OwnedBy.handsOver_none (ho : OwnedBy k i m o)
    (hscan : highestWaiter k m.waitersBitmap = .ok none) {sp : Word}
    (hfree : k'.mutexes i = some m.free) : HandsOver k h i m (.ok (sp, k')) :=
  ⟨sp, k', rfl, fun _ => hfree, fun ⟨x, hx⟩ => absurd hx (ho.no_waiter hscan x)⟩

/-- The scan chooses `w`: what counts is what happened to the slot that `w` stands for. -/
theorem OwnedBy.handsOver_some (ho : OwnedBy k i m o)
    (hscan : highestWaiter k m.waitersBitmap = .ok (some w)) {sp : Word} {T : Prop}
    (hplaced : WaitsFor k (waiterTask w) i → (HandedTo h i m (waiterTask w) k' ↔ T))
    (helse : ∀ x, WaitsFor k x i → x ≠ waiterTask x.2 → ¬ Woken k' x) :
    HandsOver k h i m (.ok (sp, k')) ↔ WaitsFor k (waiterTask w) i ∧ T := by
  obtain ⟨h', hwaits⟩ := (ho.waiters w).mp (mem_of_highestWaiter hscan)
  constructor
  · rintro ⟨_, _, hr, hg⟩
    obtain ⟨-, rfl⟩ := Prod.mk.inj (Except.ok.inj hr)
    obtain ⟨x, hx, hscan', hto⟩ := hg.2 ⟨_, hwaits⟩
    obtain rfl := Option.some.inj (Except.ok.inj (hscan.symm.trans hscan'))
    by_cases hxw : x = waiterTask x.2
    · rw [← hxw]
      rw [← hxw] at hplaced
      exact ⟨hx, (hplaced hx).mp hto⟩
    · exact absurd hto.woken (helse x hx hxw)
  · rintro ⟨hx, hT⟩
    exact ⟨sp, k', rfl, fun hno => absurd hwaits (hno _), fun _ =>
      ⟨waiterTask w, hx, hscan, (hplaced hx).mpr hT⟩⟩

theorem resolves_none (hscan : highestWaiter k m.waitersBitmap = .ok none) : Resolves k i m :=
  ⟨none, hscan, fun w hw => by cases hw⟩

theorem resolves_some_iff (hscan : highestWaiter k m.waitersBitmap = .ok (some w)) :
    Resolves k i m ↔ WaitsFor k (waiterTask w) i := by
  constructor
  · rintro ⟨w?, hw?, hall⟩
    obtain rfl := Except.ok.inj (hscan.symm.trans hw?)
    exact hall w rfl
  · intro hx
    refine ⟨some w, hscan, fun w' hw' => ?_⟩
    obtain rfl := Option.some.inj hw'
    exact hx

end Outcome

/-! ## Unlock -/

section Unlock
variable {P : Platform} {k : Kernel} {h : Hart} {t : Trap} {i : Fin 8} {m : KernelMutex} {o : TaskId}
  {w : Fin MAX_PARTITIONS}

theorem OwnedBy.running (ho : OwnedBy k i m o) (hcaller : o = (h, k.current h)) :
    ((view k).state ((view k).running h)).isSome := by
  rw [view_state_isSome]
  have hreg := ho.registered
  rw [hcaller] at hreg
  exact hreg

theorem handOff_spec {tcb : TaskControlBlock}
    (htcb : (k.scheds (waiterHart w)).taskTable w = some tcb) :
    ∃ k2, handOff h i m w k = .ok k2 ∧
      view k2 = ((view k).setMutex i { m.handTo w with locked := m.locked }).setState (waiterTask w)
        .ready ∧
      k2.mem = k.mem.writeWord (slot tcb.savedSp 6) 0#32 ∧
      (waiterHart w ≠ h → k2.msip (waiterHart w) = true) ∧ Untouched k k2 := by
  have hset : Untouched k (k.setState (waiterHart w) w .ready) := .setState ..
  unfold handOff
  simp only [htcb]
  refine ⟨_, rfl, ?_, ?_, fun hne => ?_, ?_⟩
  · split <;>
      simp only [view_setMsip, view_unlockMutexes, view_writeFrame, view_setState, view_setMutex] <;>
      rfl
  · split <;> rfl
  · rw [if_pos hne]
    exact Function.update_self _ _ _
  · split <;> exact hset.then_eq rfl rfl

/-- What the scan's choice `w` finds after the context switch and the caller's own result. -/
theorem handedTo_of_unlock (ho : OwnedBy k i m o) (hcaller : o = (h, k.current h)) {k2 : Kernel}
    {tcb : TaskControlBlock} (htcb : (k.scheds (waiterHart w)).taskTable w = some tcb)
    (hview : view k2 = ((view k).setMutex i (m.handTo w)).setState (waiterTask w) .ready)
    (hmem : k2.mem = k.mem.writeWord (slot tcb.savedSp 6) 0#32)
    (hmsip : waiterHart w ≠ h → k2.msip (waiterHart w) = true) (hu : Untouched k k2) :
    HandedTo h i m (waiterTask w)
      ((switchTask P h t.cycles false t.userSp k2).2.writeFrame t.userSp 6 0#32) := by
  have hrunning : ((view k2).state ((view k2).running h)).isSome := by
    rw [hview, View.isSome_setState]
    exact ho.running hcaller
  have hready : (view k2).state (waiterTask w) = some .ready := by
    have hsome : ((view k).state (waiterTask w)).isSome := by
      rw [view_state_isSome, show (k.scheds (waiterTask w).1).taskTable (waiterTask w).2 = _ from htcb]
      rfl
    obtain ⟨st, hst⟩ := Option.isSome_iff_exists.mp hsome
    rw [hview, View.state_setState, if_pos rfl, View.setMutex_state, hst]
    rfl
  obtain ⟨hmem', hmsip', hmutex'⟩ := switchTask_same P h t.cycles false t.userSp k2
  have hcaller2 := switchTask_callerOnly P h t.cycles false t.userSp k2
  have hresched := switchTask_resched P h t.cycles false t.userSp k2
  refine ⟨?_, woken_of_ready (h := h) (Or.inr hresched) hready, ?_, ?_⟩
  · have hk2 : k2.mutexes i = some (m.handTo w) := by
      have hm2 : (view k2).mutexes i = some (m.handTo w) := by
        rw [hview, View.setState_mutexes, View.mutexes_setMutex, if_pos rfl]
      exact hm2
    show (switchTask P h t.cycles false t.userSp k2).2.mutexes i = _
    rw [hmutex', hk2]
    rfl
  · by_cases hself : waiterTask w = (h, k2.current h)
    · refine ⟨t.userSp, ?_, readWord_writeWord_self _ _ _⟩
      rw [hself]
      refine switchTask_saves hrunning ⟨k2.current h, ?_⟩
      rw [← hself]
      exact hready
    · refine ⟨tcb.savedSp, ?_, ?_⟩
      · have hsp : savedSpOf k (waiterTask w) = some tcb.savedSp := by
          simp [savedSpOf, savedSps, waiterTask, htcb]
        exact (hcaller2.savedSp _ hself).trans ((hu.savedSp _).trans hsp)
      · refine readWord_writeWord_zero _ fun c hc => ?_
        rw [hmem', hmem]
        exact writeWord_zero _ hc
  · intro hne
    show (switchTask P h t.cycles false t.userSp k2).2.msip _ = true
    rw [hmsip']
    exact hmsip hne

theorem WaitsFor.not_runnable {x : TaskId} (hx : WaitsFor k x i) : ¬ Runnable ((view k).state x) := by
  have hst : (view k).state x = some (.blockedOnMutex (BitVec.ofNat 8 i.val)) := hx
  rw [hst]
  rintro (hr | hr) <;> cases hr

/-- The hand-off of the unlock syscall, then the context switch, then the caller's own result. -/
theorem unlockMutex_handsOver_iff (ho : OwnedBy k i m o) (hfree : k.mutexLock.owner = none)
    (hcaller : o = (h, k.current h)) {capIdx : Word}
    (hgrant : grantedMutex k h capIdx unlockRight = .ok (some (i, m))) :
    HandsOver k h i m (unlockMutex P h t capIdx k) ↔ Resolves k i m := by
  have hgrant' : grantedMutex { k with mutexLock := ⟨some h, 1#32⟩ } h capIdx unlockRight =
      .ok (some (i, m)) := hgrant
  have howner : m.ownerTaskIdx = some (BitVec.ofNat 8 (k.current h).val) := by
    rw [ho.owner, hcaller]
    rfl
  unfold unlockMutex
  simp only [lockMutexes_eq h hfree, hgrant', if_pos howner]
  unfold releaseMutex
  have hsame : highestWaiter { k with mutexLock := ⟨some h, 1#32⟩ } m.waitersBitmap =
      highestWaiter k m.waitersBitmap := rfl
  rw [hsame]
  cases hscan : highestWaiter k m.waitersBitmap with
  | error e =>
    refine iff_of_false (not_handsOver_error e) ?_
    rintro ⟨w?, hw?, -⟩
    rw [hscan] at hw?
    cases hw?
  | ok w? =>
    cases w? with
    | none =>
      refine iff_of_true (ho.handsOver_none hscan ?_) (resolves_none hscan)
      show (switchTask P h t.cycles false t.userSp _).2.mutexes i = _
      rw [(switchTask_same P h t.cycles false t.userSp _).2.2]
      exact Function.update_self i _ _
    | some w =>
      rw [resolves_some_iff hscan]
      cases htcb : (k.scheds (waiterHart w)).taskTable w with
      | none =>
        have herr : handOff h i m w { k with mutexLock := ⟨some h, 1#32⟩ } = .error .unwrapNone := by
          simp only [handOff, htcb]
        simp only [herr]
        refine iff_of_false (not_handsOver_error _) fun hx => ?_
        have hnone : k.stateOf (waiterHart w) w = none := by
          simp [Kernel.stateOf, BitMapScheduler.stateAt, htcb]
        have hx' : k.stateOf (waiterHart w) w = _ := hx
        rw [hnone] at hx'
        cases hx'
      | some tcb =>
        obtain ⟨k2, hk2, hview, hmem, hmsip, hu⟩ :=
          handOff_spec (k := { k with mutexLock := ⟨some h, 1#32⟩ }) (h := h) (i := i) (m := m) htcb
        have hto : { m.handTo w with locked := m.locked } = m.handTo w := by
          rw [ho.locked]
          rfl
        rw [hto] at hview
        have hview2 : view k2 = ((view k).setMutex i (m.handTo w)).setState (waiterTask w) .ready :=
          hview
        have hu2 : Untouched k k2 := ⟨hu.pmp, hu.current, hu.savedSp⟩
        simp only [hk2]
        refine (ho.handsOver_some hscan (T := True) (fun _ => ?_) fun x hx hne => ?_).trans
          (iff_of_eq (and_true _))
        · exact iff_true_intro (handedTo_of_unlock ho hcaller htcb hview2 hmem hmsip hu2)
        · refine not_woken_of_not_runnable (h := h) (k := k2)
            (Or.inr (switchTask_resched P h t.cycles false t.userSp k2)) ?_
          have hxw : x ≠ waiterTask w := by
            rintro rfl
            exact hne rfl
          rw [hview2, View.state_setState, if_neg hxw]
          exact hx.not_runnable

end Unlock

/-! ## Termination -/

section Kill
variable {P : Platform} {k k2 : Kernel} {h : Hart} {t : Trap} {i : Fin 8} {m : KernelMutex}
  {o : TaskId} {w : Fin MAX_PARTITIONS}

theorem scan_terminated (k : Kernel) (o : TaskId) (b : Word) :
    highestWaiter (k.setState o.1 o.2 .terminated) b = highestWaiter k b :=
  highestWaiter_congr (by rw [view_setState]; rfl) b

/-- The owner is terminated and its mutexes are recovered; the rest of the handler is to come. -/
structure Recovered (k : Kernel) (o : TaskId) (i : Fin 8) (m : KernelMutex) (k2 : Kernel) :
    Prop where
  mem : k2.mem = k.mem
  msip : k2.msip = k.msip
  untouched : Untouched k k2
  isSome : ∀ x, ((view k2).state x).isSome = ((view k).state x).isSome
  freed : highestWaiter k m.waitersBitmap = .ok none → k2.mutexes i = some m.free
  handed : ∀ w, highestWaiter k m.waitersBitmap = .ok (some w) → k2.mutexes i = some (m.handTo w)
  ready : ∀ w, highestWaiter k m.waitersBitmap = .ok (some w) → WaitsFor k (waiterTask w) i →
    (view k2).state (waiterTask w) = some .ready
  left : ∀ x, WaitsFor k x i → x ≠ waiterTask x.2 → ¬ Runnable ((view k2).state x)

theorem OwnedBy.recovered (ho : OwnedBy k i m o)
    (hok : recoverMutexes h o.2 (k.setState o.1 o.2 .terminated) = .ok k2) :
    Recovered k o i m k2 := by
  have hr := recovers_of_ok hok
  have hset : Untouched k (k.setState o.1 o.2 .terminated) := .setState ..
  have hstate : ∀ x, (view (k.setState o.1 o.2 .terminated)).state x =
      if x = o then ((view k).state o).map (fun _ => .terminated) else (view k).state x := by
    intro x
    rw [view_setState, View.state_setState]
  refine ⟨hr.mem, hr.msip, hset.trans (recoverMutexes_untouched hok), fun x => ?_, fun hscan => ?_,
    fun w hscan => ?_, fun w hscan hx => ?_, fun x hx hne => ?_⟩
  · have hterm : ((view (k.setState o.1 o.2 .terminated)).state x).isSome =
        ((view k).state x).isSome := by
      rw [view_setState]
      exact View.isSome_setState _ _ _ _
    rcases hr.state x with he | ⟨-, he⟩
    · rw [he, hterm]
    · rw [he, Option.isSome_map, hterm]
  · exact hr.freed i (List.mem_finRange i) m ho.mutex ho.owner ((scan_terminated k o _).trans hscan)
  · exact (hr.handed i (List.mem_finRange i) m w ho.mutex ho.owner
      ((scan_terminated k o _).trans hscan)).1
  · rw [(hr.handed i (List.mem_finRange i) m w ho.mutex ho.owner
      ((scan_terminated k o _).trans hscan)).2, hstate]
    have hw : (view k).state (waiterTask w) = some (.blockedOnMutex (BitVec.ofNat 8 i.val)) := hx
    split
    · rename_i hself
      rw [← hself, hw]
      rfl
    · rw [hw]
      rfl
  · rcases hr.state x with he | ⟨hxw, -⟩
    · rw [he, hstate]
      split
      · rename_i hxo
        have hw : (view k).state x = some (.blockedOnMutex (BitVec.ofNat 8 i.val)) := hx
        rw [← hxo, hw]
        rintro (hrun | hrun) <;> cases hrun
      · exact hx.not_runnable
    · exact absurd hxw.symm hne

theorem scans_terminated (k : Kernel) (o : TaskId) :
    Scans (k.setState o.1 o.2 .terminated) o.2 ↔ Scans k o.2 := by
  unfold Scans
  simp only [scan_terminated]
  rfl

/-- When the recovery of the mutexes of a terminated task does not panic. -/
theorem recoverTerminated_ok_iff (hlock : (k.mutexLock.lock h).isSome) :
    (∃ k2, recoverMutexes h o.2 (k.setState o.1 o.2 .terminated) = .ok k2) ↔ Scans k o.2 :=
  (recoverMutexes_ok_iff (k := k.setState o.1 o.2 .terminated) hlock).trans (scans_terminated k o)

theorem lock_of_free {l : Spinlock} (hfree : l.owner = none) (h : Hart) : (l.lock h).isSome := by
  simp [Spinlock.lock, hfree]

/-- The mutex and the state of the waiter are right on every path; the rest is to be told. -/
theorem handedTo_iff {x : TaskId} {k' : Kernel} {sp : Option Word}
    (hmutex : k'.mutexes i = some (m.handTo x.2)) (hwoken : Woken k' x) (hsp : savedSpOf k' x = sp) :
    HandedTo h i m x k' ↔ ReadsZero k' sp ∧ (x.1 = h ∨ k'.msip x.1 = true) := by
  constructor
  · intro hto
    exact ⟨hsp ▸ hto.a0, or_iff_not_imp_left.mpr hto.signalled⟩
  · rintro ⟨hzero, hmsip⟩
    exact ⟨hmutex, hwoken, hsp ▸ hzero, or_iff_not_imp_left.mp hmsip⟩

/-- What remains of a kill without a context switch. -/
theorem Recovered.handsOver_iff (hr : Recovered k o i m k2) (ho : OwnedBy k i m o) (k' : Kernel)
    (sp : Word) (hview : view k' = view k2) (hsp : ∀ x, savedSpOf k' x = savedSpOf k x) {w?}
    (hscan : highestWaiter k m.waitersBitmap = .ok w?) :
    HandsOver k h i m (.ok (sp, k')) ↔ Resolves k i m ∧ ∀ w, w? = some w →
      ReadsZero k' (savedSpOf k (waiterTask w)) ∧
        ((waiterTask w).1 = h ∨ k'.msip (waiterTask w).1 = true) := by
  have hmutexes : k'.mutexes = k2.mutexes := congrArg View.mutexes hview
  cases w? with
  | none =>
    refine iff_of_true (ho.handsOver_none hscan ?_) ⟨resolves_none hscan, fun w hw => by cases hw⟩
    rw [hmutexes]
    exact hr.freed hscan
  | some w =>
    simp only [resolves_some_iff hscan, Option.some.injEq, forall_eq']
    refine ho.handsOver_some hscan (fun hx => ?_) fun x hx hne => ?_
    · refine handedTo_iff ?_ (woken_of_ready (h := h) (Or.inl hview) (hr.ready w hscan hx)) (hsp _)
      rw [hmutexes]
      exact hr.handed w hscan
    · exact not_woken_of_not_runnable (h := h) (Or.inl hview) (hr.left x hx hne)

/-- What remains of a kill of the running task: the context switch. -/
theorem Recovered.switch_handsOver_iff (hr : Recovered k o i m k2) (ho : OwnedBy k i m o)
    (hcaller : o = (h, k.current h)) (k3 : Kernel) (hview : view k3 = view k2) (hu : Untouched k2 k3)
    (hmsip : k3.msip = k2.msip) {w?} (hscan : highestWaiter k m.waitersBitmap = .ok w?) :
    HandsOver k h i m (.ok (switchTask P h t.cycles false t.userSp k3)) ↔ Resolves k i m ∧
      ∀ w, w? = some w →
        ReadsZero k3 (if waiterTask w = o then some t.userSp else savedSpOf k (waiterTask w)) ∧
          ((waiterTask w).1 = h ∨ k.msip (waiterTask w).1 = true) := by
  obtain ⟨hmem', hmsip', hmutex'⟩ := switchTask_same P h t.cycles false t.userSp k3
  have hu3 : Untouched k k3 := hr.untouched.trans hu
  have hrunning : ((view k3).state ((view k3).running h)).isSome := by
    have hrun : (view k3).running h = (view k).running h :=
      congrArg (Prod.mk h) (congrFun hu3.current h)
    rw [hrun, hview, hr.isSome]
    exact ho.running hcaller
  have hresched := switchTask_resched P h t.cycles false t.userSp k3
  have hmutexes : k3.mutexes = k2.mutexes := congrArg View.mutexes hview
  rw [show switchTask P h t.cycles false t.userSp k3 = ((switchTask P h t.cycles false t.userSp k3).1,
    (switchTask P h t.cycles false t.userSp k3).2) from rfl]
  cases w? with
  | none =>
    refine iff_of_true (ho.handsOver_none hscan ?_) ⟨resolves_none hscan, fun w hw => by cases hw⟩
    rw [hmutex', hmutexes]
    exact hr.freed hscan
  | some w =>
    simp only [resolves_some_iff hscan, Option.some.injEq, forall_eq']
    refine ho.handsOver_some hscan (fun hx => ?_) fun x hx hne => ?_
    · have hready : (view k3).state (waiterTask w) = some .ready := by
        rw [hview]
        exact hr.ready w hscan hx
      have hsaved : savedSpOf (switchTask P h t.cycles false t.userSp k3).2 (waiterTask w) =
          if waiterTask w = o then some t.userSp else savedSpOf k (waiterTask w) := by
        have hself : o = (h, k3.current h) := by rw [hcaller, hu3.current]
        split
        · rename_i hwo
          rw [hwo, hself]
          refine switchTask_saves hrunning ⟨k3.current h, ?_⟩
          rw [← hself, ← hwo]
          exact hready
        · rename_i hwo
          have honly := switchTask_callerOnly P h t.cycles false t.userSp k3
          rw [honly.savedSp _ fun he => hwo (he.trans hself.symm), hu3.savedSp]
      have hiff := handedTo_iff (h := h) (m := m) (i := i) ?_ (woken_of_ready (Or.inr hresched) hready)
        hsaved
      · rw [hmsip', hmsip, hr.msip] at hiff
        refine hiff.trans (and_congr_left fun _ => ?_)
        unfold ReadsZero Kernel.readFrame
        rw [hmem']
      · rw [hmutex', hmutexes]
        exact hr.handed w hscan
    · refine not_woken_of_not_runnable (Or.inr hresched) ?_
      rw [hview]
      exact hr.left x hx hne

theorem terminateRunning_handsOver_iff (ho : OwnedBy k i m o) (hfree : k.mutexLock.owner = none)
    (hcaller : o = (h, k.current h)) :
    HandsOver k h i m (terminateRunning P h t k) ↔ Path.fault.Agrees k h t i m o := by
  obtain ⟨tcb, htcb⟩ := Option.isSome_iff_exists.mp ho.registered
  have htcb' : (k.scheds h).taskTable (k.current h) = some tcb := by
    rw [hcaller] at htcb
    exact htcb
  have hiff := recoverTerminated_ok_iff (o := o) (lock_of_free hfree h)
  unfold terminateRunning
  simp only [htcb']
  rw [show recoverMutexes h (k.current h) (k.setState h (k.current h) .terminated) =
    recoverMutexes h o.2 (k.setState o.1 o.2 .terminated) by rw [hcaller]]
  cases hrec : recoverMutexes h o.2 (k.setState o.1 o.2 .terminated) with
  | error e =>
    refine iff_of_false (not_handsOver_error e) fun hag => ?_
    obtain ⟨k2, hk2⟩ := hiff.mpr (hag.2.1 (by simp))
    rw [hrec] at hk2
    cases hk2
  | ok k2 =>
    have hscans : Scans k o.2 := hiff.mp ⟨k2, hrec⟩
    obtain ⟨w?, hscan⟩ := hscans i m ho.mutex ho.owner
    have hr := ho.recovered hrec
    refine (hr.switch_handsOver_iff ho hcaller k2 rfl (.of_eq rfl rfl) rfl hscan).trans ?_
    have hzero : ∀ sp, ReadsZero k2 sp ↔ ReadsZero k sp := fun sp => by
      unfold ReadsZero Kernel.readFrame
      rw [hr.mem]
    simp only [hzero, Path.Agrees, Path.Told, hscan, Except.ok.injEq]
    exact and_congr_right fun _ => ⟨fun hw => ⟨fun _ => hscans, hw⟩, fun hw => hw.2⟩

theorem terminateTask_handsOver_iff (ho : OwnedBy k i m o) (hfree : k.mutexLock.owner = none)
    {targetPrio : Word} (hfind : findTask k targetPrio = some o) :
    HandsOver k h i m (terminateTask P h t targetPrio k) ↔
      Resolves k i m ∧ Scans k o.2 ∧ ∀ w, highestWaiter k m.waitersBitmap = .ok (some w) →
        ReadsZero (k.writeFrame t.userSp 6 0#32) (if o = (h, k.current h) ∧ waiterTask w = o then
          some t.userSp else savedSpOf k (waiterTask w)) ∧
        ((waiterTask w).1 = h ∨ o.1 ≠ h ∨ k.msip (waiterTask w).1 = true) := by
  have hiff := recoverTerminated_ok_iff (o := o) (lock_of_free hfree h)
  unfold terminateTask
  simp only [hfind]
  cases hrec : recoverMutexes h o.2 (k.setState o.1 o.2 .terminated) with
  | error e =>
    refine iff_of_false (not_handsOver_error e) fun hag => ?_
    obtain ⟨k2, hk2⟩ := hiff.mpr hag.2.1
    rw [hrec] at hk2
    cases hk2
  | ok k2 =>
    have hscans : Scans k o.2 := hiff.mp ⟨k2, hrec⟩
    obtain ⟨w?, hscan⟩ := hscans i m ho.mutex ho.owner
    have hr := ho.recovered hrec
    have hzero : ∀ sp, ReadsZero (k2.writeFrame t.userSp 6 0#32) sp ↔
        ReadsZero (k.writeFrame t.userSp 6 0#32) sp := fun sp => by
      unfold ReadsZero Kernel.readFrame Kernel.writeFrame Kernel.setMem
      rw [hr.mem]
    have hsp : ∀ x, savedSpOf (k2.writeFrame t.userSp 6 0#32) x = savedSpOf k x := fun x =>
      hr.untouched.savedSp x
    have hcur : k2.current h = k.current h := congrFun hr.untouched.current h
    simp only [hscan, Except.ok.injEq, hscans, true_and]
    by_cases hne : o.1 ≠ h
    · -- the hart of `o` is signalled, and it is the waiter's if that is not the acting one
      have hself : ¬ o = (h, k.current h) := fun he => hne (congrArg Prod.fst he)
      simp only [if_pos hne, hself, false_and, if_false]
      have hkey := hr.handsOver_iff (h := h) ho ((k2.writeFrame t.userSp 6 0#32).setMsip o.1 true)
        t.userSp rfl hsp hscan
      refine hkey.trans (and_congr_right fun _ => forall₂_congr fun w _ => and_congr (hzero _) ?_)
      refine iff_of_true ?_ (Or.inr (Or.inl hne))
      by_cases hh : (waiterTask w).1 = h
      · exact Or.inl hh
      · have hhart : (waiterTask w).1 = o.1 := by
          have htwo : ∀ a b c : Hart, a ≠ c → b ≠ c → a = b := by decide
          exact htwo _ _ _ hh hne
        refine Or.inr ?_
        rw [hhart]
        exact Function.update_self _ _ _
    · have hoh : o.1 = h := not_not.mp hne
      simp only [hoh, ne_eq, not_true_eq_false, false_or]
      by_cases hoc : o.2 = k.current h
      · have hself : o = (h, k.current h) := Prod.ext hoh hoc
        have hself2 : o.2 = (k2.writeFrame t.userSp 6 0#32).current h := hoc.trans hcur.symm
        rw [if_pos hself2]
        simp only [← hself, true_and]
        refine (hr.switch_handsOver_iff ho hself (k2.writeFrame t.userSp 6 0#32) rfl
          (.of_eq rfl rfl) rfl hscan).trans (and_congr_right fun _ => ?_)
        exact forall₂_congr fun w _ => and_congr_left fun _ => hzero _
      · have hself : ¬ o = (h, k.current h) := fun he => hoc (congrArg Prod.snd he)
        have hself2 : ¬ o.2 = (k2.writeFrame t.userSp 6 0#32).current h := fun he =>
          hoc (he.trans hcur)
        rw [if_neg hself2]
        simp only [hself, false_and, if_false]
        refine (hr.handsOver_iff (h := h) ho (k2.writeFrame t.userSp 6 0#32) t.userSp rfl hsp
          hscan).trans (and_congr_right fun _ => forall₂_congr fun w _ => and_congr (hzero _) ?_)
        rw [show (k2.writeFrame t.userSp 6 0#32).msip = k.msip from hr.msip]

end Kill

/-! ## The paths of the handler -/

section Paths
variable {P : Platform} {k : Kernel} {h : Hart} {t : Trap} {i : Fin 8} {m : KernelMutex} {o : TaskId}

theorem trapHandler_of_contained (P : Platform) (hc : contained t.mcause = true)
    (hcsr : ¬ (t.mcause = 2#32 ∧ readsCounter (k.mem.readWord (k.readFrame t.userSp 28)) = true)) :
    trapHandler P h t k = containFault P h t k := by
  have hne : ∀ cause, contained cause = false → t.mcause ≠ cause := by
    rintro cause hno rfl
    rw [hno] at hc
    cases hc
  rw [trapHandler, if_neg (hne _ (by decide)), if_neg (hne _ (by decide)), if_neg (hne _ (by decide))]
  simp only [exception, if_neg hcsr, hc, if_true]

/-- For every kernel in which task `o` owns mutex `i` and the waiter bits are the tasks that wait for
it: each path gives the mutex up as it should if and only if the scan resolves the waiter and, on the
two paths that neither write `a0` nor signal, the waiter has been told already. -/
theorem handoff_paths_iff (P : Platform) (p : Path) (k : Kernel) (h : Hart) (t : Trap) (i : Fin 8)
    (m : KernelMutex) (o : TaskId) (ho : OwnedBy k i m o)
    (hlock : (k.schedLock.lock h).isSome) (hfree : k.mutexLock.owner = none)
    (htaken : p.Taken k h t i m o) :
    HandsOver k h i m (trapHandler P h t k) ↔ p.Agrees k h t i m o := by
  obtain ⟨l, hl⟩ := Option.isSome_iff_exists.mp hlock
  cases p with
  | unlock =>
    obtain ⟨hecall, hid, hcaller, hgrant⟩ := htaken
    rw [trapHandler_of_ecall P hecall]
    unfold ecall sysUnlock
    simp (disch := omega) only [hid, readFrame_writePc]
    refine (handsOver_withSchedLock (k.writeFrame t.userSp 28 _) hl).trans ?_
    refine (unlockMutex_handsOver_iff
      (k := { k.writeFrame t.userSp 28 (k.readFrame t.userSp 28 + 4#32) with schedLock := l })
      (o := o) ⟨ho.mutex, ho.locked, ho.owner, ho.registered, ho.waiters⟩ hfree hcaller hgrant).trans ?_
    exact ⟨fun hres => ⟨hres, fun hne => absurd rfl hne, fun _ _ => trivial⟩, fun hag => hag.1⟩
  | terminate =>
    obtain ⟨hecall, hid, hfind⟩ := htaken
    rw [trapHandler_of_ecall P hecall]
    unfold ecall sysTerminate
    simp (disch := omega) only [hid, readFrame_writePc]
    refine (handsOver_withSchedLock (k.writeFrame t.userSp 28 _) hl).trans ?_
    refine (terminateTask_handsOver_iff
      (k := { k.writeFrame t.userSp 28 (k.readFrame t.userSp 28 + 4#32) with schedLock := l })
      (o := o) ⟨ho.mutex, ho.locked, ho.owner, ho.registered, ho.waiters⟩ hfree hfind).trans ?_
    exact and_congr_right fun _ => and_congr_left fun _ => ⟨fun hs _ => hs, fun hs => hs (by simp)⟩
  | fault =>
    obtain ⟨hc, hcsr, hcaller⟩ := htaken
    rw [trapHandler_of_contained P hc hcsr]
    unfold containFault
    refine (handsOver_withSchedLock (k.logTelemetry _) hl).trans ?_
    exact terminateRunning_handsOver_iff (k := { k.logTelemetry _ with schedLock := l })
      ⟨ho.mutex, ho.locked, ho.owner, ho.registered, ho.waiters⟩ hfree hcaller

end Paths

/-- Task A's mutex, for which Task C waits. -/
def contendedMutex : KernelMutex := ⟨true, some 1, 8⟩

def unlockCall (s : System) : Kernel := s.kernel.setMem (syscallFrame 0x3FC82400 4 0 0 0)

/-- Task A unlocks the mutex that Task C waits for. -/
theorem handoff_paths_iff_unlock :
    ∃ s, Run (Step packedPlatform) bootSystem contended s ∧
      OwnedBy (unlockCall s) 0 contendedMutex taskA ∧
      HandsOver (unlockCall s) 0 0 contendedMutex
        (trapHandler packedPlatform 0 ⟨ECALL_UMODE, 0x3FC82400, 0⟩ (unlockCall s)) := by
  obtain ⟨s, hrun, heval⟩ := run_of_eval packedPlatform bootSystem contended
    (fun s => decide (OwnedBy (unlockCall s) 0 contendedMutex taskA ∧
      (s.kernel.schedLock.lock 0).isSome ∧ s.kernel.mutexLock.owner = none ∧
      s.kernel.current 0 = 1 ∧ ((unlockCall s).readFrame 0x3FC82400 13).toNat = 4 ∧
      WaitsFor (unlockCall s) taskC 0 ∧
      (grantedMutex (unlockCall s) 0 ((unlockCall s).readFrame 0x3FC82400 6) unlockRight).toOption =
        some (some (0, contendedMutex)) ∧
      (highestWaiter (unlockCall s) 8).toOption = some (some 3))) true (by decide +kernel)
  obtain ⟨howned, hlock, hfree, hcur, hid, hwaits, hgrant, hscan⟩ := of_decide_eq_true heval
  have hself : taskA = (0, (unlockCall s).current 0) := by
    rw [show (unlockCall s).current 0 = 1 from hcur]
    rfl
  have hres : Resolves (unlockCall s) 0 contendedMutex :=
    (resolves_some_iff (w := 3) (eq_ok_of_toOption hscan)).mpr hwaits
  have htaken : Path.unlock.Taken (unlockCall s) 0 ⟨ECALL_UMODE, 0x3FC82400, 0⟩ 0 contendedMutex taskA :=
    ⟨rfl, hid, hself, eq_ok_of_toOption hgrant⟩
  have hiff := handoff_paths_iff packedPlatform .unlock (unlockCall s) 0 ⟨ECALL_UMODE, 0x3FC82400, 0⟩ 0
    contendedMutex taskA howned hlock hfree htaken
  exact ⟨s, hrun, howned, hiff.mpr ⟨hres, fun hne => absurd rfl hne, fun _ _ => trivial⟩⟩

/-- Task A faults instead: Task C gets the mutex, but core 1 is not signalled. -/
theorem fault_does_not_signal :
    (∃ s sp k', Run (Step packedPlatform) bootSystem contended s ∧
      OwnedBy s.kernel 0 contendedMutex taskA ∧
      trapHandler packedPlatform 0 ⟨5, 0x3FC82400, 0⟩ s.kernel = .ok (sp, k') ∧
      k'.mutexes 0 = some ⟨true, some 3, 0⟩ ∧ k'.stateOf 1 3 = some .ready ∧ k'.msip 1 = false) ∧
    ¬ ∀ (P : Platform) (p : Path) (k : Kernel) (h : Hart) (t : Trap) (i : Fin 8) (m : KernelMutex)
      (o : TaskId), OwnedBy k i m o → (k.schedLock.lock h).isSome → k.mutexLock.owner = none →
      p.Taken k h t i m o → HandsOver k h i m (trapHandler P h t k) := by
  obtain ⟨s, hrun, heval⟩ := run_of_eval packedPlatform bootSystem contended
    (fun s => decide (OwnedBy s.kernel 0 contendedMutex taskA ∧
      (s.kernel.schedLock.lock 0).isSome ∧ s.kernel.mutexLock.owner = none ∧
      s.kernel.current 0 = 1 ∧ (∀ h w, WaitsFor s.kernel (h, w) 0 ↔ (h, w) = taskC) ∧
      ((trapHandler packedPlatform 0 ⟨5, 0x3FC82400, 0⟩ s.kernel).toOption.map fun r =>
        (r.2.mutexes 0, r.2.stateOf 1 3, r.2.msip 1)) =
        some (some ⟨true, some 3, 0⟩, some .ready, false))) true (by decide +kernel)
  obtain ⟨howned, hlock, hfree, hcur, hwaits, hout⟩ := of_decide_eq_true heval
  obtain ⟨⟨sp, k'⟩, hret, hres⟩ := Option.map_eq_some_iff.mp hout
  simp only [Prod.mk.injEq] at hres
  obtain ⟨hmutex, hstate, hmsip⟩ := hres
  have hok := eq_ok_of_toOption hret
  refine ⟨⟨s, sp, k', hrun, howned, hok, hmutex, hstate, hmsip⟩, fun hall => ?_⟩
  have hself : taskA = (0, s.kernel.current 0) := by
    rw [hcur]
    rfl
  obtain ⟨sp', k'', hok', hgiven⟩ := hall packedPlatform .fault s.kernel 0 ⟨5, 0x3FC82400, 0⟩ 0
    contendedMutex taskA howned hlock hfree
    ⟨by decide, fun hno => absurd hno.1 (by decide), hself⟩
  obtain ⟨-, rfl⟩ := Prod.mk.inj (Except.ok.inj (hok.symm.trans hok'))
  obtain ⟨x, hx, -, hto⟩ := hgiven.2 ⟨taskC, (hwaits 1 3).mpr rfl⟩
  obtain rfl : x = taskC := (hwaits x.1 x.2).mp hx
  have hsig : k'.msip 1 = true := hto.signalled (by decide)
  rw [hmsip] at hsig
  cases hsig

end Cerberus.Mutex
