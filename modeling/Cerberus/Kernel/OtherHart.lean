import Cerberus.Kernel.Primitive

/-! # A slot of the other hart

A trap on one hart reads the task table of the other, but of a slot there whose task waits for nothing
it sees only what the registration put in. `trapHandler_change` says that such a trap gives the same
whether the slot's state, the running index and the PMP registers of the other hart are changed before it
or after it, unless the trap terminates that very task. -/
namespace Cerberus.Kernel
open Scheduler Sync Memory Transition Mutex
set_option autoImplicit false

/-- A change on `hart`: the state of `slot`, which may become the running one, and the PMP registers. -/
structure SlotChange where
  hart : Hart
  slot : Fin MAX_PARTITIONS
  state : TaskState
  enters : Bool
  pmp : PmpRegs → PmpRegs

namespace SlotChange
variable (c : SlotChange)

def sched (s : BitMapScheduler) : BitMapScheduler :=
  (if c.enters then s.enterSlot c.slot else s).setState c.slot c.state

def apply (k : Kernel) : Kernel :=
  (k.setSched c.hart (c.sched (k.scheds c.hart))).setPmp c.hart (c.pmp (k.pmp c.hart))

end SlotChange

/-- The state of a task that waits for no partner. -/
def Unwaiting (st : Option TaskState) : Prop :=
  ∀ e, st.bind (waitingReceiver e) = none ∧ st.bind (waitingSender e) = none

/-! ## Reads and writes -/

section Basic
variable {c : SlotChange} {k : Kernel} {h : Hart}

theorem change_scheds_ne (hne : h ≠ c.hart) : (c.apply k).scheds h = k.scheds h :=
  Function.update_of_ne hne _ _

theorem change_current_ne (hne : h ≠ c.hart) : (c.apply k).current h = k.current h := by
  rw [Kernel.current, change_scheds_ne hne, Kernel.current]

theorem change_pmp_ne (hne : h ≠ c.hart) : (c.apply k).pmp h = k.pmp h :=
  Function.update_of_ne hne _ _

/-- Every control block keeps all but its state. -/
theorem change_taskTable (x : TaskId) : ∃ f : TaskState → TaskState,
    ((c.apply k).scheds x.1).taskTable x.2 =
      ((k.scheds x.1).taskTable x.2).map fun tcb => { tcb with state := f tcb.state } := by
  obtain ⟨a, b⟩ := x
  have hsame : ∀ o : Option TaskControlBlock, o = o.map fun tcb => { tcb with state := id tcb.state } :=
    fun o => by cases o <;> rfl
  by_cases ha : a = c.hart
  · subst ha
    have hsched : (c.apply k).scheds c.hart = c.sched (k.scheds c.hart) := Function.update_self _ _ _
    rw [hsched, SlotChange.sched]
    have htable : (if c.enters then (k.scheds c.hart).enterSlot c.slot else k.scheds c.hart).taskTable =
        (k.scheds c.hart).taskTable := by
      split <;> rfl
    by_cases hb : b = c.slot
    · subst hb
      refine ⟨fun _ => c.state, ?_⟩
      simp only [BitMapScheduler.setState, Function.update_self, htable]
    · refine ⟨id, ?_⟩
      simp only [BitMapScheduler.setState, Function.update_of_ne hb, htable]
      exact hsame _
  · exact ⟨id, by rw [change_scheds_ne ha]; exact hsame _⟩

theorem setSched_comm {a b : Hart} (hne : a ≠ b) (s s' : BitMapScheduler) (k : Kernel) :
    (k.setSched a s).setSched b s' = (k.setSched b s').setSched a s := by
  simp only [Kernel.setSched, Function.update_comm hne]

theorem change_setSched (hne : h ≠ c.hart) (s : BitMapScheduler) :
    (c.apply k).setSched h s = c.apply (k.setSched h s) := by
  have hsched : (k.setSched h s).scheds c.hart = k.scheds c.hart := Function.update_of_ne hne.symm _ _
  simp only [SlotChange.apply, hsched]
  rw [setSched_comm hne]
  rfl

theorem change_setPmp (hne : h ≠ c.hart) (r : PmpRegs) : (c.apply k).setPmp h r = c.apply (k.setPmp h r) := by
  simp only [SlotChange.apply, Kernel.setPmp, Kernel.setSched, Function.update_of_ne hne.symm]
  rw [Function.update_comm hne]

/-- Changes of two slots of one table. -/
theorem setState_comm {i j : Fin MAX_PARTITIONS} (hij : j ≠ i) (st st' : TaskState) (s : BitMapScheduler) :
    (s.setState i st).setState j st' = (s.setState j st').setState i st := by
  simp only [BitMapScheduler.setState, Function.update_of_ne hij, Function.update_of_ne hij.symm]
  rw [Function.update_comm hij.symm]

theorem setSavedSp_comm {i j : Fin MAX_PARTITIONS} (hij : j ≠ i) (st : TaskState) (sp : Word)
    (s : BitMapScheduler) : (s.setState i st).setSavedSp j sp = (s.setSavedSp j sp).setState i st := by
  simp only [BitMapScheduler.setState, BitMapScheduler.setSavedSp, Function.update_of_ne hij,
    Function.update_of_ne hij.symm]
  rw [Function.update_comm hij.symm]

theorem sched_setState {j : Fin MAX_PARTITIONS} (hj : j ≠ c.slot) (st : TaskState) (s : BitMapScheduler) :
    (c.sched s).setState j st = c.sched (s.setState j st) := by
  rw [SlotChange.sched, SlotChange.sched, setState_comm hj]
  split <;> rfl

theorem sched_setSavedSp {j : Fin MAX_PARTITIONS} (hj : j ≠ c.slot) (sp : Word) (s : BitMapScheduler) :
    (c.sched s).setSavedSp j sp = c.sched (s.setSavedSp j sp) := by
  rw [SlotChange.sched, SlotChange.sched, setSavedSp_comm hj]
  split <;> rfl

theorem change_setState {x : TaskId} (hx : x ≠ (c.hart, c.slot)) (st : TaskState) :
    (c.apply k).setState x.1 x.2 st = c.apply (k.setState x.1 x.2 st) := by
  obtain ⟨a, b⟩ := x
  by_cases ha : a = c.hart
  · subst ha
    have hb : b ≠ c.slot := fun he => hx (by rw [he])
    simp only [Kernel.setState, SlotChange.apply, Kernel.setSched, Kernel.setPmp, Function.update_self,
      Function.update_idem, sched_setState hb]
  · rw [Kernel.setState, change_scheds_ne ha]
    exact change_setSched ha _

end Basic

/-! ## The pieces of a handler -/

/-- The kernel of an outcome, also that of a copy fault. -/
def mapKernel (f : Kernel → Kernel) : Outcome → Outcome
  | .ok (sp, k) => .ok (sp, f k)
  | .error (.copyFault cause k) => .error (.copyFault cause (f k))
  | .error e => .error e

/-- No mutex waiter is looked up in the slot. -/
def NoWaiterIn (c : SlotChange) (k : Kernel) : Prop :=
  ∀ i m, k.mutexes i = some m → ∀ w, BitSet.Mem m.waitersBitmap w → waiterTask w ≠ (c.hart, c.slot)

section Pieces
variable {P : Platform} {c : SlotChange} {k : Kernel} {h : Hart} {t : Trap}

theorem switchTask_change (hne : h ≠ c.hart) (cycles : Word) (isTick : Bool) (sp : Word) :
    switchTask P h cycles isTick sp (c.apply k) =
      ((switchTask P h cycles isTick sp k).1, c.apply (switchTask P h cycles isTick sp k).2) := by
  unfold switchTask
  rw [change_scheds_ne hne, change_current_ne hne]
  generalize (k.scheds h).schedule isTick = r
  obtain ⟨s, out⟩ := r
  cases out with
  | none => exact congrArg (Prod.mk sp) (change_setSched hne s)
  | some p =>
    obtain ⟨oldIdx, newSp⟩ := p
    have hlog : ∀ e, (c.apply k).logTelemetry e = c.apply (k.logTelemetry e) := fun _ => rfl
    simp only [hlog, change_setSched hne, change_pmp_ne hne]
    cases s.taskTable s.currentPartitionIdx with
    | none => rfl
    | some tcb => simp only [change_setPmp hne]

theorem withSchedLock_change {body body' : Kernel → Outcome}
    (hbody : ∀ l, k.schedLock.lock h = some l → body' (c.apply { k with schedLock := l }) =
      mapKernel c.apply (body { k with schedLock := l })) :
    withSchedLock h (c.apply k) body' = mapKernel c.apply (withSchedLock h k body) := by
  unfold withSchedLock
  have hlock : (c.apply k).schedLock = k.schedLock := rfl
  rw [hlock]
  cases hl : k.schedLock.lock h with
  | none => rfl
  | some l =>
    have hset : ({ c.apply k with schedLock := l } : Kernel) = c.apply { k with schedLock := l } := rfl
    dsimp only
    rw [hset, hbody l hl]
    cases body { k with schedLock := l } with
    | ok r => rfl
    | error e => cases e <;> rfl

theorem blockCaller_change (hne : h ≠ c.hart) (st : TaskState) (k : Kernel) :
    blockCaller P h t st (c.apply k) = mapKernel c.apply (blockCaller P h t st k) := by
  have hx : ((h, k.current h) : TaskId) ≠ (c.hart, c.slot) := fun he => hne (congrArg Prod.fst he)
  unfold blockCaller
  rw [change_scheds_ne hne, change_current_ne hne]
  cases (k.scheds h).taskTable (k.current h) with
  | none => rfl
  | some tcb =>
    have hset : (c.apply k).setState h (k.current h) st = c.apply (k.setState h (k.current h) st) :=
      change_setState hx st
    simp only [hset, switchTask_change hne]
    rfl

theorem finishLock_change (hne : h ≠ c.hart) {runningIdx : Fin MAX_PARTITIONS} (r : Word × Kernel) :
    finishLock h t runningIdx (r.1, c.apply r.2) = mapKernel c.apply (finishLock h t runningIdx r) := by
  unfold finishLock
  dsimp only
  rw [change_scheds_ne hne]
  cases (r.2.scheds h).taskTable runningIdx with
  | none => rfl
  | some tcb =>
    dsimp only
    split <;> rfl

theorem lockMutexes_change : lockMutexes h (c.apply k) = (lockMutexes h k).map c.apply := by
  unfold lockMutexes
  have hlock : (c.apply k).mutexLock = k.mutexLock := rfl
  rw [hlock]
  cases k.mutexLock.lock h <;> rfl

theorem granted_change (hne : h ≠ c.hart) (capIdx : Word) (right : Capability → Option Byte) :
    granted (c.apply k) h capIdx right = granted k h capIdx right := by
  unfold granted
  rw [change_scheds_ne hne, change_current_ne hne]

theorem grantedMutex_change (hne : h ≠ c.hart) (capIdx : Word) (right : Capability → Option Byte) :
    grantedMutex (c.apply k) h capIdx right = grantedMutex k h capIdx right := by
  unfold grantedMutex
  rw [granted_change hne]
  rfl

theorem mapKernel_error {α : Type} {r : Except Stop α} (hr : NoCopyFault r) {e : Stop} (he : r = .error e)
    (f : Kernel → Kernel) : (.error e : Outcome) = mapKernel f (.error e) := by
  cases e with
  | copyFault cause kf => exact absurd he (hr cause kf)
  | _ => rfl

theorem change_static : (view (c.apply k)).static = (view k).static := by
  funext x
  obtain ⟨f, hf⟩ := change_taskTable (c := c) (k := k) x
  show statics _ _ = statics _ _
  rw [statics, statics, hf, Option.map_map]
  rfl

theorem lockMutex_change (hne : h ≠ c.hart) (capIdx : Word) (k : Kernel) :
    lockMutex P h t capIdx (c.apply k) = mapKernel c.apply (lockMutex P h t capIdx k) := by
  have hx : ((h, k.current h) : TaskId) ≠ (c.hart, c.slot) := fun he => hne (congrArg Prod.fst he)
  unfold lockMutex
  rw [lockMutexes_change, change_current_ne hne]
  rcases lockMutexes_cases h k with hl | ⟨l, hl⟩
  · rw [hl]
    rfl
  rw [hl]
  have hx' : ((h, ({ k with mutexLock := l } : Kernel).current h) : TaskId) ≠ (c.hart, c.slot) := hx
  have hcur : k.current h = ({ k with mutexLock := l } : Kernel).current h := rfl
  rw [hcur]
  generalize { k with mutexLock := l } = k1 at hx'
  simp only [Except.map, grantedMutex_change hne]
  split
  · exact mapKernel_error (grantedMutex_noCopyFault _ _ _ _) ‹_› _
  · rfl
  · rename_i i m _
    split
    · exact finishLock_change (c := c) hne (t.userSp, unlockMutexes (k1.setMutex i
          { m with locked := true, ownerTaskIdx := some (BitVec.ofNat 8 (k1.current h).val) }))
    · have hset : (c.apply k1).setState h (k1.current h) (.blockedOnMutex (BitVec.ofNat 8 i.val)) =
          c.apply (k1.setState h (k1.current h) (.blockedOnMutex (BitVec.ofNat 8 i.val))) :=
        change_setState hx' _
      rw [hset]
      have hrest : ∀ (u : Kernel) m, unlockMutexes ((c.apply u).setMutex i m) =
        c.apply (unlockMutexes (u.setMutex i m)) := fun _ _ => rfl
      rw [hrest, switchTask_change hne]
      exact finishLock_change hne _

/-! ### Hand-over and recovery -/

theorem handOff_change (hwait : NoWaiterIn c k) {i : Fin 8} {m : KernelMutex} (hm : k.mutexes i = some m)
    {w : Fin MAX_PARTITIONS} (hw : BitSet.Mem m.waitersBitmap w) :
    handOff h i m w (c.apply k) = (handOff h i m w k).map c.apply := by
  have hx : waiterTask w ≠ (c.hart, c.slot) := hwait i m hm w hw
  obtain ⟨f, hf⟩ := change_taskTable (c := c) (k := k) (waiterTask w)
  have hf' : ((c.apply k).scheds (waiterHart w)).taskTable w =
      ((k.scheds (waiterHart w)).taskTable w).map fun tcb => { tcb with state := f tcb.state } := hf
  unfold handOff
  rw [hf']
  cases (k.scheds (waiterHart w)).taskTable w with
  | none => rfl
  | some tcb =>
    have hmutex : ∀ m', (c.apply k).setMutex i m' = c.apply (k.setMutex i m') := fun _ => rfl
    have hset : ∀ u : Kernel, (c.apply u).setState (waiterHart w) w .ready =
        c.apply (u.setState (waiterHart w) w .ready) := fun _ => change_setState hx _
    simp only [Option.map_some, hmutex, hset, Except.map]
    split <;> rfl

theorem releaseMutex_change (hwait : NoWaiterIn c k) {i : Fin 8} {m : KernelMutex}
    (hm : k.mutexes i = some m) : releaseMutex h i m (c.apply k) = (releaseMutex h i m k).map c.apply := by
  unfold releaseMutex
  rw [highestWaiter_congr change_static]
  split
  · rfl
  · rfl
  · exact handOff_change hwait hm (mem_of_highestWaiter ‹_›)

theorem unlockMutex_change (hne : h ≠ c.hart) (capIdx : Word) {k : Kernel} (hwait : NoWaiterIn c k) :
    unlockMutex P h t capIdx (c.apply k) = mapKernel c.apply (unlockMutex P h t capIdx k) := by
  unfold unlockMutex
  rw [lockMutexes_change, change_current_ne hne]
  rcases lockMutexes_cases h k with hl | ⟨l, hl⟩
  · rw [hl]
    rfl
  rw [hl]
  have hwait' : NoWaiterIn c { k with mutexLock := l } := hwait
  generalize { k with mutexLock := l } = k1 at hwait'
  simp only [Except.map, grantedMutex_change hne]
  split
  · exact mapKernel_error (grantedMutex_noCopyFault _ _ _ _) ‹_› _
  · rfl
  · rename_i i m hgranted
    have hm : k1.mutexes i = some m := (mutexes_of_grantedMutex hgranted).1
    split
    · rw [releaseMutex_change hwait' hm]
      cases hr : releaseMutex h i m k1 with
      | error e => exact mapKernel_error (releaseMutex_noCopyFault _ _ _ _) hr _
      | ok k2 =>
        simp only [Except.map, switchTask_change hne]
        rfl
    · rfl

theorem recoverMutex_change (target : Fin MAX_PARTITIONS) (i : Fin 8) (hwait : NoWaiterIn c k) :
    recoverMutex target (c.apply k) i = (recoverMutex target k i).map c.apply := by
  unfold recoverMutex
  have hmutexes : (c.apply k).mutexes = k.mutexes := rfl
  rw [hmutexes]
  cases hm : k.mutexes i with
  | none => rfl
  | some m =>
    dsimp only
    rw [highestWaiter_congr change_static]
    split
    · split
      · rfl
      · rfl
      · rename_i w hw
        have hx : waiterTask w ≠ (c.hart, c.slot) := hwait i m hm w (mem_of_highestWaiter hw)
        have hset : ∀ u : Kernel, (c.apply u).setState (waiterHart w) w .ready =
          c.apply (u.setState (waiterHart w) w .ready) := fun _ => change_setState hx _
        have hmutex : ∀ m', (c.apply k).setMutex i m' = c.apply (k.setMutex i m') := fun _ => rfl
        rw [hmutex, hset]
        rfl
    · rfl

theorem NoWaiterIn.of_adds {k' : Kernel} (hwait : NoWaiterIn c k) (hadds : Adds noBits (view k) (view k')) :
    NoWaiterIn c k' := by
  intro i m' hm' w hw
  obtain ⟨m, hm, hbits⟩ := hadds.bits i m' hm'
  exact hwait i m hm w ((hbits w hw).resolve_right id)

theorem NoWaiterIn.recoverMutex {target : Fin MAX_PARTITIONS} {i : Fin 8} {k' : Kernel}
    (hwait : NoWaiterIn c k) (hok : Kernel.recoverMutex target k i = .ok k') : NoWaiterIn c k' := by
  rcases recoverMutex_cases target k i with
    ⟨-, hsame⟩ | ⟨m, hm, -, ⟨e, -, herr⟩ | ⟨-, hfree⟩ | ⟨w, -, hto⟩⟩
  · obtain rfl := Except.ok.inj (hsame.symm.trans hok)
    exact hwait
  · rw [herr] at hok
    cases hok
  · obtain rfl := Except.ok.inj (hfree.symm.trans hok)
    exact hwait.of_adds (.setMutex hm fun w hw => Or.inl hw)
  · obtain rfl := Except.ok.inj (hto.symm.trans hok)
    refine hwait.of_adds ?_
    rw [view_setState]
    exact (Adds.handTo hm w rfl).and_then (.setState _ _ _)

theorem recoverMutexes_change (target : Fin MAX_PARTITIONS) (hwait : NoWaiterIn c k) :
    recoverMutexes h target (c.apply k) = (recoverMutexes h target k).map c.apply := by
  unfold recoverMutexes
  rw [lockMutexes_change]
  rcases lockMutexes_cases h k with hl | ⟨l, hl⟩
  · rw [hl]
    rfl
  rw [hl]
  have hwait' : NoWaiterIn c { k with mutexLock := l } := hwait
  simp only [Except.map]
  rw [foldlM_commutes (C := NoWaiterIn c) (fun _ _ _ hC hok => hC.recoverMutex hok)
    (fun _ i hC => recoverMutex_change target i hC) hwait']
  cases (List.finRange 8).foldlM (Kernel.recoverMutex target) { k with mutexLock := l } <;> rfl

/-! ### Messages -/

/-- The slot is not waiting for a partner, before the change or after it. -/
structure Quiet (c : SlotChange) (k : Kernel) : Prop where
  before : Unwaiting (k.stateOf c.hart c.slot)
  after : Unwaiting (some c.state)

theorem stateOf_change (x : TaskId) : (c.apply k).stateOf x.1 x.2 =
    if x = (c.hart, c.slot) then (k.stateOf x.1 x.2).map fun _ => c.state else k.stateOf x.1 x.2 := by
  obtain ⟨a, b⟩ := x
  by_cases ha : a = c.hart
  · subst ha
    have hsched : (c.apply k).scheds c.hart = c.sched (k.scheds c.hart) := Function.update_self _ _ _
    have henter : ∀ j, (if c.enters then (k.scheds c.hart).enterSlot c.slot else k.scheds c.hart).stateAt j =
        (k.scheds c.hart).stateAt j := by
      split <;> exact fun _ => rfl
    simp only [Kernel.stateOf, hsched, SlotChange.sched, BitMapScheduler.stateAt_setState, henter]
    by_cases hb : b = c.slot
    · rw [if_pos hb, if_pos (by rw [hb]), hb]
    · rw [if_neg hb, if_neg fun he => hb (congrArg Prod.snd he)]
  · simp only [Kernel.stateOf, change_scheds_ne ha]
    rw [if_neg fun he => ha (congrArg Prod.fst he)]

theorem stateOf_change_self :
    (c.apply k).stateOf c.hart c.slot = (k.stateOf c.hart c.slot).map fun _ => c.state :=
  (stateOf_change (c.hart, c.slot)).trans (if_pos rfl)

theorem findPartner_change {α : Type} {want : TaskState → Option α}
    (hbefore : (k.stateOf c.hart c.slot).bind want = none) (hafter : want c.state = none) :
    findPartner want (c.apply k) = findPartner want k := by
  unfold findPartner
  congr 1
  funext x
  rw [stateOf_change]
  split
  · rename_i hx
    subst hx
    rw [hbefore]
    cases k.stateOf c.hart c.slot with
    | none => rfl
    | some st => simp [hafter]
  · rfl

theorem rendezvous_change (hne : h ≠ c.hart) {endpointIdx : Byte} {src dst len mine theirs : Word} {y : TaskId}
    (hy : y ≠ (c.hart, c.slot)) (k : Kernel) :
    rendezvous P h t endpointIdx src dst len y mine theirs (c.apply k) =
      mapKernel c.apply (rendezvous P h t endpointIdx src dst len y mine theirs k) := by
  obtain ⟨f, hf⟩ := change_taskTable (c := c) (k := k) y
  unfold rendezvous
  rw [hf, change_pmp_ne hne]
  cases (k.scheds y.1).taskTable y.2 with
  | none => rfl
  | some tcb =>
    have hmem : (c.apply k).mem = k.mem := rfl
    have hset : ∀ m, ((c.apply k).setMem m).setState y.1 y.2 .ready =
      c.apply ((k.setMem m).setState y.1 y.2 .ready) := fun m => change_setState (k := k.setMem m) hy _
    simp only [Option.map_some, hmem]
    cases copyBytes P (k.pmp h) len.toNat src dst k.mem with
    | error e => rfl
    | ok m =>
      simp only [hset]
      split <;> rfl

/-- A partner that is found waits, and the slot does not. -/
theorem partner_ne {α : Type} {want : TaskState → Option α} {a : α} {x y : TaskId}
    (hx : (k.stateOf x.1 x.2).bind want = none) (hf : findPartner want k = some (y.1, y.2, a)) : y ≠ x := by
  rintro rfl
  obtain ⟨st, hst, hwant⟩ := findPartner_state hf
  rw [hst, Option.bind_some, hwant] at hx
  cases hx

theorem sendMessage_change (hne : h ≠ c.hart) (capIdx msgAddr msgLen : Word) {k : Kernel} (hq : Quiet c k) :
    sendMessage P h t capIdx msgAddr msgLen (c.apply k) =
      mapKernel c.apply (sendMessage P h t capIdx msgAddr msgLen k) := by
  unfold sendMessage
  rw [granted_change hne]
  split
  · exact mapKernel_error (granted_noCopyFault _ _ _ _) ‹_› _
  · rfl
  · rename_i e _
    have hbefore := (hq.before e).1
    rw [findPartner_change hbefore (hq.after e).1]
    split
    · exact rendezvous_change hne (partner_ne (y := (_, _)) (x := (c.hart, c.slot)) hbefore ‹_›) k
    · exact blockCaller_change hne _ k

theorem receiveMessage_change (hne : h ≠ c.hart) (capIdx bufAddr maxLen : Word) {k : Kernel}
    (hq : Quiet c k) :
    receiveMessage P h t capIdx bufAddr maxLen (c.apply k) =
      mapKernel c.apply (receiveMessage P h t capIdx bufAddr maxLen k) := by
  unfold receiveMessage
  rw [granted_change hne]
  split
  · exact mapKernel_error (granted_noCopyFault _ _ _ _) ‹_› _
  · rfl
  · rename_i e _
    have hbefore := (hq.before e).2
    rw [findPartner_change hbefore (hq.after e).2]
    split
    · exact rendezvous_change hne (partner_ne (y := (_, _)) (x := (c.hart, c.slot)) hbefore ‹_›) k
    · exact blockCaller_change hne _ k

/-! ### Termination -/

theorem findTask_change (targetPrio : Word) : findTask (c.apply k) targetPrio = findTask k targetPrio := by
  have hsome : ∀ x : TaskId, (((c.apply k).scheds x.1).taskTable x.2).isSome =
      ((k.scheds x.1).taskTable x.2).isSome := by
    intro x
    obtain ⟨f, hf⟩ := change_taskTable (c := c) (k := k) x
    rw [hf, Option.isSome_map]
  unfold findTask
  split
  · rename_i ht
    rw [hsome (0, ⟨targetPrio.toNat, ht⟩), hsome (1, ⟨targetPrio.toNat, ht⟩)]
  · rfl

theorem kill_change {x : TaskId} (hx : x ≠ (c.hart, c.slot)) (hwait : NoWaiterIn c k) :
    recoverMutexes h x.2 ((c.apply k).setState x.1 x.2 .terminated) =
      (recoverMutexes h x.2 (k.setState x.1 x.2 .terminated)).map c.apply := by
  rw [change_setState hx]
  exact recoverMutexes_change x.2 hwait

/-- The trap does not leave the slot terminated. -/
def Spares (c : SlotChange) (o : Outcome) : Prop :=
  ∀ sp k', o = .ok (sp, k') → k'.stateOf c.hart c.slot ≠ some .terminated

/-- The change by which a trap terminates the slot. -/
def SlotChange.terminate (c : SlotChange) : SlotChange := ⟨c.hart, c.slot, .terminated, false, id⟩

theorem terminate_apply (c : SlotChange) (k : Kernel) :
    c.terminate.apply k = k.setState c.hart c.slot .terminated := by
  simp [SlotChange.apply, SlotChange.terminate, SlotChange.sched, Kernel.setPmp, Kernel.setState, Kernel.setSched]

theorem stateOf_terminate (hreg : (k.stateOf c.hart c.slot).isSome) :
    (c.terminate.apply k).stateOf c.hart c.slot = some .terminated := by
  obtain ⟨st, hst⟩ := Option.isSome_iff_exists.mp hreg
  have hst' : k.stateOf c.terminate.hart c.terminate.slot = some st := hst
  have hset := stateOf_change_self (c := c.terminate) (k := k)
  rw [hst'] at hset
  exact hset

theorem isSome_stateOf_of_adds {add : Fin 8 → Fin MAX_PARTITIONS → Prop} {k' : Kernel}
    (hadds : Adds add (view k) (view k')) (x : TaskId) :
    (k'.stateOf x.1 x.2).isSome = (k.stateOf x.1 x.2).isSome := by
  have hsome := congrArg Option.isSome (congrFun hadds.static x)
  simpa only [view, Option.isSome_map, Kernel.stateOf, BitMapScheduler.stateAt] using hsome

/-- A trap of another hart that recovers the mutexes of the slot leaves it terminated. -/
theorem not_spares_of_kill (hne : h ≠ c.hart) {targetPrio : Word} (hwait : NoWaiterIn c k)
    (hf : findTask k targetPrio = some (c.hart, c.slot)) {k2 : Kernel}
    (hk2 : recoverMutexes h c.slot k = .ok k2) : ¬ Spares c (terminateTask P h t targetPrio k) := by
  intro hspares
  have hreg : (k2.stateOf c.hart c.slot).isSome := by
    rw [isSome_stateOf_of_adds (recoverMutexes_adds hk2) (c.hart, c.slot)]
    exact findTask_isSome hf
  have hkilled : recoverMutexes h c.slot (k.setState c.hart c.slot .terminated) =
      .ok (c.terminate.apply k2) := by
    rw [← terminate_apply, recoverMutexes_change (c := c.terminate) c.slot hwait, hk2]
    rfl
  refine hspares t.userSp (((c.terminate.apply k2).writeFrame t.userSp 6 0#32).setMsip c.hart true) ?_
    (stateOf_terminate hreg)
  unfold terminateTask
  simp only [hf, hkilled, if_pos hne.symm]

theorem terminateTask_change (hne : h ≠ c.hart) (targetPrio : Word) {k : Kernel} (hwait : NoWaiterIn c k)
    (hspares : Spares c (terminateTask P h t targetPrio k)) :
    terminateTask P h t targetPrio (c.apply k) = mapKernel c.apply (terminateTask P h t targetPrio k) := by
  cases hf : findTask k targetPrio with
  | none =>
    unfold terminateTask
    simp only [findTask_change, hf]
    rfl
  | some x =>
    by_cases hx : x = (c.hart, c.slot)
    · subst hx
      -- the recovery fails, or the slot would be left terminated
      cases hrec : recoverMutexes h c.slot k with
      | ok k2 => exact absurd hspares (not_spares_of_kill hne hwait hf hrec)
      | error e =>
        have herror : ∀ c' : SlotChange, c'.hart = c.hart → c'.slot = c.slot →
            recoverMutexes h c.slot (c'.apply k) = .error e := by
          intro c' hhart hslot
          have hwait' : NoWaiterIn c' k := by
            unfold NoWaiterIn
            rw [hhart, hslot]
            exact hwait
          rw [recoverMutexes_change c.slot hwait', hrec]
          rfl
        have hset : (c.apply k).setState c.hart c.slot .terminated =
            ({ c with state := .terminated } : SlotChange).apply k := by
          simp [SlotChange.apply, SlotChange.sched, Kernel.setPmp, Kernel.setState, Kernel.setSched,
            BitMapScheduler.setState, Function.update_idem, Function.comp_def]
        have h1 := herror { c with state := .terminated } rfl rfl
        have h2 := herror c.terminate rfl rfl
        rw [terminate_apply] at h2
        unfold terminateTask
        simp only [findTask_change, hf, hset, h1, h2]
        exact mapKernel_error (recoverMutexes_noCopyFault _ _ _) hrec _
    · unfold terminateTask
      simp only [findTask_change, hf]
      rw [kill_change hx hwait]
      cases hrec : recoverMutexes h x.2 (k.setState x.1 x.2 .terminated) with
      | error e => exact mapKernel_error (recoverMutexes_noCopyFault _ _ _) hrec _
      | ok k2 =>
        have hwrite : ∀ sp i v, (c.apply k2).writeFrame sp i v = c.apply (k2.writeFrame sp i v) :=
          fun _ _ _ => rfl
        simp only [Except.map, hwrite, change_current_ne hne, switchTask_change hne]
        split
        · rfl
        · split <;> rfl

theorem Spares.of_withSchedLock {body : Kernel → Outcome} (hs : Spares c (withSchedLock h k body)) {l : Spinlock}
    (hl : k.schedLock.lock h = some l) : Spares c (body { k with schedLock := l }) := by
  intro sp k' hok
  refine hs sp { k' with schedLock := k'.schedLock.unlock } ?_
  unfold withSchedLock
  simp only [hl, hok]

theorem terminateRunning_change (hne : h ≠ c.hart) {k : Kernel} (hwait : NoWaiterIn c k) :
    terminateRunning P h t (c.apply k) = mapKernel c.apply (terminateRunning P h t k) := by
  have hx : ((h, k.current h) : TaskId) ≠ (c.hart, c.slot) := fun he => hne (congrArg Prod.fst he)
  unfold terminateRunning
  rw [change_scheds_ne hne, change_current_ne hne]
  dsimp only
  cases (k.scheds h).taskTable (k.current h) with
  | none =>
    dsimp only
    rw [switchTask_change hne]
    rfl
  | some tcb =>
    have hkill := kill_change (h := h) hx hwait
    dsimp only at hkill ⊢
    rw [hkill]
    cases hrec : recoverMutexes h (k.current h) (k.setState h (k.current h) .terminated) with
    | error e => exact mapKernel_error (recoverMutexes_noCopyFault _ _ _) hrec _
    | ok k2 =>
      simp only [Except.map, switchTask_change hne]
      rfl

/-! ## Every trap -/

theorem ecall_change (hne : h ≠ c.hart) {k : Kernel} (hwait : NoWaiterIn c k) (hq : Quiet c k)
    (hspares : Spares c (ecall P h t k)) :
    ecall P h t (c.apply k) = mapKernel c.apply (ecall P h t k) := by
  unfold ecall at hspares ⊢
  have hread : ∀ i, (c.apply k).readFrame t.userSp i = k.readFrame t.userSp i := fun _ => rfl
  have hwrite : ∀ i v, (c.apply k).writeFrame t.userSp i v = c.apply (k.writeFrame t.userSp i v) :=
    fun _ _ => rfl
  dsimp only at hspares ⊢
  rw [hread, hread, hwrite]
  have hwait' : NoWaiterIn c (k.writeFrame t.userSp 28 (k.readFrame t.userSp 28 + 4#32)) := hwait
  have hq' : Quiet c (k.writeFrame t.userSp 28 (k.readFrame t.userSp 28 + 4#32)) := ⟨hq.before, hq.after⟩
  generalize k.writeFrame t.userSp 28 (k.readFrame t.userSp 28 + 4#32) = k1 at hspares hwait' hq' ⊢
  have hread1 : ∀ i, (c.apply k1).readFrame t.userSp i = k1.readFrame t.userSp i := fun _ => rfl
  split
  · unfold sysYield
    refine withSchedLock_change fun l _ => ?_
    rw [switchTask_change hne]
    rfl
  · unfold sysSleep
    exact withSchedLock_change fun l _ => blockCaller_change hne _ _
  · unfold sysLock
    rw [hread1]
    exact withSchedLock_change fun l _ => lockMutex_change hne _ _
  · unfold sysUnlock
    rw [hread1]
    exact withSchedLock_change fun l _ => unlockMutex_change hne _ hwait'
  · unfold sysCheckin
    refine withSchedLock_change fun l _ => ?_
    rw [change_current_ne hne]
    rfl
  · unfold sysSend
    simp only [hread1]
    exact withSchedLock_change fun l _ => sendMessage_change hne _ _ _ ⟨hq'.before, hq'.after⟩
  · unfold sysRecv
    simp only [hread1]
    exact withSchedLock_change fun l _ => receiveMessage_change hne _ _ _ ⟨hq'.before, hq'.after⟩
  · rename_i hid
    simp only [hid] at hspares
    unfold sysTerminate at hspares ⊢
    rw [hread1]
    exact withSchedLock_change fun l hl => terminateTask_change hne _ hwait' (hspares.of_withSchedLock hl)
  · rfl

theorem exception_change (hne : h ≠ c.hart) {k : Kernel} (hwait : NoWaiterIn c k) :
    exception P h t (c.apply k) = mapKernel c.apply (exception P h t k) := by
  unfold exception
  have hread : ∀ i, (c.apply k).readFrame t.userSp i = k.readFrame t.userSp i := fun _ => rfl
  have hmem : (c.apply k).mem = k.mem := rfl
  rw [hread, hmem]
  dsimp only
  split
  · unfold emulateCounter
    dsimp only
    split <;> rfl
  · split
    · unfold containFault
      have hlog : ∀ e, (c.apply k).logTelemetry e = c.apply (k.logTelemetry e) := fun _ => rfl
      rw [hread, hlog]
      exact withSchedLock_change fun l _ => terminateRunning_change hne hwait
    · rfl

/-- A trap that spares the slot gives the same before the change and after it. -/
theorem trapHandler_change (hne : h ≠ c.hart) {k : Kernel} (hwait : NoWaiterIn c k) (hq : Quiet c k)
    (hspares : Spares c (trapHandler P h t k)) :
    trapHandler P h t (c.apply k) = mapKernel c.apply (trapHandler P h t k) := by
  unfold trapHandler at hspares ⊢
  split
  · unfold timerInterrupt
    have htick : ({ c.apply k with tickCount := (c.apply k).tickCount + 1#32 } : Kernel) =
      c.apply { k with tickCount := k.tickCount + 1#32 } := rfl
    dsimp only
    rw [htick]
    refine withSchedLock_change fun l _ => ?_
    rw [change_scheds_ne hne, change_setSched hne, switchTask_change hne]
    rfl
  · split
    · unfold softwareInterrupt
      have hmsip : (c.apply k).setMsip h false = c.apply (k.setMsip h false) := rfl
      rw [hmsip]
      refine withSchedLock_change fun l _ => ?_
      rw [switchTask_change hne]
      rfl
    · split
      · rename_i h1 h2 hecall
        rw [if_neg h1, if_neg h2, if_pos hecall] at hspares
        exact ecall_change hne hwait hq hspares
      · exact exception_change hne hwait

/-- A copy that faults comes before anything the change is about. -/
theorem copyFault_change (hne : h ≠ c.hart) {k : Kernel} (hwait : NoWaiterIn c k) (hq : Quiet c k)
    {cause : Word} {kf : Kernel} (hf : trapHandler P h t k = .error (.copyFault cause kf)) :
    trapHandler P h t (c.apply k) = .error (.copyFault cause (c.apply kf)) := by
  have hspares : Spares c (trapHandler P h t k) := by
    intro sp k' hok
    rw [hf] at hok
    cases hok
  rw [trapHandler_change hne hwait hq hspares, hf]
  rfl

/-! ### A slot that stays Ready -/

/-- The change that finds the slot `Ready` and leaves it so. -/
def SlotChange.readies (c : SlotChange) : SlotChange := ⟨c.hart, c.slot, .ready, false, id⟩

theorem unwaiting_ready : Unwaiting (some .ready) := fun _ => ⟨rfl, rfl⟩

theorem readies_apply (hready : k.stateOf c.hart c.slot = some .ready) : c.readies.apply k = k := by
  obtain ⟨tcb, htcb, hst⟩ := Option.map_eq_some_iff.mp hready
  have hsame : ({ tcb with state := .ready } : TaskControlBlock) = tcb := by rw [← hst]
  have htable : Function.update (k.scheds c.hart).taskTable c.slot
      (((k.scheds c.hart).taskTable c.slot).map fun tcb => { tcb with state := .ready }) =
        (k.scheds c.hart).taskTable := by
    rw [htcb, Option.map_some, hsame, ← htcb, Function.update_eq_self]
  have hsched : (k.scheds c.hart).setState c.slot .ready = k.scheds c.hart := by
    rw [BitMapScheduler.setState, htable]
  simp [SlotChange.apply, SlotChange.readies, SlotChange.sched, hsched, Kernel.setSched, Kernel.setPmp]

theorem ready_of_readies (hreg : (k.stateOf c.hart c.slot).isSome) (happly : c.readies.apply k = k) :
    k.stateOf c.hart c.slot = some .ready := by
  obtain ⟨st, hst⟩ := Option.isSome_iff_exists.mp hreg
  have hst' : k.stateOf c.readies.hart c.readies.slot = some st := hst
  have hset := stateOf_change_self (c := c.readies) (k := k)
  rw [happly, hst'] at hset
  exact hst.trans hset

theorem quiet_of_ready (hready : k.stateOf c.hart c.slot = some .ready) (hafter : Unwaiting (some c.state)) :
    Quiet c k := ⟨hready ▸ unwaiting_ready, hafter⟩

theorem Spares.of_ok {sp : Word} {k' : Kernel}
    (hok : trapHandler P h t k = .ok (sp, k')) (hspared : k'.stateOf c.hart c.slot ≠ some .terminated) :
    Spares c (trapHandler P h t k) := by
  intro sp1 k1 hok1
  rw [hok] at hok1
  rw [← (Prod.mk.inj (Except.ok.inj hok1)).2]
  exact hspared

/-- A trap that spares a `Ready` slot of the other hart leaves it `Ready`. -/
theorem trap_keeps_ready (hne : h ≠ c.hart) (hwait : NoWaiterIn c k)
    (hready : k.stateOf c.hart c.slot = some .ready) {sp : Word} {k' : Kernel}
    (hok : trapHandler P h t k = .ok (sp, k')) (hspared : k'.stateOf c.hart c.slot ≠ some .terminated) :
    k'.stateOf c.hart c.slot = some .ready := by
  have hsame := trapHandler_change (P := P) (t := t) (c := c.readies) hne hwait
    (quiet_of_ready hready unwaiting_ready) (.of_ok hok hspared)
  rw [readies_apply hready, hok] at hsame
  have hk' : c.readies.apply k' = k' := (Prod.mk.inj (Except.ok.inj hsame)).2.symm
  refine ready_of_readies ?_ hk'
  rw [isSome_stateOf_of_adds (adds_of_ok hok) (c.hart, c.slot), hready]
  rfl

theorem copyFault_keeps_ready (hne : h ≠ c.hart) (hwait : NoWaiterIn c k)
    (hready : k.stateOf c.hart c.slot = some .ready) {cause : Word} {kf : Kernel}
    (hf : trapHandler P h t k = .error (.copyFault cause kf)) :
    kf.stateOf c.hart c.slot = some .ready := by
  have hsame := copyFault_change (c := c.readies) hne hwait (quiet_of_ready hready unwaiting_ready) hf
  rw [readies_apply hready, hf] at hsame
  have hkf : c.readies.apply kf = kf := (Stop.copyFault.inj (Except.error.inj hsame)).2.symm
  refine ready_of_readies ?_ hkf
  rw [isSome_stateOf_of_adds (adds_of_copyFault hf).1 (c.hart, c.slot), hready]
  rfl

end Pieces

/-! ## Every event -/

section Events
variable {P : Platform} {c : SlotChange} {s s' : System} {ev : Event}

/-- The Watchdog's restarts, which are made on core 0, of a slot other than the changed one. -/
theorem restart_change {st : StackTask} {x : TaskId} (hx : x ≠ (c.hart, c.slot)) (k : Kernel) :
    restart P st x.1 x.2 (c.apply k) = c.apply (restart P st x.1 x.2 k) := by
  obtain ⟨a, b⟩ := x
  have hmem : (c.apply k).mem = k.mem := rfl
  unfold restart
  dsimp only
  rw [hmem]
  generalize initializeStack (P.layout.base st) 1024#32 (P.entry st) k.mem = r
  by_cases ha : a = c.hart
  · subst ha
    have hb : b ≠ c.slot := fun he => hx (by rw [he])
    simp only [SlotChange.apply, Kernel.setSched, Kernel.setPmp, Kernel.setMem, Function.update_self,
      Function.update_idem, sched_setSavedSp hb, sched_setState hb]
  · have hscheds : (c.apply k).scheds a = k.scheds a := change_scheds_ne ha
    have hset : ((c.apply k).setMem r.2).setSched a (((k.scheds a).setSavedSp b r.1).setState b .ready) =
        c.apply ((k.setMem r.2).setSched a (((k.scheds a).setSavedSp b r.1).setState b .ready)) :=
      change_setSched (k := k.setMem r.2) ha _
    rw [hscheds, hset]
    rfl

theorem restartTaskC_change (hx : taskC ≠ (c.hart, c.slot)) (k : Kernel) :
    restartTaskC P (c.apply k) = c.apply (restartTaskC P k) := by
  have hstate : (c.apply k).stateOf 1 3 = k.stateOf 1 3 :=
    (stateOf_change (c := c) (k := k) taskC).trans (if_neg hx)
  have hcounter : (c.apply k).testCounter = k.testCounter := rfl
  unfold restartTaskC
  rw [hstate, hcounter]
  split
  · exact restart_change (x := taskC) hx { k with testCounter := k.testCounter + 1#32 }
  · rfl

theorem restartHsm_change (hx : hsmTask ≠ (c.hart, c.slot)) (k : Kernel) :
    restartHsm P (c.apply k) = c.apply (restartHsm P k) := by
  have hstate : (c.apply k).stateOf 0 4 = k.stateOf 0 4 :=
    (stateOf_change (c := c) (k := k) hsmTask).trans (if_neg hx)
  unfold restartHsm
  rw [hstate]
  split
  · exact restart_change (x := hsmTask) hx k
  · rfl

theorem restartTaskC_adds (P : Platform) (k : Kernel) :
    Adds noBits (view k) (view (restartTaskC P k)) := by
  unfold restartTaskC
  split
  · exact adds_restart P .taskC 1 3 _
  · exact .refl _

theorem restartHsm_adds (P : Platform) (k : Kernel) :
    Adds noBits (view k) (view (restartHsm P k)) := by
  unfold restartHsm
  split
  · exact adds_restart P .hsm 0 4 _
  · exact .refl _

/-- A step of the Watchdog that does the same before the change and after it. -/
theorem watchdog_change {f : Kernel → Kernel} (hready : s.kernel.stateOf c.hart c.slot = some .ready)
    (hf : ∀ c' : SlotChange, c'.hart = c.hart → c'.slot = c.slot → f (c'.apply s.kernel) = c'.apply (f s.kernel))
    (hadds : Adds noBits (view s.kernel) (view (f s.kernel))) :
    (f s.kernel).stateOf c.hart c.slot = some .ready ∧ f (c.apply s.kernel) = c.apply (f s.kernel) := by
  refine ⟨?_, hf c rfl rfl⟩
  have hsame := hf c.readies rfl rfl
  rw [readies_apply hready] at hsame
  refine ready_of_readies ?_ hsame.symm
  rw [isSome_stateOf_of_adds hadds (c.hart, c.slot), hready]
  rfl

/-- A step on one hart that spares a `Ready` slot of the other leaves it `Ready`, and the same step is
made when the slot has been changed. -/
theorem step_change (hne : ev.hart ≠ c.hart) (hwait : NoWaiterIn c s.kernel)
    (hready : s.kernel.stateOf c.hart c.slot = some .ready) (hafter : Unwaiting (some c.state))
    (hC : taskC ≠ (c.hart, c.slot)) (hH : hsmTask ≠ (c.hart, c.slot)) (hstep : Step P s ev s')
    (hspared : s'.kernel.stateOf c.hart c.slot ≠ some .terminated) :
    s'.kernel.stateOf c.hart c.slot = some .ready ∧
      Step P ⟨c.apply s.kernel, s.inPass⟩ ev ⟨c.apply s'.kernel, s'.inPass⟩ := by
  have hwait' : ∀ m, NoWaiterIn c (s.kernel.setMem m) := fun _ => hwait
  have hready' : ∀ m, (s.kernel.setMem m).stateOf c.hart c.slot = some .ready := fun _ => hready
  have hruns : ev.hart = 0 → (watchdogRuns (c.apply s.kernel) ↔ watchdogRuns s.kernel) := fun h0 => by
    rw [watchdogRuns, watchdogRuns, change_current_ne (h0 ▸ hne)]
  cases ev with
  | trap h t m =>
    have hne' : h ≠ c.hart := hne
    obtain ⟨k', hk', rfl⟩ := Option.map_eq_some_iff.mp hstep
    obtain ⟨sp, hok⟩ := afterTrap_ok hk'
    have hok' := trapHandler_change hne' (hwait' m) (quiet_of_ready (hready' m) hafter) (.of_ok hok hspared)
    rw [hok] at hok'
    exact ⟨trap_keeps_ready hne' (hwait' m) (hready' m) hok hspared,
      step_of_ok (s := ⟨c.apply s.kernel, s.inPass⟩) hok'⟩
  | nestedTrap h t m t' m' =>
    have hne' : h ≠ c.hart := hne
    obtain ⟨k', hk', rfl⟩ := Option.map_eq_some_iff.mp hstep
    obtain ⟨cause, kf, sp, hf, hcause, hok⟩ := afterNested_ok hk'
    have hwaitf : NoWaiterIn c (kf.setMem m') := (hwait' m).of_adds (adds_of_copyFault hf).1
    have hkf := copyFault_keeps_ready hne' (hwait' m) (hready' m) hf
    have hreadyf : (kf.setMem m').stateOf c.hart c.slot = some .ready := hkf
    have hf' := copyFault_change hne' (hwait' m) (quiet_of_ready (hready' m) hafter) hf
    have hok' := trapHandler_change hne' hwaitf (quiet_of_ready hreadyf hafter) (.of_ok hok hspared)
    rw [hok] at hok'
    exact ⟨trap_keeps_ready hne' hwaitf hreadyf hok hspared,
      step_of_copyFault (s := ⟨c.apply s.kernel, s.inPass⟩) hf' hcause hok'⟩
  | watchdogLock =>
    simp only [Step, System.next] at hstep ⊢
    split at hstep
    · rename_i hpass
      obtain ⟨l, hl, rfl⟩ := Option.map_eq_some_iff.mp hstep
      have hl' : (c.apply s.kernel).schedLock.lock 0 = some l := hl
      rw [if_pos ⟨(hruns rfl).mpr hpass.1, hpass.2⟩, hl']
      exact ⟨hready, rfl⟩
    · cases hstep
  | watchdogRestartTaskC =>
    simp only [Step, System.next] at hstep ⊢
    split at hstep
    · rename_i hpass
      obtain ⟨hkept, hsame⟩ := watchdog_change (f := restartTaskC P) hready
        (fun c' hhart hslot => restartTaskC_change (by rw [hhart, hslot]; exact hC) _)
        (restartTaskC_adds P s.kernel)
      rw [← Option.some.inj hstep, if_pos ⟨(hruns rfl).mpr hpass.1, hpass.2⟩]
      exact ⟨hkept, by rw [hsame]⟩
    · cases hstep
  | watchdogRestartHsm =>
    simp only [Step, System.next] at hstep ⊢
    split at hstep
    · rename_i hpass
      obtain ⟨hkept, hsame⟩ := watchdog_change (f := restartHsm P) hready
        (fun c' hhart hslot => restartHsm_change (by rw [hhart, hslot]; exact hH) _)
        (restartHsm_adds P s.kernel)
      rw [← Option.some.inj hstep, if_pos ⟨(hruns rfl).mpr hpass.1, hpass.2⟩]
      exact ⟨hkept, by rw [hsame]⟩
    · cases hstep
  | watchdogUnlock =>
    simp only [Step, System.next] at hstep ⊢
    split at hstep
    · rename_i hpass
      rw [← Option.some.inj hstep, if_pos ⟨(hruns rfl).mpr hpass.1, hpass.2⟩]
      exact ⟨hready, rfl⟩
    · cases hstep

end Events

end Cerberus.Kernel
