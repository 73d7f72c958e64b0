import Cerberus.Kernel.Reachable

/-! # What a trap writes

`Kernel/Frame` follows the saved stack pointers and the PMP registers; this module follows the rest
of what lies outside the view: the memory, the other fields of the control blocks, the clocks and the
IPC events of the telemetry stream. `trap_leaves` says it once for every trap: memory changes in the
caller's frame, in the bytes of a rendezvous and in one word of the partner's saved frame, and the
handler resumes the interrupted context or the saved context of the task it switches to. -/
namespace Cerberus.Kernel
open Scheduler Sync Memory
set_option autoImplicit false

/-! ## Control blocks -/

/-- A control block without the two fields that traps write. -/
def fixedPart (tcb : TaskControlBlock) : TaskControlBlock :=
  { tcb with savedSp := 0#32, state := .ready }

def fixedParts (s : BitMapScheduler) (i : Fin MAX_PARTITIONS) : Option TaskControlBlock :=
  (s.taskTable i).map fixedPart

section Scheduler
variable (s : BitMapScheduler) (i j n : Fin MAX_PARTITIONS) (st : TaskState) (sp : Word)

@[simp] theorem fixedParts_setState : fixedParts (s.setState i st) j = fixedParts s j := by
  by_cases hj : j = i
  · subst hj
    simp only [fixedParts, BitMapScheduler.setState, Function.update_self, Option.map_map]
    rfl
  · simp [fixedParts, BitMapScheduler.setState, hj]

@[simp] theorem fixedParts_setSavedSp : fixedParts (s.setSavedSp i sp) j = fixedParts s j := by
  by_cases hj : j = i
  · subst hj
    simp only [fixedParts, BitMapScheduler.setSavedSp, Function.update_self, Option.map_map]
    rfl
  · simp [fixedParts, BitMapScheduler.setSavedSp, hj]

@[simp] theorem fixedParts_swapTo : fixedParts (s.swapTo n) j = fixedParts s j := by
  unfold BitMapScheduler.swapTo BitMapScheduler.releaseSlot
  rw [fixedParts_setState]
  split
  · rw [fixedParts_setState]
    rfl
  · rfl

@[simp] theorem fixedParts_spendTick (b : Bool) : fixedParts (s.spendTick b) j = fixedParts s j := by
  simp [fixedParts]

@[simp] theorem fixedParts_wakeSleepers (now : Word) :
    fixedParts (wakeSleepers now s) j = fixedParts s j := by
  simp only [fixedParts, wakeSleepers, Option.map_map]
  rfl

end Scheduler

def fixedOf (k : Kernel) (x : TaskId) : Option TaskControlBlock := fixedParts (k.scheds x.1) x.2

theorem fixedOf_setSched {k : Kernel} {h : Hart} {s : BitMapScheduler}
    (hs : ∀ j, fixedParts s j = fixedParts (k.scheds h) j) (x : TaskId) :
    fixedOf (k.setSched h s) x = fixedOf k x := by
  obtain ⟨h', j⟩ := x
  by_cases hh : h' = h
  · subst hh
    simp [fixedOf, Kernel.setSched, hs]
  · simp [fixedOf, Kernel.setSched, hh]

/-! ## The relation -/

/-- The IPC events of the telemetry stream: endpoint and byte count. -/
def transfers (trace : List TraceEvent) : List (Byte × Byte) :=
  trace.filterMap fun ev =>
    match ev with
    | .ipcTransfer endpoint bytes => some (endpoint, bytes)
    | _ => none

/-- From `k` to `k'` nothing is written at the addresses in `F`, and `log` is what the stream gains
of IPC events. -/
structure Keeps (F : Word → Prop) (log : List (Byte × Byte)) (k k' : Kernel) : Prop where
  fixed : ∀ x, fixedOf k' x = fixedOf k x
  mem : ∀ a, F a → k'.mem a = k.mem a
  tickCount : k'.tickCount = k.tickCount
  lastCheckin : k'.lastCheckin = k.lastCheckin
  testCounter : k'.testCounter = k.testCounter
  transfers : transfers k'.trace = transfers k.trace ++ log

namespace Keeps
variable {F : Word → Prop} {log : List (Byte × Byte)} {k k1 k' : Kernel}

theorem refl (F : Word → Prop) (k : Kernel) : Keeps F [] k k :=
  ⟨fun _ => rfl, fun _ _ => rfl, rfl, rfl, rfl, (List.append_nil _).symm⟩

theorem of_eq (hscheds : k'.scheds = k.scheds)
    (hdata : (k'.mem, k'.tickCount, k'.lastCheckin, k'.testCounter, k'.trace) =
      (k.mem, k.tickCount, k.lastCheckin, k.testCounter, k.trace)) : Keeps F [] k k' := by
  simp only [Prod.mk.injEq] at hdata
  obtain ⟨hmem, htick, hcheck, htest, htrace⟩ := hdata
  refine ⟨fun x => ?_, fun a _ => by rw [hmem], htick, hcheck, htest, by rw [htrace, List.append_nil]⟩
  rw [fixedOf, fixedOf, hscheds]

theorem trans {log' : List (Byte × Byte)} (h1 : Keeps F log k k1) (h2 : Keeps F log' k1 k') :
    Keeps F (log ++ log') k k' where
  fixed := fun x => (h2.fixed x).trans (h1.fixed x)
  mem := fun a ha => (h2.mem a ha).trans (h1.mem a ha)
  tickCount := h2.tickCount.trans h1.tickCount
  lastCheckin := h2.lastCheckin.trans h1.lastCheckin
  testCounter := h2.testCounter.trans h1.testCounter
  transfers := by rw [h2.transfers, h1.transfers, List.append_assoc]

theorem after (h2 : Keeps F log k1 k') (h1 : Keeps F [] k k1) : Keeps F log k k' := h1.trans h2

theorem and_then (h1 : Keeps F log k k1) (h2 : Keeps F [] k1 k') : Keeps F log k k' := by
  have h := h1.trans h2
  rwa [List.append_nil] at h

theorem setSched {h : Hart} {s : BitMapScheduler}
    (hs : ∀ j, fixedParts s j = fixedParts (k.scheds h) j) : Keeps F [] k (k.setSched h s) :=
  ⟨fixedOf_setSched hs, fun _ _ => rfl, rfl, rfl, rfl, (List.append_nil _).symm⟩

theorem setState (k : Kernel) (h : Hart) (i : Fin MAX_PARTITIONS) (st : TaskState) :
    Keeps F [] k (k.setState h i st) :=
  setSched fun j => fixedParts_setState _ i j st

theorem setMem {m : Memory} (hm : ∀ a, F a → m a = k.mem a) : Keeps F [] k (k.setMem m) :=
  ⟨fun _ => rfl, hm, rfl, rfl, rfl, (List.append_nil _).symm⟩

theorem writeFrame {sp : Word} {i : ℕ} (hF : ∀ a, F a → ¬ InRange (slot sp i) 4 a) (k : Kernel)
    (v : Word) : Keeps F [] k (k.writeFrame sp i v) :=
  setMem fun a ha => writeWord_of_not_inRange _ v (hF a ha)

theorem mono {F' : Word → Prop} (hk : Keeps F log k k') (hF : ∀ a, F' a → F a) : Keeps F' log k k' :=
  ⟨hk.fixed, fun a ha => hk.mem a (hF a ha), hk.tickCount, hk.lastCheckin, hk.testCounter, hk.transfers⟩

end Keeps

/-- The context a handler returns to: the interrupted one, or the saved one of the task it has
switched to, after saving the interrupted one. -/
def Resumes (h : Hart) (userSp : Word) (k : Kernel) (sp : Word) (k' : Kernel) : Prop :=
  (sp = userSp ∧ k'.current h = k.current h) ∨
    (savedSpOf k (h, k'.current h) = some sp ∧ savedSpOf k' (h, k.current h) = some userSp)

/-- What an outcome leaves of the kernel `k`: a handler that returns keeps `F`, logs `log` and
resumes; a copy fault keeps `F` and logs nothing. -/
def Leaves (F : Word → Prop) (log : List (Byte × Byte)) (h : Hart) (userSp : Word) (k : Kernel) :
    Outcome → Prop
  | .ok (sp, k') => Keeps F log k k' ∧ Resumes h userSp k sp k'
  | .error (.copyFault _ kf) => Keeps F [] k kf
  | .error _ => True

section Leaves
variable {P : Platform} {F : Word → Prop} {log : List (Byte × Byte)} {h : Hart} {userSp : Word}
  {k k1 : Kernel}

theorem Resumes.after {sp : Word} {k' : Kernel} (hr : Resumes h userSp k1 sp k')
    (hu : Untouched k k1) : Resumes h userSp k sp k' := by
  rcases hr with ⟨hsp, hcur⟩ | ⟨hnew, hold⟩
  · exact Or.inl ⟨hsp, by rw [hcur, hu.current]⟩
  · exact Or.inr ⟨by rw [← hu.savedSp, hnew], by rw [← hu.current, hold]⟩

theorem Leaves.after {o : Outcome} (ho : Leaves F log h userSp k1 o) (hk : Keeps F [] k k1)
    (hu : Untouched k k1) : Leaves F log h userSp k o := by
  cases o with
  | ok r => exact ⟨ho.1.after hk, ho.2.after hu⟩
  | error e =>
    cases e with
    | copyFault cause kf => exact Keeps.after ho hk
    | _ => trivial

theorem Leaves.mono {F' : Word → Prop} {o : Outcome} (ho : Leaves F log h userSp k o)
    (hF : ∀ a, F' a → F a) : Leaves F' log h userSp k o := by
  cases o with
  | ok r => exact ⟨ho.1.mono hF, ho.2⟩
  | error e =>
    cases e with
    | copyFault cause kf => exact Keeps.mono ho hF
    | _ => trivial

/-- The handler returns to the interrupted context. -/
theorem Leaves.stays {k' : Kernel} (hk : Keeps F log k k') (hu : Untouched k k') :
    Leaves F log h userSp k (.ok (userSp, k')) :=
  ⟨hk, Or.inl ⟨rfl, congrFun hu.current h⟩⟩

theorem Leaves.and_then {r : Word × Kernel} {k' : Kernel} (hr : Leaves F log h userSp k (.ok r))
    (hk : Keeps F [] r.2 k') (hu : Untouched r.2 k') : Leaves F log h userSp k (.ok (r.1, k')) := by
  obtain ⟨hkeeps, hres⟩ := hr
  refine ⟨hkeeps.and_then hk, ?_⟩
  rcases hres with ⟨hsp, hcur⟩ | ⟨hnew, hold⟩
  · exact Or.inl ⟨hsp, by rw [hu.current, hcur]⟩
  · exact Or.inr ⟨by rw [hu.current, hnew], by rw [hu.savedSp, hold]⟩

theorem withSchedLock_leaves {body : Kernel → Outcome}
    (hbody : ∀ l, Leaves F log h userSp { k with schedLock := l } (body { k with schedLock := l })) :
    Leaves F log h userSp k (withSchedLock h k body) := by
  unfold withSchedLock
  cases k.schedLock.lock h with
  | none => trivial
  | some l =>
    have hl := hbody l
    dsimp only
    generalize body { k with schedLock := l } = o at hl
    cases o with
    | ok r =>
      obtain ⟨hk, hr⟩ := hl
      exact ⟨⟨hk.fixed, hk.mem, hk.tickCount, hk.lastCheckin, hk.testCounter, hk.transfers⟩, hr⟩
    | error e =>
      cases e with
      | copyFault cause kf =>
        exact ⟨hl.fixed, hl.mem, hl.tickCount, hl.lastCheckin, hl.testCounter, hl.transfers⟩
      | _ => trivial

end Leaves

/-! ## The pieces of a handler -/

theorem recoverMutex_keeps {F : Word → Prop} {target : Fin MAX_PARTITIONS} {k k' : Kernel} {i : Fin 8}
    (hok : recoverMutex target k i = .ok k') : Keeps F [] k k' := by
  unfold recoverMutex at hok
  split at hok
  · rw [Except.ok.inj hok]
    exact .refl F k'
  split at hok
  · split at hok
    · cases hok
    · rw [← Except.ok.inj hok]
      exact .of_eq rfl rfl
    · rename_i m _ _ _ w _
      rw [← Except.ok.inj hok]
      have hset : Keeps F [] k (k.setMutex i (m.handTo w)) := .of_eq rfl rfl
      exact (Keeps.setState _ _ _ _).after hset
  · rw [Except.ok.inj hok]
    exact .refl F k'

theorem recoverLoop_keeps {F : Word → Prop} {target : Fin MAX_PARTITIONS} {l : List (Fin 8)}
    {k k' : Kernel} (hok : l.foldlM (recoverMutex target) k = .ok k') : Keeps F [] k k' :=
  Transition.foldlM_rel (R := Keeps F []) (Keeps.refl F) (fun _ _ _ h1 h2 => h2.after h1)
    (fun _ _ _ hi => recoverMutex_keeps hi) hok

theorem recoverMutexes_keeps {F : Word → Prop} {h : Hart} {target : Fin MAX_PARTITIONS}
    {k k' : Kernel} (hok : recoverMutexes h target k = .ok k') : Keeps F [] k k' := by
  obtain ⟨l, k2, hloop, rfl⟩ := recoverMutexes_ok hok
  have hkeeps : Keeps F [] { k with mutexLock := l } k2 := recoverLoop_keeps hloop
  have hlock : Keeps F [] k { k with mutexLock := l } := .of_eq rfl rfl
  exact (hkeeps.after hlock).and_then (.of_eq rfl rfl)

section Pieces
variable {P : Platform} {F : Word → Prop} {h : Hart} {t : Trap} {k k1 : Kernel}

theorem savedSps_setSavedSp_self (s : BitMapScheduler) (i : Fin MAX_PARTITIONS) (sp : Word)
    (hi : (s.taskTable i).isSome) : savedSps (s.setSavedSp i sp) i = some sp := by
  obtain ⟨tcb, htcb⟩ := Option.isSome_iff_exists.mp hi
  simp [savedSps, BitMapScheduler.setSavedSp, htcb]

/-- The context switch that ends a handler. -/
theorem switch_leaves {cycles userSp : Word} {isTick : Bool} (hkeeps : Keeps F [] k k1)
    (hu : Untouched k k1) (hreg : ((view k1).state ((view k1).running h)).isSome) :
    Leaves F [] h userSp k (.ok (switchTask P h cycles isTick userSp k1)) := by
  have hreg' := current_registered hreg
  refine Leaves.after ?_ hkeeps hu
  rcases BitMapScheduler.schedule_cases (b := isTick) hreg' with
    ⟨r, hsched, -⟩ | ⟨n, tcb, -, -, htcb, hsched⟩
  · simp only [switchTask, hsched]
    exact .stays (.setSched fun _ => rfl) (.setSched rfl fun _ => rfl)
  · have hnew : savedSpOf k1 (h, n) = some tcb.savedSp := by
      have hn : savedSps (((k1.scheds h).spendTick isTick).swapTo n) n = some tcb.savedSp := by
        rw [savedSps, htcb]
        rfl
      simpa [savedSpOf] using hn
    have hsaved : savedSps ((((k1.scheds h).spendTick isTick).swapTo n).setSavedSp
        (k1.scheds h).currentPartitionIdx userSp) (k1.scheds h).currentPartitionIdx = some userSp := by
      apply savedSps_setSavedSp_self
      simpa using hreg'
    simp only [switchTask, hsched, BitMapScheduler.swapTo_currentPartitionIdx, htcb]
    refine ⟨⟨fun x => ?_, fun _ _ => rfl, rfl, rfl, rfl, ?_⟩, Or.inr ⟨?_, ?_⟩⟩
    · exact fixedOf_setSched (fun j => by simp [Kernel.logTelemetry]) x
    · simp [transfers, Kernel.setSched, Kernel.logTelemetry, Kernel.setPmp]
    · simpa [Kernel.current, Kernel.setPmp] using hnew
    · simpa [savedSpOf, Kernel.current, Kernel.setPmp] using hsaved

theorem blockCaller_leaves (hk : Sound k) (st : TaskState) :
    Leaves F [] h t.userSp k (blockCaller P h t st k) := by
  obtain ⟨tcb, htcb⟩ := hk.running_isSome h
  unfold blockCaller
  simp only [htcb]
  refine switch_leaves (.setState _ _ _ _) (.setState _ _ _ _) ?_
  rw [view_setState, View.isSome_setState]
  exact hk.indexed.running h

theorem finishLock_leaves (hF : ∀ a, F a → ¬ InRange (slot t.userSp 6) 4 a) {r : Word × Kernel}
    {runningIdx : Fin MAX_PARTITIONS} (hr : Leaves F [] h t.userSp k (.ok r)) :
    Leaves F [] h t.userSp k (finishLock h t runningIdx r) := by
  unfold finishLock
  split
  · trivial
  · split
    · exact hr
    · exact hr.and_then (.writeFrame hF _ _) (.of_eq rfl rfl)

theorem lockMutex_leaves (hk : Sound k) (hF : ∀ a, F a → ¬ InRange (slot t.userSp 6) 4 a) (capIdx : Word) :
    Leaves F [] h t.userSp k (lockMutex P h t capIdx k) := by
  obtain ⟨r, hr, -⟩ := grantedMutex_eq hk h capIdx (Or.inl rfl)
  have hr' : grantedMutex { k with mutexLock := ⟨some h, 1#32⟩ } h capIdx lockRight = .ok r := hr
  unfold lockMutex
  simp only [lockMutexes_eq h hk.mutexLock, hr']
  cases r with
  | none =>
    refine .stays (Keeps.and_then ?_ (.writeFrame hF _ _)) (.of_eq rfl rfl)
    exact .of_eq rfl rfl
  | some im =>
    obtain ⟨i, m⟩ := im
    dsimp only
    split
    · exact finishLock_leaves hF (.stays (.of_eq rfl rfl) (.of_eq rfl rfl))
    · refine finishLock_leaves hF (switch_leaves ?_ ?_ ?_)
      · exact (Keeps.setState k h _ (.blockedOnMutex (BitVec.ofNat 8 i.val))).and_then
          (.of_eq rfl rfl)
      · exact (Untouched.setState k h _ (.blockedOnMutex (BitVec.ofNat 8 i.val))).then_eq rfl rfl
      · simp only [view_unlockMutexes, view_setMutex, view_setState]
        exact (View.isSome_setState _ _ _ _).trans (hk.indexed.running h)

/-- The waiter an unlocked mutex is handed to. -/
def Effect.heir (v : View) : Effect → Option TaskId
  | .release i => (v.mutexes i).bind fun m => (BitSet.least m.waitersBitmap).map waiterTask
  | _ => Option.none

theorem releaseMutex_keeps (hk : Sound k) {i : Fin 8} {m : KernelMutex} (hm : k.mutexes i = some m)
    (hheir : ∀ y sp, (Effect.release i).heir (view k) = some y → savedSpOf k y = some sp →
      ∀ a, F a → InRange (slot sp 6) 4 a → k.mem a = 0#8) {k2 : Kernel}
    (hok : releaseMutex h i m { k with mutexLock := ⟨some h, 1#32⟩ } = .ok k2) : Keeps F [] k k2 := by
  have hmv : (view k).mutexes i = some m := hm
  have hscan : highestWaiter { k with mutexLock := ⟨some h, 1#32⟩ } m.waitersBitmap =
      .ok (BitSet.least m.waitersBitmap) :=
    highestWaiter_eq hk.indexed.priority fun w hw => hk.indexed.waiters i m hmv w hw
  unfold releaseMutex at hok
  rw [hscan] at hok
  cases hl : BitSet.least m.waitersBitmap with
  | none =>
    rw [hl] at hok
    rw [← Except.ok.inj hok]
    exact .of_eq rfl rfl
  | some w =>
    rw [hl] at hok
    unfold handOff at hok
    dsimp only at hok
    split at hok
    · cases hok
    · rename_i tcb htcb
      have hsp : savedSpOf k (waiterTask w) = some tcb.savedSp := by
        have htcb' : (k.scheds (waiterHart w)).taskTable w = some tcb := htcb
        simp [savedSpOf, savedSps, waiterTask, htcb']
      have hzero := hheir (waiterTask w) tcb.savedSp (by simp [Effect.heir, hmv, hl]) hsp
      have hset : Keeps F [] k (k.setState (waiterHart w) w .ready) := .setState _ _ _ _
      have hwrite : Keeps F [] (k.setState (waiterHart w) w .ready)
          ((k.setState (waiterHart w) w .ready).writeFrame tcb.savedSp 6 0#32) := by
        refine .setMem fun a ha => ?_
        by_cases hin : InRange (slot tcb.savedSp 6) 4 a
        · rw [writeWord_zero _ hin]
          exact (hzero a ha hin).symm
        · exact writeWord_of_not_inRange _ _ hin
      rw [← Except.ok.inj hok]
      split
      · exact (hset.and_then hwrite).and_then (.of_eq rfl rfl)
      · exact (hset.and_then hwrite).and_then (.of_eq rfl rfl)

theorem unlockMutex_leaves (hk : Sound k) (hF : ∀ a, F a → ¬ InRange (slot t.userSp 6) 4 a) (capIdx : Word)
    (hheir : ∀ y sp, (unlockEffect k h capIdx).heir (view k) = some y → savedSpOf k y = some sp →
      ∀ a, F a → InRange (slot sp 6) 4 a → k.mem a = 0#8) :
    Leaves F [] h t.userSp k (unlockMutex P h t capIdx k) := by
  obtain ⟨r, hr, hmutex⟩ := grantedMutex_eq hk h capIdx (Or.inr rfl)
  have hr' : grantedMutex { k with mutexLock := ⟨some h, 1#32⟩ } h capIdx unlockRight = .ok r := hr
  unfold unlockMutex
  unfold unlockEffect at hheir
  simp only [lockMutexes_eq h hk.mutexLock, hr']
  cases r with
  | none =>
    refine .stays (Keeps.and_then ?_ (.writeFrame hF _ _)) (.of_eq rfl rfl)
    exact .of_eq rfl rfl
  | some im =>
    obtain ⟨i, m⟩ := im
    have hm : k.mutexes i = some m := (hmutex i m rfl).1
    simp only [hr] at hheir
    dsimp only
    split
    · rename_i ho
      obtain ⟨k2, hk2, hview, -, -, hu⟩ := releaseMutex_eq (h := h) hk hm ho
      simp only [hk2]
      have hswitch : Leaves F [] h t.userSp k (.ok (switchTask P h t.cycles false t.userSp k2)) := by
        refine switch_leaves (releaseMutex_keeps hk hm hheir hk2) hu ?_
        rw [hview]
        exact (hk.indexed.release i).running h
      exact hswitch.and_then (.writeFrame hF _ _) (.of_eq rfl rfl)
    · trivial

/-! ### IPC -/

/-- The endpoint a send or a receive is made on, if the caller's C-list grants it. -/
def transferEndpoint (k : Kernel) (h : Hart) (t : Trap) : Option Byte :=
  if t.mcause = ECALL_UMODE then
    match (k.readFrame t.userSp 13).toNat with
    | 6 => (granted k h (k.readFrame t.userSp 6) sendRight).toOption.join
    | 7 => (granted k h (k.readFrame t.userSp 6) recvRight).toOption.join
    | _ => none
  else none

/-- The telemetry event of a rendezvous. -/
def planLog (e? : Option Byte) (p? : Option Plan) : List (Byte × Byte) :=
  match e?, p? with
  | some e, some p => [(e, p.len.setWidth 8)]
  | _, _ => []

theorem copyBytes_outside {r : PmpRegs} {n : ℕ} {src dst a : Word} {m : Memory}
    (ha : ¬ InRange dst n a) :
    (∀ m', copyBytes P r n src dst m = .ok m' → m' a = m a) ∧
      ∀ cause m', copyBytes P r n src dst m = .error (cause, m') → m' a = m a := by
  induction n generalizing src dst m with
  | zero =>
    refine ⟨fun m' hm' => ?_, fun cause m' hm' => by cases hm'⟩
    rw [Except.ok.inj hm']
  | succ n ih =>
    have hdst : a ≠ dst := by
      rintro rfl
      exact ha (by simp [InRange])
    have hrest : ¬ InRange (dst + 1#32) n a := by
      intro hin
      obtain ⟨j, hj, rfl⟩ := inRange_iff.mp hin
      refine ha (inRange_iff.mpr ⟨1 + j, by omega, ?_⟩)
      rw [BitVec.add_assoc, BitVec.ofNat_add]
    have hupd : (Function.update m dst (m src)) a = m a := Function.update_of_ne hdst _ _
    obtain ⟨hok, herr⟩ := @ih (src + 1#32) (dst + 1#32) (Function.update m dst (m src)) hrest
    unfold copyBytes
    split
    · split
      · exact ⟨fun m' hm' => (hok m' hm').trans hupd, fun c m' hm' => (herr c m' hm').trans hupd⟩
      · refine ⟨fun m' hm' => (by cases hm'), fun cause m' hm' => ?_⟩
        rw [(Prod.mk.inj (Except.error.inj hm')).2]
    · refine ⟨fun m' hm' => (by cases hm'), fun cause m' hm' => ?_⟩
      rw [(Prod.mk.inj (Except.error.inj hm')).2]

/-- A copy between ranges that do not overlap. -/
theorem copyBytes_apply {r : PmpRegs} {n : ℕ} {src dst : Word} {m m' : Memory} (hn : n < 2 ^ 32)
    (hdisj : ∀ j < n, ¬ InRange dst n (src + BitVec.ofNat 32 j))
    (hok : copyBytes P r n src dst m = .ok m') {j : ℕ} (hj : j < n) :
    m' (dst + BitVec.ofNat 32 j) = m (src + BitVec.ofNat 32 j) := by
  have hshift : ∀ (a : Word) (i : ℕ), a + 1#32 + BitVec.ofNat 32 i = a + BitVec.ofNat 32 (i + 1) := by
    intro a i
    rw [BitVec.add_assoc, BitVec.ofNat_add, BitVec.add_comm (1#32)]
  induction n generalizing src dst m j with
  | zero => omega
  | succ n ih =>
    have hcopy : copyBytes P r n (src + 1#32) (dst + 1#32) (Function.update m dst (m src)) = .ok m' := by
      unfold copyBytes at hok
      split at hok
      · split at hok
        · exact hok
        · cases hok
      · cases hok
    cases j with
    | zero =>
      have hout : ¬ InRange (dst + 1#32) n dst := by
        intro hin
        have hsub : dst - (dst + 1#32) = -1#32 := by
          rw [BitVec.sub_eq_add_neg, BitVec.neg_add]
          simp [BitVec.sub_eq_add_neg]
        rw [InRange, hsub] at hin
        have hmax : (-1#32 : Word).toNat = 2 ^ 32 - 1 := by decide
        omega
      have h0 := (copyBytes_outside hout).1 m' hcopy
      rw [Function.update_self] at h0
      simpa using h0
    | succ j =>
      have hne : src + BitVec.ofNat 32 (j + 1) ≠ dst := by
        intro he
        exact hdisj (j + 1) hj (he ▸ by simp [InRange])
      have hrest : ∀ i < n, ¬ InRange (dst + 1#32) n (src + 1#32 + BitVec.ofNat 32 i) := by
        intro i hi hin
        obtain ⟨q, hq, he⟩ := inRange_iff.mp hin
        refine hdisj (i + 1) (by omega) (inRange_iff.mpr ⟨q + 1, by omega, ?_⟩)
        rw [← hshift, he, hshift]
      have hih := ih (by omega) hrest hcopy (by omega : j < n)
      rw [hshift, hshift] at hih
      rw [hih, Function.update_of_ne hne]

theorem rendezvous_leaves (hF : ∀ a, F a → ¬ InRange (slot t.userSp 6) 4 a) {e : Byte}
    {src dst len mine theirs : Word} {y : TaskId} (hcopy : ∀ a, F a → ¬ InRange dst len.toNat a)
    (hpartner : ∀ sp, savedSpOf k y = some sp → ∀ a, F a → ¬ InRange (slot sp 6) 4 a) :
    Leaves F [(e, len.setWidth 8)] h t.userSp k
      (rendezvous P h t e src dst len y mine theirs k) := by
  unfold rendezvous
  split
  · trivial
  · rename_i tcb htcb
    have hsp : savedSpOf k y = some tcb.savedSp := by simp [savedSpOf, savedSps, htcb]
    split
    · rename_i cause m hm
      exact Keeps.setMem fun a ha => (copyBytes_outside (hcopy a ha)).2 cause m hm
    · rename_i m hm
      have hmem : Keeps F [] k (k.setMem m) :=
        .setMem fun a ha => (copyBytes_outside (hcopy a ha)).1 m hm
      have hset : Keeps F [] (k.setMem m) ((k.setMem m).setState y.1 y.2 .ready) :=
        .setState _ _ _ _
      have htheirs : Keeps F [] ((k.setMem m).setState y.1 y.2 .ready)
          (((k.setMem m).setState y.1 y.2 .ready).writeFrame tcb.savedSp 6 theirs) :=
        .setMem fun a ha => writeWord_of_not_inRange _ _ (hpartner _ hsp a ha)
      have hmine : Keeps F [] (((k.setMem m).setState y.1 y.2 .ready).writeFrame tcb.savedSp 6 theirs)
          ((((k.setMem m).setState y.1 y.2 .ready).writeFrame tcb.savedSp 6 theirs).writeFrame
            t.userSp 6 mine) := .writeFrame hF _ _
      have hall := ((hmem.and_then hset).and_then htheirs).and_then hmine
      have hlog : ∀ k1 : Kernel, Keeps F [(e, len.setWidth 8)] k1
          (k1.logTelemetry (.ipcTransfer e (len.setWidth 8))) := fun k1 =>
        ⟨fun _ => rfl, fun _ _ => rfl, rfl, rfl, rfl, by simp [transfers, Kernel.logTelemetry]⟩
      have hstate : Untouched k (k.setState y.1 y.2 .ready) := .setState ..
      split
      · exact .stays (((hlog _).after hall).and_then (.of_eq rfl rfl)) (hstate.then_eq rfl rfl)
      · exact .stays ((hlog _).after hall) (hstate.then_eq rfl rfl)

theorem sendMessage_leaves (hk : Sound k) (hF : ∀ a, F a → ¬ InRange (slot t.userSp 6) 4 a)
    {capIdx msgAddr msgLen : Word}
    (hcopy : ∀ p, sendPlan k h capIdx msgAddr msgLen = some p →
      ∀ a, F a → ¬ InRange p.dst p.len.toNat a)
    (hpartner : ∀ p sp, sendPlan k h capIdx msgAddr msgLen = some p →
      savedSpOf k p.receiver = some sp → ∀ a, F a → ¬ InRange (slot sp 6) 4 a) :
    Leaves F (planLog (granted k h capIdx sendRight).toOption.join
      (sendPlan k h capIdx msgAddr msgLen)) h t.userSp k
      (sendMessage P h t capIdx msgAddr msgLen k) := by
  obtain ⟨r, hr, -⟩ := granted_eq hk h capIdx sendRight
  unfold sendMessage
  unfold sendPlan at hcopy hpartner ⊢
  simp only [hr] at hcopy hpartner ⊢
  cases r with
  | none => exact .stays (.writeFrame hF _ _) (.of_eq rfl rfl)
  | some e =>
    cases hf : findPartner (waitingReceiver e) k with
    | none =>
      simp only [hf]
      exact blockCaller_leaves hk _
    | some y =>
      obtain ⟨ph, pi, bufAddr, maxLen⟩ := y
      simp only [hf, Option.map_some] at hcopy hpartner ⊢
      exact rendezvous_leaves hF (hcopy _ rfl) fun sp => hpartner _ sp rfl

theorem receiveMessage_leaves (hk : Sound k) (hF : ∀ a, F a → ¬ InRange (slot t.userSp 6) 4 a)
    {capIdx bufAddr maxLen : Word}
    (hcopy : ∀ p, recvPlan k h capIdx bufAddr maxLen = some p →
      ∀ a, F a → ¬ InRange p.dst p.len.toNat a)
    (hpartner : ∀ p sp, recvPlan k h capIdx bufAddr maxLen = some p →
      savedSpOf k p.sender = some sp → ∀ a, F a → ¬ InRange (slot sp 6) 4 a) :
    Leaves F (planLog (granted k h capIdx recvRight).toOption.join
      (recvPlan k h capIdx bufAddr maxLen)) h t.userSp k
      (receiveMessage P h t capIdx bufAddr maxLen k) := by
  obtain ⟨r, hr, -⟩ := granted_eq hk h capIdx recvRight
  unfold receiveMessage
  unfold recvPlan at hcopy hpartner ⊢
  simp only [hr] at hcopy hpartner ⊢
  cases r with
  | none => exact .stays (.writeFrame hF _ _) (.of_eq rfl rfl)
  | some e =>
    cases hf : findPartner (waitingSender e) k with
    | none =>
      simp only [hf]
      exact blockCaller_leaves hk _
    | some y =>
      obtain ⟨ph, pi, msgAddr, msgLen⟩ := y
      simp only [hf, Option.map_some] at hcopy hpartner ⊢
      exact rendezvous_leaves hF (hcopy _ rfl) fun sp => hpartner _ sp rfl

/-! ### Termination and interrupts -/

theorem terminateTask_leaves (hk : Sound k) (hF : ∀ a, F a → ¬ InRange (slot t.userSp 6) 4 a)
    (targetPrio : Word) : Leaves F [] h t.userSp k (terminateTask P h t targetPrio k) := by
  unfold terminateTask
  cases hf : findTask k targetPrio with
  | none => exact .stays (.writeFrame hF _ _) (.of_eq rfl rfl)
  | some x =>
    obtain ⟨foundHart, target⟩ := x
    obtain ⟨k2, hk2, -, hv2, -, -, hu⟩ := kill_eq (h := h) hk (foundHart, target)
    simp only [hk2]
    have hset : Keeps F [] k (k.setState foundHart target .terminated) := .setState _ _ _ _
    have hrec : Keeps F [] k (k2.writeFrame t.userSp 6 0#32) :=
      (hset.and_then (recoverMutexes_keeps hk2)).and_then (.writeFrame hF _ _)
    split
    · exact .stays (hrec.and_then (.of_eq rfl rfl)) (hu.then_eq rfl rfl)
    · split
      · exact switch_leaves hrec (hu.then_eq rfl rfl) (hv2.running h)
      · exact .stays hrec (hu.then_eq rfl rfl)

theorem terminateRunning_leaves (hk : Sound k) :
    Leaves F [] h t.userSp k (terminateRunning P h t k) := by
  obtain ⟨tcb, htcb⟩ := hk.running_isSome h
  obtain ⟨k2, hk2, -, hv2, -, -, hu⟩ := kill_eq (h := h) hk (h, k.current h)
  unfold terminateRunning
  simp only [htcb, hk2]
  have hset : Keeps F [] k (k.setState h (k.current h) .terminated) := .setState _ _ _ _
  exact switch_leaves (hset.and_then (recoverMutexes_keeps hk2)) hu (hv2.running h)

theorem containFault_leaves (hk : Sound k) : Leaves F [] h t.userSp k (containFault P h t k) := by
  unfold containFault
  refine Leaves.after (withSchedLock_leaves fun l => terminateRunning_leaves ?_) ?_ ?_
  · exact hk.congr rfl hk.mutexLock
  · exact ⟨fun _ => rfl, fun _ _ => rfl, rfl, rfl, rfl, by simp [transfers, Kernel.logTelemetry]⟩
  · exact .of_eq rfl rfl

theorem timerInterrupt_leaves (hk : Sound k) :
    Leaves F [] h t.userSp { k with tickCount := k.tickCount + 1#32 } (timerInterrupt P h t k) := by
  unfold timerInterrupt
  refine withSchedLock_leaves fun l => switch_leaves ?_ ?_ ?_
  · exact .setSched fun j => fixedParts_wakeSleepers _ j _
  · exact .setSched rfl fun j => savedSps_wakeSleepers _ j _
  · exact registered_of_apply (e := .tick (k.tickCount + 1#32)) hk (view_wakeSleepers _)

theorem softwareInterrupt_leaves (hk : Sound k) :
    Leaves F [] h t.userSp k (softwareInterrupt P h t k) := by
  unfold softwareInterrupt
  refine Leaves.after (withSchedLock_leaves fun l => ?_) (.of_eq rfl rfl) (.of_eq rfl rfl)
  exact switch_leaves (.refl _ _) (.of_eq rfl rfl) (hk.indexed.running h)

theorem frameIdx_lt {instruction : Word} {idx : ℕ} (hidx : frameIdx instruction = some idx) :
    idx < 28 := by
  unfold frameIdx at hidx
  have hrd : ((instruction >>> 7) &&& 0x1F#32).toNat ≤ 31 := by
    rw [BitVec.toNat_and]
    exact Nat.and_le_right
  dsimp only at hidx
  split at hidx
  · rw [← Option.some.inj hidx]
    omega
  · split at hidx
    · rw [← Option.some.inj hidx]
      omega
    · cases hidx

end Pieces

/-! ## Every trap -/

/-- The clocks after a trap: a timer interrupt counts a tick, syscall 5 notes the tick of the
caller's check-in. -/
def clocked (k : Kernel) (h : Hart) (t : Trap) : Kernel :=
  if t.mcause = TIMER_INTERRUPT then { k with tickCount := k.tickCount + 1#32 }
  else if t.mcause = ECALL_UMODE ∧ (k.readFrame t.userSp 13).toNat = 5 then
    { k with lastCheckin := Function.update k.lastCheckin (k.current h) k.tickCount }
  else k

/-- The clocks are all that `clocked` changes. -/
theorem clocked_untouched (k : Kernel) (h : Hart) (t : Trap) :
    Untouched k (clocked k h t) ∧ (clocked k h t).mem = k.mem ∧ (clocked k h t).trace = k.trace ∧
      (clocked k h t).testCounter = k.testCounter ∧ ∀ x, fixedOf (clocked k h t) x = fixedOf k x := by
  unfold clocked
  split
  · exact ⟨.of_eq rfl rfl, rfl, rfl, rfl, fun _ => rfl⟩
  · split
    · exact ⟨.of_eq rfl rfl, rfl, rfl, rfl, fun _ => rfl⟩
    · exact ⟨.of_eq rfl rfl, rfl, rfl, rfl, fun _ => rfl⟩

/-- No write of the trap reaches the byte: it is outside the caller's frame, the copied bytes and the
result word of the partner. The result word of the waiter that gets an unlocked mutex is set to 0. -/
structure Spared (k : Kernel) (h : Hart) (t : Trap) (a : Word) : Prop where
  frame : ¬ InRange t.userSp 128 a
  copy : ∀ p, transferPlan k h t = some p → ¬ InRange p.dst p.len.toNat a
  partner : ∀ p y sp, transferPlan k h t = some p → (y = p.sender ∨ y = p.receiver) →
    savedSpOf k y = some sp → ¬ InRange (slot sp 6) 4 a
  heir : ∀ y sp, (effect k h t).heir (view k) = some y → savedSpOf k y = some sp →
    InRange (slot sp 6) 4 a → k.mem a = 0#8

section Trap
variable {P : Platform} {h : Hart} {t : Trap} {k : Kernel}

theorem sysYield_leaves {F : Word → Prop} (hk : Sound k) :
    Leaves F [] h t.userSp k (sysYield P h t k) := by
  unfold sysYield
  exact withSchedLock_leaves fun l =>
    switch_leaves (.refl _ _) (.of_eq rfl rfl) ((hk.withSchedLock l).indexed.running h)

theorem sysSleep_leaves {F : Word → Prop} (hk : Sound k) :
    Leaves F [] h t.userSp k (sysSleep P h t k) := by
  unfold sysSleep
  exact withSchedLock_leaves fun l => blockCaller_leaves (hk.withSchedLock l) _

theorem sysCheckin_leaves {F : Word → Prop} :
    Leaves F [] h t.userSp
      { k with lastCheckin := Function.update k.lastCheckin (k.current h) k.tickCount }
      (sysCheckin h t k) := by
  unfold sysCheckin withSchedLock
  cases k.schedLock.lock h with
  | none => trivial
  | some l => exact .stays (.of_eq rfl rfl) (.of_eq rfl rfl)

theorem planLog_none (e? : Option Byte) : planLog e? none = [] := by
  cases e? <;> rfl

/-- The syscalls that write a result into the caller's `a0`. -/
def givesResult (k : Kernel) (t : Trap) : Prop :=
  t.mcause = ECALL_UMODE ∧ (k.readFrame t.userSp 13).toNat ∈ [3, 4, 6, 7, 8]

instance (k : Kernel) (t : Trap) : Decidable (givesResult k t) := inferInstanceAs (Decidable (_ ∧ _))

/-- The instruction at the saved pc is a counter read that the handler emulates. -/
def emulates (k : Kernel) (t : Trap) : Prop :=
  t.mcause = 2#32 ∧ readsCounter (k.mem.readWord (k.readFrame t.userSp 28)) = true

instance (k : Kernel) (t : Trap) : Decidable (emulates k t) := inferInstanceAs (Decidable (_ ∧ _))

/-- The writes to the caller's own frame, but for the result of a syscall: the saved pc moves past an
`ecall` or a counter read, and the destination of a counter read is written. -/
def ownWrites (k : Kernel) (t : Trap) : Kernel :=
  if t.mcause = ECALL_UMODE then k.writeFrame t.userSp 28 (k.readFrame t.userSp 28 + 4#32)
  else if emulates k t then emulateCounter t k (k.mem.readWord (k.readFrame t.userSp 28))
  else k

/-- No write of the trap but the ones of `ownWrites` reaches the byte. -/
structure Unwritten (k : Kernel) (h : Hart) (t : Trap) (a : Word) : Prop where
  result : givesResult k t → ¬ InRange (slot t.userSp 6) 4 a
  copy : ∀ p, transferPlan k h t = some p → ¬ InRange p.dst p.len.toNat a
  partner : ∀ y sp, effect k h t = .transfer y → savedSpOf k y = some sp → ¬ InRange (slot sp 6) 4 a
  heir : ∀ y sp, (effect k h t).heir (view k) = some y → savedSpOf k y = some sp →
    InRange (slot sp 6) 4 a → (ownWrites k t).mem a = 0#8

theorem ipcEffect_send_iff {capIdx msgAddr msgLen : Word} {st : Byte → TaskState} {y : TaskId} :
    ipcEffect k h capIdx sendRight waitingReceiver st = .transfer y ↔
      ∃ p, sendPlan k h capIdx msgAddr msgLen = some p ∧ p.receiver = y := by
  unfold sendPlan ipcEffect
  split
  · rename_i e hg
    cases hf : findPartner (waitingReceiver e) k <;> simp
  · simp

theorem ipcEffect_recv_iff {capIdx bufAddr maxLen : Word} {st : Byte → TaskState} {y : TaskId} :
    ipcEffect k h capIdx recvRight waitingSender st = .transfer y ↔
      ∃ p, recvPlan k h capIdx bufAddr maxLen = some p ∧ p.sender = y := by
  unfold recvPlan ipcEffect
  split
  · rename_i e hg
    cases hf : findPartner (waitingSender e) k <;> simp
  · simp

theorem effect_of_ecall (hecall : t.mcause = ECALL_UMODE) : effect k h t = ecallEffect k h t := by
  rw [effect, if_neg (by rw [hecall]; decide), if_neg (by rw [hecall]; decide), if_pos hecall]

theorem ownWrites_of_ecall (hecall : t.mcause = ECALL_UMODE) :
    ownWrites k t = k.writeFrame t.userSp 28 (k.readFrame t.userSp 28 + 4#32) := by
  rw [ownWrites, if_pos hecall]

theorem ownWrites_of_ne (hecall : t.mcause ≠ ECALL_UMODE) (hem : ¬ emulates k t) :
    ownWrites k t = k := by
  rw [ownWrites, if_neg hecall, if_neg hem]

/-- Only a send or a receive meets a partner. -/
theorem plan_of_transfer {y : TaskId} (he : effect k h t = .transfer y) :
    ∃ p, transferPlan k h t = some p ∧ (y = p.sender ∨ y = p.receiver) := by
  have hecall : t.mcause = ECALL_UMODE := by
    by_contra hne
    unfold effect at he
    rw [if_neg hne] at he
    split_ifs at he
  rw [effect_of_ecall hecall] at he
  unfold transferPlan
  unfold ecallEffect at he
  rw [if_pos hecall]
  dsimp only at he
  split at he
  · cases he
  · cases he
  · unfold lockEffect at he
    split at he
    · split at he <;> cases he
    · cases he
  · unfold unlockEffect at he
    split at he <;> cases he
  · rename_i hid
    obtain ⟨p, hp, hy⟩ := ipcEffect_send_iff.mp he
    exact ⟨p, by simpa only [hid] using hp, Or.inr hy.symm⟩
  · rename_i hid
    obtain ⟨p, hp, hy⟩ := ipcEffect_recv_iff.mp he
    exact ⟨p, by simpa only [hid] using hp, Or.inl hy.symm⟩
  · split at he <;> cases he
  · cases he

/-- The handler of an environment call, from the kernel in which the saved pc has moved. -/
theorem ecall_leaves (hk : Sound k) (hecall : t.mcause = ECALL_UMODE)
    (hid : 1 ≤ (k.readFrame t.userSp 13).toNat ∧ (k.readFrame t.userSp 13).toNat ≤ 8) :
    Leaves (Unwritten k h t) (planLog (transferEndpoint k h t) (transferPlan k h t)) h t.userSp
      (clocked (ownWrites k t) h t) (ecall P h t k) := by
  have hresult := fun hres a (ha : Unwritten k h t a) => ha.result hres
  have hcopy := fun p hp a (ha : Unwritten k h t a) => ha.copy p hp
  have hpartner := fun y sp hy hsp a (ha : Unwritten k h t a) => ha.partner y sp hy hsp
  have hheir := fun y sp hy hsp a (ha : Unwritten k h t a) => ha.heir y sp hy hsp
  have hne : t.mcause ≠ TIMER_INTERRUPT := by
    rw [hecall]
    decide
  rw [effect_of_ecall hecall] at hheir hpartner
  rw [ownWrites_of_ecall hecall] at hheir ⊢
  unfold givesResult at hresult
  unfold ecall clocked
  rw [if_neg hne, readFrame_writePc _ _ _ (i := 13) (by omega)]
  unfold transferEndpoint
  unfold transferPlan at hcopy ⊢
  unfold ecallEffect at hheir hpartner
  simp only [if_pos hecall] at hcopy ⊢
  simp only [hecall, true_and] at hresult ⊢
  generalize k.readFrame t.userSp 28 + 4#32 = v at hheir ⊢
  have hk0 : Sound (k.writeFrame t.userSp 28 v) := hk.congr rfl hk.mutexLock
  generalize Unwritten k h t = F at *
  rcases syscallId_cases hid with hn | hn | hn | hn | hn | hn | hn | hn
  · simp only [hn, Nat.reduceEqDiff, if_false]
    exact sysYield_leaves hk0
  · simp only [hn, Nat.reduceEqDiff, if_false]
    exact sysSleep_leaves hk0
  · simp only [hn, Nat.reduceEqDiff, if_false]
    exact withSchedLock_leaves fun l => lockMutex_leaves (hk0.withSchedLock l) (hresult (by simp [hn])) _
  · simp only [hn, Nat.reduceEqDiff, if_false] at hheir ⊢
    unfold sysUnlock
    simp (disch := omega) only [readFrame_writePc]
    exact withSchedLock_leaves fun l => unlockMutex_leaves (hk0.withSchedLock l) (hresult (by simp [hn])) _
      hheir
  · simp only [hn, if_true]
    exact sysCheckin_leaves
  · simp only [hn, Nat.reduceEqDiff, if_false] at hcopy hpartner ⊢
    unfold sysSend
    simp (disch := omega) only [readFrame_writePc]
    exact withSchedLock_leaves fun l => sendMessage_leaves (hk0.withSchedLock l) (hresult (by simp [hn]))
      hcopy fun p sp hp hsp => hpartner p.receiver sp (ipcEffect_send_iff.mpr ⟨p, hp, rfl⟩) hsp
  · simp only [hn, Nat.reduceEqDiff, if_false] at hcopy hpartner ⊢
    unfold sysRecv
    simp (disch := omega) only [readFrame_writePc]
    exact withSchedLock_leaves fun l => receiveMessage_leaves (hk0.withSchedLock l)
      (hresult (by simp [hn])) hcopy
      fun p sp hp hsp => hpartner p.sender sp (ipcEffect_recv_iff.mpr ⟨p, hp, rfl⟩) hsp
  · simp only [hn, Nat.reduceEqDiff, if_false]
    exact withSchedLock_leaves fun l =>
      terminateTask_leaves (hk0.withSchedLock l) (hresult (by simp [hn])) _

theorem clocked_of_ne (htimer : t.mcause ≠ TIMER_INTERRUPT)
    (hid : ¬ (t.mcause = ECALL_UMODE ∧ (k.readFrame t.userSp 13).toNat = 5)) :
    clocked k h t = k := by
  rw [clocked, if_neg htimer, if_neg hid]

/-- Every trap, from the kernel in which it has written its own frame. -/
theorem trap_leaves_own (hk : Sound k) :
    Leaves (Unwritten k h t) (planLog (transferEndpoint k h t) (transferPlan k h t)) h t.userSp
      (clocked (ownWrites k t) h t) (trapHandler P h t k) := by
  unfold trapHandler
  by_cases hecall : t.mcause = ECALL_UMODE
  · have htimer : t.mcause ≠ TIMER_INTERRUPT := by
      rw [hecall]
      decide
    rw [if_neg htimer, if_neg (by rw [hecall]; decide), if_pos hecall]
    by_cases hid : 1 ≤ (k.readFrame t.userSp 13).toNat ∧ (k.readFrame t.userSp 13).toNat ≤ 8
    · exact ecall_leaves hk hecall hid
    · have hread : (ownWrites k t).readFrame t.userSp 13 = k.readFrame t.userSp 13 := by
        rw [ownWrites_of_ecall hecall]
        exact readFrame_writePc k _ _ (by omega)
      rw [(ecall_unknown hid).1, transferPlan_eq_none hid, planLog_none,
        clocked_of_ne htimer fun h5 => hid (by rw [hread] at h5; omega), ownWrites_of_ecall hecall]
      exact .stays (.refl _ _) (.of_eq rfl rfl)
  · rw [transferPlan_of_ne hecall, planLog_none]
    have hem : ∀ {cause}, t.mcause = cause → cause ≠ 2#32 → ownWrites k t = k := fun hc hne =>
      ownWrites_of_ne hecall fun hem => hne (hc.symm.trans hem.1)
    by_cases htimer : t.mcause = TIMER_INTERRUPT
    · rw [if_pos htimer, hem htimer (by decide), clocked, if_pos htimer]
      exact timerInterrupt_leaves hk
    · rw [if_neg htimer, if_neg hecall, clocked_of_ne htimer fun h5 => hecall h5.1]
      split
      · rename_i hsoft
        rw [hem hsoft (by decide)]
        exact softwareInterrupt_leaves hk
      · unfold exception
        dsimp only
        split
        · rename_i hcsr
          rw [ownWrites, if_neg hecall, if_pos (show emulates k t from hcsr)]
          exact .stays (.refl _ _) (.of_eq rfl rfl)
        · rename_i hcsr
          rw [ownWrites_of_ne hecall hcsr]
          split
          · exact containFault_leaves hk
          · trivial

theorem ownWrites_keeps (k : Kernel) (h : Hart) (t : Trap) :
    Keeps (fun a => ¬ InRange t.userSp 128 a) [] (clocked k h t) (clocked (ownWrites k t) h t) := by
  have hframe : ∀ i < 32, ∀ a, ¬ InRange t.userSp 128 a → ¬ InRange (slot t.userSp i) 4 a :=
    fun i hi a ha hin => ha (hin.of_slot (by omega))
  unfold ownWrites
  split
  · rename_i hecall
    have hv := Keeps.writeFrame (hframe 28 (by omega)) k (k.readFrame t.userSp 28 + 4#32)
    unfold clocked
    simp (disch := omega) only [readFrame_writePc]
    split
    · exact ⟨hv.fixed, hv.mem, rfl, rfl, rfl, hv.transfers⟩
    · split
      · exact ⟨hv.fixed, hv.mem, rfl, rfl, rfl, hv.transfers⟩
      · exact hv
  · split
    · rename_i hecall hem
      have htimer : t.mcause ≠ TIMER_INTERRUPT := by
        rw [hem.1]
        decide
      rw [clocked_of_ne htimer fun h5 => hecall h5.1, clocked_of_ne htimer fun h5 => hecall h5.1]
      unfold emulateCounter
      cases hidx : frameIdx (k.mem.readWord (k.readFrame t.userSp 28)) with
      | none => exact .writeFrame (hframe 28 (by omega)) _ _
      | some idx =>
        exact (Keeps.writeFrame (hframe idx ((frameIdx_lt hidx).trans (by decide))) _ _).and_then
          (.writeFrame (hframe 28 (by omega)) _ _)
    · exact .refl _ _

theorem ownWrites_outside {a : Word} (ha : ¬ InRange t.userSp 128 a) :
    (ownWrites k t).mem a = k.mem a := by
  have hkeeps := (ownWrites_keeps k 0 t).mem a ha
  rw [(clocked_untouched _ _ _).2.1, (clocked_untouched _ _ _).2.1] at hkeeps
  exact hkeeps

theorem ownWrites_untouched (k : Kernel) (t : Trap) : Untouched k (ownWrites k t) := by
  unfold ownWrites emulateCounter
  split
  · exact .of_eq rfl rfl
  · split
    · split <;> exact .of_eq rfl rfl
    · exact .of_eq rfl rfl

theorem Spared.unwritten {a : Word} (ha : Spared k h t a) : Unwritten k h t a where
  result := fun _ hin => ha.frame (hin.of_slot (by omega))
  copy := ha.copy
  partner := fun y sp hy hsp => by
    obtain ⟨p, hp, hside⟩ := plan_of_transfer hy
    exact ha.partner p y sp hp hside hsp
  heir := fun y sp hy hsp hin =>
    (ownWrites_outside ha.frame).trans (ha.heir y sp hy hsp hin)

theorem trap_leaves (hk : Sound k) :
    Leaves (Spared k h t) (planLog (transferEndpoint k h t) (transferPlan k h t)) h t.userSp
      (clocked k h t) (trapHandler P h t k) := by
  have hu := (ownWrites_untouched k t).trans (clocked_untouched (ownWrites k t) h t).1
  have hu0 := (clocked_untouched k h t).1
  have hbetween : Untouched (clocked k h t) (clocked (ownWrites k t) h t) :=
    ⟨hu.pmp.trans hu0.pmp.symm, hu.current.trans hu0.current.symm,
      fun x => (hu.savedSp x).trans (hu0.savedSp x).symm⟩
  exact ((trap_leaves_own hk).mono fun _ ha => ha.unwritten).after
    ((ownWrites_keeps k h t).mono fun _ ha => ha.frame) hbetween

theorem mem_of_unwritten (hk : Sound k) {sp a : Word} {k' : Kernel}
    (hok : trapHandler P h t k = .ok (sp, k')) (ha : Unwritten k h t a) :
    k'.mem a = (ownWrites k t).mem a := by
  have hleaves := trap_leaves_own (P := P) (h := h) (t := t) hk
  rw [hok] at hleaves
  rw [hleaves.1.mem a ha, (clocked_untouched _ _ _).2.1]

theorem mem_of_copyFault (hk : Sound k) {cause a : Word} {kf : Kernel}
    (hf : trapHandler P h t k = .error (.copyFault cause kf)) (ha : Unwritten k h t a) :
    kf.mem a = (ownWrites k t).mem a := by
  have hleaves := trap_leaves_own (P := P) (h := h) (t := t) hk
  rw [hf] at hleaves
  rw [Keeps.mem hleaves a ha, (clocked_untouched _ _ _).2.1]

theorem resumes_of_ok (hk : Sound k) {sp : Word} {k' : Kernel}
    (hok : trapHandler P h t k = .ok (sp, k')) : Resumes h t.userSp k sp k' := by
  have hleaves := trap_leaves (P := P) (h := h) (t := t) hk
  rw [hok] at hleaves
  exact hleaves.2.after (clocked_untouched k h t).1

end Trap

/-! ## The rendezvous of a trap -/

theorem withSchedLock_congr {h : Hart} {k : Kernel} {body body' : Kernel → Outcome}
    (hb : ∀ l, body { k with schedLock := l } = body' { k with schedLock := l }) :
    withSchedLock h k body = withSchedLock h k body' := by
  unfold withSchedLock
  cases k.schedLock.lock h with
  | none => rfl
  | some l => simp only [hb l]

theorem trapHandler_of_ecall (P : Platform) {k : Kernel} {h : Hart} {t : Trap}
    (hecall : t.mcause = ECALL_UMODE) : trapHandler P h t k = ecall P h t k := by
  rw [trapHandler, if_neg (by rw [hecall]; decide), if_neg (by rw [hecall]; decide), if_pos hecall]

/-- The handler's own view of a plan: the partner, and the `a0` of the caller and of the partner. -/
inductive Plan.Sides (p : Plan) (caller : TaskId) : TaskId → Word → Word → Prop where
  | sends (hsender : p.sender = caller) : Sides p caller p.receiver 0#32 p.len
  | receives (hreceiver : p.receiver = caller) : Sides p caller p.sender p.len 0#32

/-- A trap with a plan is the rendezvous of that plan. -/
theorem trapHandler_eq_rendezvous (P : Platform) {k : Kernel} {h : Hart} {t : Trap} {p : Plan}
    (hp : transferPlan k h t = some p) :
    ∃ endpointIdx partner mine theirs, transferEndpoint k h t = some endpointIdx ∧
      effect k h t = .transfer partner ∧ p.Sides (h, k.current h) partner mine theirs ∧
      trapHandler P h t k =
        withSchedLock h (k.writeFrame t.userSp 28 (k.readFrame t.userSp 28 + 4#32))
          (rendezvous P h t endpointIdx p.src p.dst p.len partner mine theirs) := by
  unfold transferPlan at hp
  split at hp
  · rename_i hecall
    rw [trapHandler_of_ecall P hecall, effect_of_ecall hecall, transferEndpoint, if_pos hecall]
    unfold ecall ecallEffect
    generalize k.readFrame t.userSp 28 + 4#32 = v
    split at hp
    · rename_i hid
      simp (disch := omega) only [hid, sysSend, readFrame_writePc]
      unfold sendPlan at hp
      split at hp
      · rename_i endpointIdx hg
        obtain ⟨⟨ph, pi, bufAddr, maxLen⟩, hf, rfl⟩ := Option.map_eq_some_iff.mp hp
        refine ⟨endpointIdx, (ph, pi), _, _, by rw [hg]; rfl, by simp only [ipcEffect, hg, hf],
          .sends rfl, withSchedLock_congr fun l => ?_⟩
        have hg' : granted { k.writeFrame t.userSp 28 v with schedLock := l } h
            (k.readFrame t.userSp 6) sendRight = .ok (some endpointIdx) := hg
        have hf' : findPartner (waitingReceiver endpointIdx)
            { k.writeFrame t.userSp 28 v with schedLock := l } = some (ph, pi, bufAddr, maxLen) := hf
        simp only [sendMessage, hg', hf']
      · cases hp
    · rename_i hid
      simp (disch := omega) only [hid, sysRecv, readFrame_writePc]
      unfold recvPlan at hp
      split at hp
      · rename_i endpointIdx hg
        obtain ⟨⟨ph, pi, msgAddr, msgLen⟩, hf, rfl⟩ := Option.map_eq_some_iff.mp hp
        refine ⟨endpointIdx, (ph, pi), _, _, by rw [hg]; rfl, by simp only [ipcEffect, hg, hf],
          .receives rfl, withSchedLock_congr fun l => ?_⟩
        have hg' : granted { k.writeFrame t.userSp 28 v with schedLock := l } h
            (k.readFrame t.userSp 6) recvRight = .ok (some endpointIdx) := hg
        have hf' : findPartner (waitingSender endpointIdx)
            { k.writeFrame t.userSp 28 v with schedLock := l } = some (ph, pi, msgAddr, msgLen) := hf
        simp only [receiveMessage, hg', hf']
      · cases hp
    · cases hp
  · cases hp

/-! ## Every step of the system -/

theorem SysInv.trap_leaves {P : Platform} {s : System} (hs : SysInv s) {h : Hart} {t : Trap}
    {m : Memory} {sp : Word} {k' : Kernel}
    (hok : trapHandler P h t (s.kernel.setMem m) = .ok (sp, k')) :
    Keeps (Spared (s.kernel.setMem m) h t)
        (planLog (transferEndpoint (s.kernel.setMem m) h t) (transferPlan (s.kernel.setMem m) h t))
        (clocked (s.kernel.setMem m) h t) k' ∧
      Resumes h t.userSp (s.kernel.setMem m) sp k' := by
  have hleaves := Kernel.trap_leaves (P := P) (h := h) (t := t) (hs.sound m)
  rw [hok] at hleaves
  exact ⟨hleaves.1, resumes_of_ok (hs.sound m) hok⟩

/-- The kernel the trap of a copy fault finds. -/
theorem SysInv.nested {P : Platform} {s : System} (hs : SysInv s) {h : Hart} {t : Trap} {m : Memory}
    {cause : Word} {kf : Kernel}
    (hf : trapHandler P h t (s.kernel.setMem m) = .error (.copyFault cause kf)) (m' : Memory) :
    Sound (kf.setMem m') ∧ (cause = 5#32 ∨ cause = 7#32) ∧ view (kf.setMem m') = view s.kernel ∧
      Untouched s.kernel (kf.setMem m') := by
  obtain ⟨hcause, hview, hmutex, -, hu⟩ := of_copyFault (hs.sound m) hf
  have hsound : Sound (kf.setMem m') := (hs.sound m).congr hview (hmutex ▸ hs.mutexLock)
  have hset : Untouched s.kernel (s.kernel.setMem m) := .of_eq rfl rfl
  exact ⟨hsound, hcause, hview, (hset.trans hu).then_eq rfl rfl⟩

theorem SysInv.trap_mem {P : Platform} {s : System} (hs : SysInv s) {h : Hart} {t : Trap}
    {m : Memory} {sp : Word} {k' : Kernel}
    (hok : trapHandler P h t (s.kernel.setMem m) = .ok (sp, k')) {a : Word}
    (ha : Spared (s.kernel.setMem m) h t a) : k'.mem a = m a := by
  rw [(hs.trap_leaves hok).1.mem a ha, (clocked_untouched _ _ _).2.1]
  rfl

/-- The trap of a copy fault terminates the caller: it writes nothing outside its frame. -/
theorem SysInv.nested_mem {P : Platform} {s : System} (hs : SysInv s) {h : Hart} {t t' : Trap}
    {m m' : Memory} {kf k' : Kernel} {sp : Word}
    (hf : trapHandler P h t (s.kernel.setMem m) = .error (.copyFault t'.mcause kf))
    (hok : trapHandler P h t' (kf.setMem m') = .ok (sp, k')) {a : Word}
    (ha : ¬ InRange t'.userSp 128 a) : k'.mem a = m' a := by
  obtain ⟨hsound, hcause, -, -⟩ := hs.nested hf m'
  have hnone : transferPlan (kf.setMem m') h t' = none := transferPlan_of_fault hcause
  have hspared : Spared (kf.setMem m') h t' a := by
    refine ⟨ha, fun p hp => ?_, fun p y sp hp => ?_, fun y sp hy => ?_⟩
    · rw [hnone] at hp
      cases hp
    · rw [hnone] at hp
      cases hp
    · rw [effect_of_fault hcause] at hy
      cases hy
  have hleaves := Kernel.trap_leaves (P := P) (h := h) (t := t') hsound
  rw [hok] at hleaves
  rw [hleaves.1.mem a hspared, (clocked_untouched _ _ _).2.1]
  rfl

theorem fixedOf_restart (P : Platform) (st : StackTask) (h : Hart) (i : Fin MAX_PARTITIONS)
    (k : Kernel) (x : TaskId) : fixedOf (restart P st h i k) x = fixedOf k x :=
  fixedOf_setSched (k := k.setMem _) (fun j => by simp [Kernel.setMem]) x

/-- Registration alone writes the rest of a control block. -/
theorem fixedOf_step {P : Platform} {s s' : System} {ev : Event} (hs : SysInv s)
    (hstep : Step P s ev s') (x : TaskId) : fixedOf s'.kernel x = fixedOf s.kernel x := by
  have hcases := stepKernel_of_step hstep
  generalize s'.kernel = k' at hcases
  cases hcases with
  | @trap h t m sp _ hok =>
    rw [(hs.trap_leaves hok).1.fixed, (clocked_untouched _ _ _).2.2.2.2]
    rfl
  | @nested h t t' m m' kf _ _ hf hok =>
    have hfault := trap_leaves (P := P) (h := h) (t := t) (hs.sound m)
    rw [hf] at hfault
    have hkill := trap_leaves (P := P) (h := h) (t := t') (hs.nested hf m').1
    rw [hok] at hkill
    have hfixed : fixedOf kf x = fixedOf (s.kernel.setMem m) x := by
      rw [hfault.fixed, (clocked_untouched _ _ _).2.2.2.2]
    rw [hkill.1.fixed, (clocked_untouched _ _ _).2.2.2.2]
    exact hfixed
  | lock _ => rfl
  | restartTaskC _ =>
    unfold restartTaskC
    split
    · exact fixedOf_restart P .taskC 1 3 _ x
    · rfl
  | restartHsm _ =>
    unfold restartHsm
    split
    · exact fixedOf_restart P .hsm 0 4 _ x
    · rfl
  | unlock _ => rfl

end Cerberus.Kernel
