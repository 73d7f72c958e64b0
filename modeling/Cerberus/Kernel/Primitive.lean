import Mathlib.Logic.Relation
import Cerberus.Mutex.Placement

/-! # What handlers are made of

Whatever a handler decides, it acts on the kernel by a few kinds of updates. `trapHandler_makes` goes
through the handlers once; a fact that each kind of update preserves is then a fact about every trap.
Nothing is assumed of the kernel: it may be one in which a hart has not started yet. -/
namespace Cerberus.Kernel
open Scheduler Sync Memory Transition Mutex
set_option autoImplicit false

/-- One update that a handler on hart `h` makes. The swap event is part of `switch_task`. -/
inductive Update (P : Platform) (h : Hart) : Kernel → Kernel → Prop where
  | locks {k : Kernel} (s m : Spinlock) : Update P h k { k with schedLock := s, mutexLock := m }
  | mem {k : Kernel} (m : Memory) : Update P h k (k.setMem m)
  | mutex {k : Kernel} (i : Fin 8) (m : KernelMutex) : Update P h k (k.setMutex i m)
  | state {k : Kernel} (x : TaskId) (st : TaskState) : Update P h k (k.setState x.1 x.2 st)
  | checkin {k : Kernel} : Update P h k
      { k with lastCheckin := Function.update k.lastCheckin (k.current h) k.tickCount }
  | wake {k : Kernel} (now : Word) : Update P h k (k.setSched h (wakeSleepers now (k.scheds h)))
  | log {k : Kernel} {e : TraceEvent} (he : ∀ src dst cycles, e ≠ .taskSwap src dst cycles) :
      Update P h k (k.logTelemetry e)
  | signal {k : Kernel} (h' : Hart) : Update P h k (k.setMsip h' true)
  | switch {k : Kernel} (cycles : Word) (isTick : Bool) (sp : Word) :
      Update P h k (switchTask P h cycles isTick sp k).2

/-- Any number of updates. -/
abbrev Made (P : Platform) (h : Hart) : Kernel → Kernel → Prop := Relation.ReflTransGen (Update P h)

/-- The kernel an outcome leaves is made from `k`. -/
def Makes (P : Platform) (h : Hart) (k : Kernel) : Outcome → Prop
  | .ok (_, k') => Made P h k k'
  | .error (.copyFault _ kf) => Made P h k kf
  | .error _ => True

section Pieces
variable {P : Platform} {h : Hart} {t : Trap} {k k1 : Kernel} {o : Outcome}

theorem Makes.after (ho : Makes P h k1 o) (hk : Made P h k k1) : Makes P h k o := by
  cases o with
  | ok r => exact hk.trans ho
  | error e =>
    cases e with
    | copyFault cause kf => exact Relation.ReflTransGen.trans hk ho
    | _ => trivial

theorem Makes.of_error {α : Type} {r : Except Stop α} (hr : NoCopyFault r) {e : Stop} (he : r = .error e) :
    Makes P h k (.error e) := by
  cases e with
  | copyFault cause kf => exact absurd he (hr cause kf)
  | _ => trivial

theorem Makes.and_then {r : Word × Kernel} {sp : Word} {k' : Kernel} (hr : Makes P h k (.ok r))
    (hk : Made P h r.2 k') : Makes P h k (.ok (sp, k')) :=
  Relation.ReflTransGen.trans hr hk

theorem Made.single (hu : Update P h k k1) : Made P h k k1 := Relation.ReflTransGen.single hu

theorem Made.writeFrame (k : Kernel) (sp : Word) (i : ℕ) (v : Word) :
    Made P h k (k.writeFrame sp i v) := .single (.mem _)

theorem Made.unlockMutexes (k : Kernel) : Made P h k (unlockMutexes k) :=
  .single (.locks k.schedLock k.mutexLock.unlock)

theorem Made.lockMutexes (k : Kernel) (l : Spinlock) : Made P h k { k with mutexLock := l } :=
  .single (.locks k.schedLock l)

theorem withSchedLock_makes {body : Kernel → Outcome}
    (hbody : ∀ l, Makes P h { k with schedLock := l } (body { k with schedLock := l })) :
    Makes P h k (withSchedLock h k body) := by
  unfold withSchedLock
  cases k.schedLock.lock h with
  | none => trivial
  | some l =>
    have hlock : Made P h k { k with schedLock := l } := .single (.locks l k.mutexLock)
    have hl := (hbody l).after hlock
    dsimp only
    generalize body { k with schedLock := l } = o at hl
    cases o with
    | ok r => exact hl.and_then (.single (.locks r.2.schedLock.unlock r.2.mutexLock))
    | error e => exact hl

theorem blockCaller_makes (st : TaskState) (k : Kernel) : Makes P h k (blockCaller P h t st k) := by
  unfold blockCaller
  split
  · trivial
  · have hset : Made P h k (k.setState h (k.current h) st) := .single (.state (h, k.current h) st)
    exact hset.tail (.switch _ _ _)

theorem finishLock_makes {runningIdx : Fin MAX_PARTITIONS} {r : Word × Kernel}
    (hr : Made P h k r.2) : Makes P h k (finishLock h t runningIdx r) := by
  unfold finishLock
  split
  · trivial
  · split
    · exact hr
    · exact hr.trans (Made.writeFrame _ _ _ _)

theorem lockMutexes_cases (h : Hart) (k : Kernel) :
    lockMutexes h k = .error .spinning ∨ ∃ l, lockMutexes h k = .ok { k with mutexLock := l } := by
  unfold lockMutexes
  cases k.mutexLock.lock h with
  | none => exact Or.inl rfl
  | some l => exact Or.inr ⟨l, rfl⟩

theorem lockMutex_makes (capIdx : Word) (k : Kernel) :
    Makes P h k (lockMutex P h t capIdx k) := by
  unfold lockMutex
  rcases lockMutexes_cases h k with hl | ⟨l, hl⟩
  · simp only [hl]
    trivial
  simp only [hl]
  refine Makes.after ?_ (.lockMutexes k l)
  split
  · exact .of_error (grantedMutex_noCopyFault _ _ _ _) ‹_›
  · exact (Made.unlockMutexes _).trans (Made.writeFrame _ _ _ _)
  · rename_i i m _
    split
    · exact finishLock_makes ((Made.single (.mutex i _)).trans (Made.unlockMutexes _))
    · refine finishLock_makes (Relation.ReflTransGen.tail ?_ (.switch _ _ _))
      have hblock := Made.single (P := P) (h := h) (k := { k with mutexLock := l })
        (.state (h, k.current h) (.blockedOnMutex (BitVec.ofNat 8 i.val)))
      exact (hblock.tail (.mutex i _)).trans (Made.unlockMutexes _)

theorem releaseMutex_makes {i : Fin 8} {m : KernelMutex} {k' : Kernel}
    (hok : releaseMutex h i m k = .ok k') : Made P h k k' := by
  unfold releaseMutex at hok
  split at hok
  · cases hok
  · rw [← Except.ok.inj hok]
    exact (Made.single (.mutex i _)).trans (Made.unlockMutexes _)
  · rename_i w _
    unfold handOff at hok
    split at hok
    · cases hok
    · rename_i tcb _
      have hready := (Made.single (P := P) (h := h) (k := k)
        (.mutex i { m.handTo w with locked := m.locked })).tail (.state (waiterHart w, w) .ready)
      have hresult := (hready.trans (Made.writeFrame _ tcb.savedSp 6 0#32)).trans (Made.unlockMutexes _)
      rw [← Except.ok.inj hok]
      split
      · exact hresult.tail (.signal _)
      · exact hresult

theorem unlockMutex_makes (capIdx : Word) (k : Kernel) :
    Makes P h k (unlockMutex P h t capIdx k) := by
  unfold unlockMutex
  rcases lockMutexes_cases h k with hl | ⟨l, hl⟩
  · simp only [hl]
    trivial
  simp only [hl]
  refine Makes.after ?_ (.lockMutexes k l)
  split
  · exact .of_error (grantedMutex_noCopyFault _ _ _ _) ‹_›
  · exact (Made.unlockMutexes _).trans (Made.writeFrame _ _ _ _)
  · split
    · split
      · exact .of_error (releaseMutex_noCopyFault _ _ _ _) ‹_›
      · rename_i hk2
        exact ((releaseMutex_makes hk2).tail (.switch _ _ _)).trans (Made.writeFrame _ _ _ _)
    · trivial

theorem rendezvous_makes {endpointIdx : Byte} {src dst len mine theirs : Word} {y : TaskId} (k : Kernel) :
    Makes P h k (rendezvous P h t endpointIdx src dst len y mine theirs k) := by
  unfold rendezvous
  split
  · trivial
  · rename_i tcb _
    split
    · exact .single (.mem _)
    · rename_i m _
      have hready := (Made.single (P := P) (h := h) (k := k) (.mem m)).tail (.state y .ready)
      have hresults := (hready.trans (Made.writeFrame _ tcb.savedSp 6 theirs)).trans
        (Made.writeFrame _ t.userSp 6 mine)
      have hlogged := hresults.tail (.log (e := .ipcTransfer endpointIdx (len.setWidth 8))
        fun _ _ _ he => by cases he)
      dsimp only
      split
      · exact hlogged.tail (.signal _)
      · exact hlogged

theorem sendMessage_makes (capIdx msgAddr msgLen : Word) (k : Kernel) :
    Makes P h k (sendMessage P h t capIdx msgAddr msgLen k) := by
  unfold sendMessage
  split
  · exact .of_error (granted_noCopyFault _ _ _ _) ‹_›
  · exact Made.writeFrame _ _ _ _
  · split
    · exact rendezvous_makes k
    · exact blockCaller_makes _ k

theorem receiveMessage_makes (capIdx bufAddr maxLen : Word) (k : Kernel) :
    Makes P h k (receiveMessage P h t capIdx bufAddr maxLen k) := by
  unfold receiveMessage
  split
  · exact .of_error (granted_noCopyFault _ _ _ _) ‹_›
  · exact Made.writeFrame _ _ _ _
  · split
    · exact rendezvous_makes k
    · exact blockCaller_makes _ k

theorem recoverMutex_makes {target : Fin MAX_PARTITIONS} {k' : Kernel} {i : Fin 8}
    (hok : recoverMutex target k i = .ok k') : Made P h k k' := by
  unfold recoverMutex at hok
  split at hok
  · rw [Except.ok.inj hok]
  split at hok
  · split at hok
    · cases hok
    · rw [← Except.ok.inj hok]
      exact .single (.mutex i _)
    · rename_i w _
      rw [← Except.ok.inj hok]
      exact (Made.single (.mutex i _)).tail (.state (waiterHart w, w) .ready)
  · rw [Except.ok.inj hok]

theorem recoverMutexes_makes {target : Fin MAX_PARTITIONS} {k' : Kernel}
    (hok : recoverMutexes h target k = .ok k') : Made P h k k' := by
  obtain ⟨l, k2, hloop, rfl⟩ := recoverMutexes_ok hok
  have hrounds : Made P h { k with mutexLock := l } k2 :=
    foldlM_rel (R := Made P h) (fun _ => .refl) (fun _ _ _ h1 h2 => h1.trans h2)
      (fun _ _ _ hi => recoverMutex_makes hi) hloop
  exact ((Made.lockMutexes k l).trans hrounds).trans (Made.unlockMutexes k2)

theorem kill_makes {x : TaskId} {k2 : Kernel}
    (hk2 : recoverMutexes h x.2 (k.setState x.1 x.2 .terminated) = .ok k2) : Made P h k k2 :=
  (Made.single (.state x .terminated)).trans (recoverMutexes_makes hk2)

theorem terminateTask_makes (targetPrio : Word) (k : Kernel) :
    Makes P h k (terminateTask P h t targetPrio k) := by
  unfold terminateTask
  split
  · exact Made.writeFrame _ _ _ _
  · rename_i foundHart target _
    split
    · exact .of_error (recoverMutexes_noCopyFault _ _ _) ‹_›
    · rename_i k2 hk2
      have hkilled : Made P h k k2 := kill_makes (x := (foundHart, target)) hk2
      have hresult := hkilled.trans (Made.writeFrame _ t.userSp 6 0#32)
      dsimp only
      split
      · exact hresult.tail (.signal _)
      · split
        · exact hresult.tail (.switch _ _ _)
        · exact hresult

theorem terminateRunning_makes (k : Kernel) : Makes P h k (terminateRunning P h t k) := by
  unfold terminateRunning
  dsimp only
  split
  · exact Made.single (.switch _ _ _)
  · split
    · exact .of_error (recoverMutexes_noCopyFault _ _ _) ‹_›
    · rename_i k2 hk2
      have hkilled : Made P h k k2 := kill_makes (x := (h, k.current h)) hk2
      exact hkilled.tail (.switch _ _ _)

end Pieces

section Trap
variable {P : Platform} {h : Hart} {t : Trap} {k : Kernel}

theorem ecall_makes (k : Kernel) : Makes P h k (ecall P h t k) := by
  unfold ecall
  dsimp only
  generalize (k.readFrame t.userSp 13).toNat = n
  generalize k.readFrame t.userSp 28 + 4#32 = v
  refine Makes.after ?_ (Made.writeFrame k t.userSp 28 v)
  split
  · unfold sysYield
    exact withSchedLock_makes fun l => Made.single (.switch _ _ _)
  · unfold sysSleep
    exact withSchedLock_makes fun l => blockCaller_makes _ _
  · unfold sysLock
    exact withSchedLock_makes fun l => lockMutex_makes _ _
  · unfold sysUnlock
    exact withSchedLock_makes fun l => unlockMutex_makes _ _
  · unfold sysCheckin
    exact withSchedLock_makes fun l => Made.single .checkin
  · unfold sysSend
    exact withSchedLock_makes fun l => sendMessage_makes _ _ _ _
  · unfold sysRecv
    exact withSchedLock_makes fun l => receiveMessage_makes _ _ _ _
  · unfold sysTerminate
    exact withSchedLock_makes fun l => terminateTask_makes _ _
  · exact Relation.ReflTransGen.refl

theorem exception_makes (k : Kernel) : Makes P h k (exception P h t k) := by
  unfold exception
  dsimp only
  split
  · unfold emulateCounter
    dsimp only
    split
    · exact (Made.writeFrame k _ _ _).trans (Made.writeFrame _ _ _ _)
    · exact Made.writeFrame k _ _ _
  · split
    · have hlog : Made P h k (k.logTelemetry (.faultInterception t.mcause (k.readFrame t.userSp 28))) :=
        .single (.log fun _ _ _ he => by cases he)
      exact Makes.after (withSchedLock_makes fun l => terminateRunning_makes _) hlog
    · trivial

/-- What an interrupt does before it asks for the lock: the timer counts, the software interrupt clears
the pending bit of its hart. -/
def entered (h : Hart) (t : Trap) (k : Kernel) : Kernel :=
  if t.mcause = TIMER_INTERRUPT then { k with tickCount := k.tickCount + 1#32 }
  else if t.mcause = SOFTWARE_INTERRUPT then k.setMsip h false
  else k

theorem trapHandler_makes (k : Kernel) : Makes P h (entered h t k) (trapHandler P h t k) := by
  unfold trapHandler entered
  split
  · unfold timerInterrupt
    exact withSchedLock_makes fun l => (Made.single (.wake _)).tail (.switch _ _ _)
  · split
    · exact withSchedLock_makes fun _ => .single (.switch _ _ _)
    · split
      · exact ecall_makes k
      · exact exception_makes k

end Trap

/-! ## Facts that updates preserve -/

section Updates
variable {P : Platform} {h : Hart} {k k' : Kernel}

theorem Update.static (hu : Update P h k k') : (view k').static = (view k).static := by
  cases hu with
  | state x st =>
    rw [view_setState]
    rfl
  | wake now =>
    rw [view_wakeSleepers]
    rfl
  | switch cycles isTick sp =>
    rcases switchTask_resched P h cycles isTick sp k with ⟨hv, -⟩ | ⟨n, -, hv⟩
    · rw [hv]
    · rw [hv]
      rfl
  | _ => rfl

theorem Update.tickCount (hu : Update P h k k') : k'.tickCount = k.tickCount := by
  cases hu with
  | switch cycles isTick sp =>
    unfold switchTask
    split
    · rfl
    · dsimp only
      split <;> rfl
  | _ => rfl

theorem Update.msip (hu : Update P h k k') {h' : Hart} (hk : k.msip h' = true) : k'.msip h' = true := by
  cases hu with
  | signal h1 =>
    by_cases hh : h' = h1
    · subst hh
      exact Function.update_self _ _ _
    · exact (Function.update_of_ne hh _ _).trans hk
  | switch cycles isTick sp =>
    unfold switchTask
    split
    · exact hk
    · dsimp only
      split <;> exact hk
  | _ => exact hk

theorem Update.pmp_ne (hu : Update P h k k') {h' : Hart} (hne : h' ≠ h) : k'.pmp h' = k.pmp h' := by
  cases hu with
  | switch cycles isTick sp =>
    unfold switchTask
    split
    · rfl
    · dsimp only
      split
      · exact Function.update_of_ne hne _ _
      · rfl
  | _ => rfl

theorem Update.booted (hu : Update P h k k') {h' : Hart} (hk : Booted (k.pmp h')) :
    Booted (k'.pmp h') := by
  cases hu with
  | switch cycles isTick sp => exact (switchTask_callerOnly P h cycles isTick sp k).pmp h' hk
  | _ => exact hk

end Updates

theorem made_preserves {P : Platform} {h : Hart} {k k' : Kernel} {I : Kernel → Prop}
    (hupdate : ∀ k k', I k → Update P h k k' → I k') (hI : I k) (hm : Made P h k k') : I k' := by
  induction hm with
  | refl => exact hI
  | tail _ hu ih => exact hupdate _ _ ih hu

/-- What every update preserves, every trap preserves from its entry on. -/
theorem trap_preserves {P : Platform} {h : Hart} {t : Trap} {k : Kernel} {I : Kernel → Prop}
    (hupdate : ∀ k k', I k → Update P h k k' → I k') (hI : I (entered h t k)) :
    (∀ sp k', trapHandler P h t k = .ok (sp, k') → I k') ∧
      ∀ cause kf, trapHandler P h t k = .error (.copyFault cause kf) → I kf := by
  have hm := trapHandler_makes (P := P) (h := h) (t := t) k
  refine ⟨fun sp k' hok => ?_, fun cause kf hf => ?_⟩
  · rw [hok] at hm
    exact made_preserves hupdate hI hm
  · rw [hf] at hm
    exact made_preserves hupdate hI hm

/-! ## Steps of the system -/

/-- The hart on which an event happens; the Watchdog is on core 0. -/
def Event.hart : Event → Hart
  | .trap h _ _ => h
  | .nestedTrap h _ _ _ _ => h
  | _ => 0

def Event.traps : Event → List Trap
  | .trap _ t _ => [t]
  | .nestedTrap _ t _ t' _ => [t, t']
  | _ => []

/-- One change of the kernel by an event: by a handler on its hart, or by the Watchdog's pass. -/
inductive Change (P : Platform) (ev : Event) : Kernel → Kernel → Prop where
  | handler {k k' : Kernel} (hu : Update P ev.hart k k') : Change P ev k k'
  | enter {k : Kernel} {t : Trap} (ht : t ∈ ev.traps) : Change P ev k (entered ev.hart t k)
  | counter {k : Kernel} : Change P ev k { k with testCounter := k.testCounter + 1#32 }
  | restart {k : Kernel} (st : StackTask) (h : Hart) (i : Fin MAX_PARTITIONS) :
      Change P ev k (restart P st h i k)

section Changes
variable {P : Platform} {ev : Event} {k k' : Kernel}

/-- What an entry and a restart leave as it is, besides what the handlers keep. -/
theorem Change.rule {I : Kernel → Prop} (hc : Change P ev k k') (hI : I k)
    (hupdate : ∀ k k', I k → Update P ev.hart k k' → I k')
    (hticks : ∀ k n, I k → I { k with tickCount := n })
    (hmsip : ∀ k, (∃ t ∈ ev.traps, t.mcause = SOFTWARE_INTERRUPT) → I k → I (k.setMsip ev.hart false))
    (hcounter : ∀ k n, I k → I { k with testCounter := n })
    (hrestart : ∀ st h i k, I k → I (Kernel.restart P st h i k)) : I k' := by
  cases hc with
  | handler hu => exact hupdate _ _ hI hu
  | @enter t ht =>
    unfold entered
    split
    · exact hticks _ _ hI
    · split
      · exact hmsip _ ⟨t, ht, ‹_›⟩ hI
      · exact hI
  | counter => exact hcounter _ _ hI
  | restart st h i => exact hrestart st h i _ hI

theorem Change.static (hc : Change P ev k k') : (view k').static = (view k).static :=
  hc.rule (I := fun u => (view u).static = (view k).static) rfl (fun _ _ hk hu => hu.static.trans hk)
    (fun _ _ => id) (fun _ _ => id) (fun _ _ => id) fun st h i u hu => by
      rw [view_restart]
      exact hu

theorem Change.pmp_ne (hc : Change P ev k k') {h : Hart} (hne : h ≠ ev.hart) : k'.pmp h = k.pmp h :=
  hc.rule (I := fun u => u.pmp h = k.pmp h) rfl (fun _ _ hk hu => (hu.pmp_ne hne).trans hk)
    (fun _ _ => id) (fun _ _ => id) (fun _ _ => id) fun _ _ _ _ => id

theorem Change.booted (hc : Change P ev k k') {h : Hart} (hk : Booted (k.pmp h)) : Booted (k'.pmp h) :=
  hc.rule (I := fun u => Booted (u.pmp h)) hk (fun _ _ hk hu => hu.booted hk)
    (fun _ _ => id) (fun _ _ => id) (fun _ _ => id) fun _ _ _ _ => id

theorem Change.msip (hc : Change P ev k k') (hs : ∀ t ∈ ev.traps, t.mcause ≠ SOFTWARE_INTERRUPT) {h : Hart}
    (hk : k.msip h = true) : k'.msip h = true :=
  hc.rule (I := fun u => u.msip h = true) hk (fun _ _ hk hu => hu.msip hk) (fun _ _ => id)
    (fun _ ⟨t, ht, hsoft⟩ _ => absurd hsoft (hs t ht)) (fun _ _ => id) fun _ _ _ _ => id

end Changes

/-- What every change preserves, every step preserves. -/
theorem step_preserves {P : Platform} {I : Kernel → Prop} {s s' : System} {ev : Event}
    (hI : ∀ k k', I k → Change P ev k k' → I k') (hs : I s.kernel) (hstep : Step P s ev s') :
    I s'.kernel := by
  have hkernel := stepKernel_of_step hstep
  generalize s'.kernel = k' at hkernel ⊢
  have hmem : ∀ {k : Kernel} (m : Memory), I k → I (k.setMem m) :=
    fun m hk => hI _ _ hk (.handler (.mem m))
  have hlocks : ∀ {k : Kernel} (l : Spinlock), I k → I { k with schedLock := l } :=
    fun {k} l hk => hI _ _ hk (.handler (.locks l k.mutexLock))
  have htrap : ∀ {t : Trap} {k : Kernel}, t ∈ ev.traps → I k →
      (∀ sp k', trapHandler P ev.hart t k = .ok (sp, k') → I k') ∧
        ∀ cause kf, trapHandler P ev.hart t k = .error (.copyFault cause kf) → I kf :=
    fun ht hk => trap_preserves (fun _ _ hk hu => hI _ _ hk (.handler hu)) (hI _ _ hk (.enter ht))
  cases hkernel with
  | trap hok => exact (htrap List.mem_cons_self (hmem _ hs)).1 _ _ hok
  | nested hf hok =>
    have hkf := (htrap List.mem_cons_self (hmem _ hs)).2 _ _ hf
    exact (htrap (List.mem_cons_of_mem _ List.mem_cons_self) (hmem _ hkf)).1 _ _ hok
  | lock => exact hlocks _ hs
  | restartTaskC =>
    unfold restartTaskC
    split
    · exact hI _ _ (hI _ _ hs .counter) (.restart _ _ _)
    · exact hs
  | restartHsm =>
    unfold restartHsm
    split
    · exact hI _ _ hs (.restart _ _ _)
    · exact hs
  | unlock => exact hlocks _ hs

end Cerberus.Kernel
