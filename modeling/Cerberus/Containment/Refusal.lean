import Cerberus.Containment.HoldCount
import Cerberus.Memory.WriteXorExecute
import Cerberus.Mutex.Placement

/-! # Refused syscalls

A syscall that is refused returns -1 in `a0` and moves the saved pc; nothing else is to change. The two
spinlocks are taken and released on the way. `MUTEX_LOCK` is free before and after every trap;
`SCHED_LOCK` comes back as it was unless its hold count has wrapped around. -/
namespace Cerberus.Containment
open Kernel Scheduler Sync Memory Transition Mutex
set_option autoImplicit false

/-! ## `MUTEX_LOCK` between two traps -/

/-- The outcome leaves `MUTEX_LOCK` as it is at boot. -/
def FreesMutexLock : Outcome → Prop
  | .ok (_, k') => k'.mutexLock = Spinlock.new
  | .error (.copyFault _ kf) => kf.mutexLock = Spinlock.new
  | .error _ => True

section MutexLock
variable {P : Platform} {h : Hart} {t : Trap} {k : Kernel}

theorem switchTask_mutexLock (P : Platform) (h : Hart) (cycles : Word) (isTick : Bool) (sp : Word)
    (k : Kernel) : (switchTask P h cycles isTick sp k).2.mutexLock = k.mutexLock := by
  unfold switchTask
  split
  · rfl
  · split <;> rfl

theorem frees_switch {cycles sp : Word} {isTick : Bool} (hk : k.mutexLock = Spinlock.new) :
    FreesMutexLock (.ok (switchTask P h cycles isTick sp k)) :=
  (switchTask_mutexLock P h cycles isTick sp k).trans hk

theorem frees_withSchedLock {body : Kernel → Outcome} (hk : k.mutexLock = Spinlock.new)
    (hbody : ∀ k1, k1.mutexLock = Spinlock.new → FreesMutexLock (body k1)) :
    FreesMutexLock (withSchedLock h k body) :=
  withSchedLock_rule trivial (fun _ _ hr => hr) fun l => hbody { k with schedLock := l } hk

theorem lockMutexes_new (hk : k.mutexLock = Spinlock.new) :
    lockMutexes h k = .ok { k with mutexLock := ⟨some h, 1#32⟩ } :=
  lockMutexes_eq h (by rw [hk]; rfl)

theorem frees_blockCaller (hk : k.mutexLock = Spinlock.new) (st : TaskState) :
    FreesMutexLock (blockCaller P h t st k) := by
  unfold blockCaller
  split
  · trivial
  · exact frees_switch hk

theorem frees_finishLock {runningIdx : Fin MAX_PARTITIONS} {r : Word × Kernel}
    (hr : r.2.mutexLock = Spinlock.new) : FreesMutexLock (finishLock h t runningIdx r) := by
  unfold finishLock
  split
  · trivial
  · split <;> exact hr

theorem frees_error {α : Type} {r : Except Stop α} (hr : NoCopyFault r) {e : Stop} (he : r = .error e) :
    FreesMutexLock (.error e) := by
  cases e with
  | copyFault cause kf => exact absurd he (hr cause kf)
  | _ => trivial

theorem frees_lockMutex (hk : k.mutexLock = Spinlock.new) (capIdx : Word) :
    FreesMutexLock (lockMutex P h t capIdx k) := by
  unfold lockMutex
  simp only [lockMutexes_new hk]
  split
  · exact frees_error (grantedMutex_noCopyFault _ h _ _) ‹_›
  · exact unlock_held h
  · split
    · exact frees_finishLock (unlock_held h)
    · refine frees_finishLock ?_
      rw [switchTask_mutexLock]
      exact unlock_held h

theorem releaseMutex_mutexLock {i : Fin 8} {m : KernelMutex} {k2 : Kernel}
    (hk : k.mutexLock = ⟨some h, 1#32⟩) (hok : releaseMutex h i m k = .ok k2) :
    k2.mutexLock = Spinlock.new := by
  have hunlock : k.mutexLock.unlock = Spinlock.new := by
    rw [hk]
    exact unlock_held h
  unfold releaseMutex at hok
  split at hok
  · cases hok
  · obtain rfl := Except.ok.inj hok
    exact hunlock
  · unfold handOff at hok
    split at hok
    · cases hok
    · obtain rfl := Except.ok.inj hok
      split <;> exact hunlock

theorem frees_unlockMutex (hk : k.mutexLock = Spinlock.new) (capIdx : Word) :
    FreesMutexLock (unlockMutex P h t capIdx k) := by
  unfold unlockMutex
  simp only [lockMutexes_new hk]
  split
  · exact frees_error (grantedMutex_noCopyFault _ h _ _) ‹_›
  · exact unlock_held h
  · split
    · split
      · exact frees_error (releaseMutex_noCopyFault _ h _ _) ‹_›
      · rename_i hrel
        exact (switchTask_mutexLock ..).trans (releaseMutex_mutexLock rfl hrel)
    · trivial

theorem recoverMutex_mutexLock {target : Fin MAX_PARTITIONS} {i : Fin 8} {k2 : Kernel}
    (hok : recoverMutex target k i = .ok k2) : k2.mutexLock = k.mutexLock := by
  unfold recoverMutex at hok
  split at hok
  · rw [Except.ok.inj hok]
  split at hok
  · split at hok
    · cases hok
    · rw [← Except.ok.inj hok]
      rfl
    · rw [← Except.ok.inj hok]
      rfl
  · rw [Except.ok.inj hok]

theorem recoverMutexes_mutexLock (hk : k.mutexLock = Spinlock.new) {target : Fin MAX_PARTITIONS}
    {k2 : Kernel} (hok : recoverMutexes h target k = .ok k2) : k2.mutexLock = Spinlock.new := by
  unfold recoverMutexes at hok
  simp only [lockMutexes_new hk] at hok
  split at hok
  · cases hok
  · rename_i k3 hloop
    obtain rfl := Except.ok.inj hok
    have hsame : k3.mutexLock = ⟨some h, 1#32⟩ :=
      foldlM_rel (R := fun a b : Kernel => b.mutexLock = a.mutexLock) (fun _ => rfl)
        (fun _ _ _ h1 h2 => h2.trans h1) (fun _ _ _ hone => recoverMutex_mutexLock hone) hloop
    show k3.mutexLock.unlock = _
    rw [hsame]
    exact unlock_held h

theorem frees_terminateTask (hk : k.mutexLock = Spinlock.new) (targetPrio : Word) :
    FreesMutexLock (terminateTask P h t targetPrio k) := by
  unfold terminateTask
  split
  · exact hk
  · split
    · exact frees_error (recoverMutexes_noCopyFault _ h _) ‹_›
    · rename_i hrec
      have hfree := recoverMutexes_mutexLock (k := k.setState _ _ .terminated) hk hrec
      dsimp only
      split
      · exact hfree
      · split
        · exact frees_switch hfree
        · exact hfree

theorem frees_terminateRunning (hk : k.mutexLock = Spinlock.new) :
    FreesMutexLock (terminateRunning P h t k) := by
  unfold terminateRunning
  dsimp only
  split
  · exact frees_switch hk
  · split
    · exact frees_error (recoverMutexes_noCopyFault _ h _) ‹_›
    · rename_i hrec
      exact frees_switch (recoverMutexes_mutexLock (k := k.setState _ _ .terminated) hk hrec)

theorem frees_rendezvous (hk : k.mutexLock = Spinlock.new) (endpointIdx : Byte) (src dst len : Word)
    (x : TaskId) (mine theirs : Word) :
    FreesMutexLock (rendezvous P h t endpointIdx src dst len x mine theirs k) := by
  unfold rendezvous
  split
  · trivial
  · split
    · exact hk
    · dsimp only
      split <;> exact hk

theorem frees_sendMessage (hk : k.mutexLock = Spinlock.new) (capIdx msgAddr msgLen : Word) :
    FreesMutexLock (sendMessage P h t capIdx msgAddr msgLen k) := by
  unfold sendMessage
  split
  · exact frees_error (granted_noCopyFault _ h _ _) ‹_›
  · exact hk
  · split
    · exact frees_rendezvous hk ..
    · exact frees_blockCaller hk _

theorem frees_receiveMessage (hk : k.mutexLock = Spinlock.new) (capIdx bufAddr maxLen : Word) :
    FreesMutexLock (receiveMessage P h t capIdx bufAddr maxLen k) := by
  unfold receiveMessage
  split
  · exact frees_error (granted_noCopyFault _ h _ _) ‹_›
  · exact hk
  · split
    · exact frees_rendezvous hk ..
    · exact frees_blockCaller hk _

theorem frees_ecall (hk : k.mutexLock = Spinlock.new) : FreesMutexLock (ecall P h t k) := by
  by_cases hid : 1 ≤ (k.readFrame t.userSp 13).toNat ∧ (k.readFrame t.userSp 13).toNat ≤ 8
  · unfold ecall
    dsimp only
    generalize k.readFrame t.userSp 28 + 4#32 = v
    have hk1 : (k.writeFrame t.userSp 28 v).mutexLock = Spinlock.new := hk
    generalize k.writeFrame t.userSp 28 v = k1 at hk1
    rcases syscallId_cases hid with hn | hn | hn | hn | hn | hn | hn | hn <;> simp only [hn]
    · unfold sysYield
      exact frees_withSchedLock hk1 fun _ h2 => frees_switch h2
    · unfold sysSleep
      exact frees_withSchedLock hk1 fun _ h2 => frees_blockCaller h2 _
    · unfold sysLock
      exact frees_withSchedLock hk1 fun _ h2 => frees_lockMutex h2 _
    · unfold sysUnlock
      exact frees_withSchedLock hk1 fun _ h2 => frees_unlockMutex h2 _
    · unfold sysCheckin
      exact frees_withSchedLock hk1 fun _ h2 => h2
    · unfold sysSend
      exact frees_withSchedLock hk1 fun _ h2 => frees_sendMessage h2 _ _ _
    · unfold sysRecv
      exact frees_withSchedLock hk1 fun _ h2 => frees_receiveMessage h2 _ _ _
    · unfold sysTerminate
      exact frees_withSchedLock hk1 fun _ h2 => frees_terminateTask h2 _
  · rw [(ecall_unknown hid).1]
    exact hk

theorem frees_trapHandler (hk : k.mutexLock = Spinlock.new) :
    FreesMutexLock (trapHandler P h t k) := by
  unfold trapHandler
  split
  · unfold timerInterrupt
    exact frees_withSchedLock (k := { k with tickCount := k.tickCount + 1#32 }) hk fun _ h1 =>
      frees_switch (k := Kernel.setSched _ _ _) h1
  split
  · exact frees_withSchedLock (k := k.setMsip h false) hk fun _ h1 => frees_switch h1
  split
  · exact frees_ecall hk
  · unfold exception
    dsimp only
    split
    · unfold emulateCounter
      dsimp only
      split <;> exact hk
    split
    · exact frees_withSchedLock (k := k.logTelemetry _) hk fun _ h1 => frees_terminateRunning h1
    · trivial

theorem frees_of_ok (hk : k.mutexLock = Spinlock.new) {sp : Word} {k' : Kernel}
    (hok : trapHandler P h t k = .ok (sp, k')) : k'.mutexLock = Spinlock.new := by
  have hfrees := frees_trapHandler (P := P) (h := h) (t := t) hk
  rw [hok] at hfrees
  exact hfrees

theorem mutexLock_step {s s' : System} {ev : Event} (hs : s.kernel.mutexLock = Spinlock.new)
    (hstep : Step P s ev s') : s'.kernel.mutexLock = Spinlock.new := by
  have hkernel := stepKernel_of_step hstep
  generalize s'.kernel = k' at hkernel
  cases hkernel with
  | @trap _ _ m _ _ hok => exact frees_of_ok (k := s.kernel.setMem m) hs hok
  | @nested h t _ m m' kf _ _ hf hok =>
    have hfault := frees_trapHandler (P := P) (h := h) (t := t) (k := s.kernel.setMem m) hs
    rw [hf] at hfault
    exact frees_of_ok (k := kf.setMem m') hfault hok
  | lock => exact hs
  | restartTaskC => exact (restartTaskC_step P s.kernel).2.1.2.trans hs
  | restartHsm => exact (restartHsm_step P s.kernel).2.1.2.trans hs
  | unlock => exact hs

/-- `MUTEX_LOCK` is free, with no hold counted, before every trap. -/
theorem mutexLock_run {s s' : System} {es : List Event} (hs : Initial P s)
    (hrun : Run (Step P) s es s') : s'.kernel.mutexLock = Spinlock.new := by
  refine hrun.invariant (I := fun u => u.kernel.mutexLock = Spinlock.new)
    (fun _ _ _ hu hstep => mutexLock_step hu hstep) ?_
  obtain ⟨m, r, -, hboot, -⟩ := hs
  obtain ⟨k, hk, -, hlock, -⟩ := boot_view P m r
  rw [Option.some.inj (hboot.symm.trans hk)]
  exact hlock

end MutexLock

/-! ## The handlers that return -1 -/

/-- A handler that returns -1 in `a0` resumes the caller and has written nothing else. -/
def RefusesCleanly (t : Trap) (k : Kernel) (o : Outcome) : Prop :=
  ∀ sp k', o = .ok (sp, k') → k'.readFrame t.userSp 6 = refused →
    sp = t.userSp ∧ k' = k.writeFrame t.userSp 6 refused

section Refusals
variable {P : Platform} {h : Hart} {t : Trap} {k : Kernel} {capIdx : Word}

theorem refusesCleanly_of_ne {r : Word × Kernel} (hne : r.2.readFrame t.userSp 6 ≠ refused) :
    RefusesCleanly t k (.ok r) := by
  intro sp k' he hres
  obtain rfl : r = (sp, k') := Except.ok.inj he
  exact absurd hres hne

theorem refusesCleanly_error (e : Stop) : RefusesCleanly t k (.error e) := by
  intro sp k' he
  cases he

theorem refusesCleanly_refused : RefusesCleanly t k (.ok (t.userSp, k.writeFrame t.userSp 6 refused)) := by
  intro sp k' he _
  obtain ⟨rfl, rfl⟩ := Prod.mk.inj (Except.ok.inj he)
  exact ⟨rfl, rfl⟩

theorem refusesCleanly_zero {sp : Word} {k1 : Kernel} :
    RefusesCleanly t k (.ok (sp, k1.writeFrame t.userSp 6 0#32)) := by
  refine refusesCleanly_of_ne ?_
  rw [readFrame_writeFrame_self]
  decide

theorem lt_of_granted {right : Capability → Option Byte} {b : Byte}
    (hg : granted k h capIdx right = .ok (some b)) : capIdx.toNat < 8 := by
  unfold granted at hg
  split at hg
  · assumption
  · cases hg

theorem lt_of_grantedMutex {right : Capability → Option Byte} {r : Fin 8 × KernelMutex}
    (hg : grantedMutex k h capIdx right = .ok (some r)) : capIdx.toNat < 8 := by
  unfold grantedMutex at hg
  split at hg
  · cases hg
  · cases hg
  · exact lt_of_granted ‹_›

theorem ne_refused_of_lt (hlt : capIdx.toNat < 8) : capIdx ≠ refused := by
  rintro rfl
  exact absurd hlt (by decide)

/-- `MUTEX_LOCK` taken and released. -/
theorem unlockMutexes_locked (hk : k.mutexLock = Spinlock.new) :
    unlockMutexes { k with mutexLock := ⟨some h, 1#32⟩ } = k := by
  unfold unlockMutexes
  rw [unlock_held, ← hk]

theorem readFrame_switch (cycles sp : Word) (k : Kernel) (a : Word) (i : ℕ) :
    (switchTask P h cycles false sp k).2.readFrame a i = k.readFrame a i := by
  unfold Kernel.readFrame
  rw [(switchTask_same P h cycles false sp k).1]

theorem refusesCleanly_switch {cycles sp : Word} {k1 : Kernel}
    (hne : k1.readFrame t.userSp 6 ≠ refused) :
    RefusesCleanly t k (.ok (switchTask P h cycles false sp k1)) := by
  refine refusesCleanly_of_ne ?_
  rw [readFrame_switch]
  exact hne

theorem finishLock_refuses {runningIdx : Fin MAX_PARTITIONS} {r : Word × Kernel}
    (hr : r.2.readFrame t.userSp 6 ≠ refused) : RefusesCleanly t k (finishLock h t runningIdx r) := by
  unfold finishLock
  split
  · exact refusesCleanly_error _
  · split
    · exact refusesCleanly_of_ne hr
    · exact refusesCleanly_zero

theorem blockCaller_refuses (st : TaskState) (ha0 : k.readFrame t.userSp 6 ≠ refused) :
    RefusesCleanly t k (blockCaller P h t st k) := by
  unfold blockCaller
  split
  · exact refusesCleanly_error _
  · exact refusesCleanly_switch ha0

theorem lockMutex_refuses (hk : k.mutexLock = Spinlock.new) (hcap : k.readFrame t.userSp 6 = capIdx) :
    RefusesCleanly t k (lockMutex P h t capIdx k) := by
  unfold lockMutex
  simp only [lockMutexes_new hk]
  split
  · exact refusesCleanly_error _
  · rw [unlockMutexes_locked hk]
    exact refusesCleanly_refused
  · rename_i i m hg
    have ha0 : k.readFrame t.userSp 6 ≠ refused := by
      rw [hcap]
      exact ne_refused_of_lt (lt_of_grantedMutex hg)
    split
    · exact finishLock_refuses ha0
    · refine finishLock_refuses ?_
      rw [readFrame_switch]
      exact ha0

theorem unlockMutex_refuses (hk : k.mutexLock = Spinlock.new) :
    RefusesCleanly t k (unlockMutex P h t capIdx k) := by
  unfold unlockMutex
  simp only [lockMutexes_new hk]
  split
  · exact refusesCleanly_error _
  · rw [unlockMutexes_locked hk]
    exact refusesCleanly_refused
  · split
    · split
      · exact refusesCleanly_error _
      · exact refusesCleanly_zero
    · exact refusesCleanly_error _

theorem terminateTask_refuses (targetPrio : Word) :
    RefusesCleanly t k (terminateTask P h t targetPrio k) := by
  have hzero : ∀ k2 : Kernel, (k2.writeFrame t.userSp 6 0#32).readFrame t.userSp 6 ≠ refused := by
    intro k2
    rw [readFrame_writeFrame_self]
    decide
  unfold terminateTask
  split
  · exact refusesCleanly_refused
  · split
    · exact refusesCleanly_error _
    · rename_i k2 hrec
      dsimp only
      split
      · exact refusesCleanly_of_ne (r := (_, (k2.writeFrame t.userSp 6 0#32).setMsip _ true)) (hzero k2)
      · split
        · exact refusesCleanly_switch (hzero k2)
        · exact refusesCleanly_of_ne (hzero k2)

/-! ### Transfers -/

theorem flash_not_writable {r : PmpRegs} (hr : Booted r) {a : Word} (ha : InFlash a) :
    mModeMay r .write a = false := by
  unfold mModeMay
  rw [hr.decides_flash ha]
  show (!r.locked 0 || cfgPermits (r.cfg 0) .write) = false
  rw [PmpRegs.locked, hr.flash.cfg]
  decide

/-- No copy of `2 ^ 32 - 1` bytes gets past the flash. -/
theorem not_copyPermitted_max {r : PmpRegs} (hr : Booted r) (src dst : Word) :
    ¬ CopyPermitted P r src dst refused.toNat := by
  intro hall
  -- the copy leaves out the address below `dst` only
  obtain ⟨a, ha, hne⟩ : ∃ a : Word, InFlash a ∧ a - dst ≠ refused := by
    by_cases h0 : 0x42000000#32 - dst = refused
    · refine ⟨0x42000001#32, by unfold InFlash; decide, fun h1 => ?_⟩
      have heq := h0.trans h1.symm
      bv_omega
    · exact ⟨0x42000000#32, by unfold InFlash; decide, h0⟩
  have hlt : (a - dst).toNat < refused.toNat := by
    have hle := (a - dst).isLt
    have hval : refused.toNat = 2 ^ 32 - 1 := by decide
    have hnat : (a - dst).toNat ≠ refused.toNat := fun he => hne (BitVec.eq_of_toNat_eq he)
    omega
  have hwrite := (hall _ hlt).2
  have haddr : dst + BitVec.ofNat 32 (a - dst).toNat = a := by
    rw [BitVec.ofNat_toNat, BitVec.setWidth_eq]
    bv_omega
  rw [haddr, flash_not_writable hr ha] at hwrite
  simp at hwrite

theorem rendezvous_refuses {endpointIdx : Byte} {src dst len mine theirs : Word} {x : TaskId}
    (hmine : mine = 0#32 ∨ (mine = len ∧ Booted (k.pmp h))) :
    RefusesCleanly t k (rendezvous P h t endpointIdx src dst len x mine theirs k) := by
  unfold rendezvous
  split
  · exact refusesCleanly_error _
  · rename_i tcb htcb
    rcases copyBytes_cases P (k.pmp h) len.toNat src dst k.mem with
      ⟨m, hm, hc⟩ | ⟨cause, m, hm, -, -⟩
    · have hne : mine ≠ refused := by
        rintro rfl
        rcases hmine with h0 | ⟨hlen, hr⟩
        · exact absurd h0 (by decide)
        · rw [← hlen] at hc
          exact not_copyPermitted_max hr src dst hc
      simp only [hm]
      refine refusesCleanly_of_ne ?_
      have hread : ∀ (k1 : Kernel) (m1 : Memory), k1.mem = m1.writeWord (slot t.userSp 6) mine →
          k1.readFrame t.userSp 6 ≠ refused := by
        intro k1 m1 hmem
        rw [Kernel.readFrame, hmem, readWord_writeWord_self]
        exact hne
      dsimp only
      split
      · exact hread _ _ rfl
      · exact hread _ _ rfl
    · simp only [hm]
      exact refusesCleanly_error _

theorem sendMessage_refuses {msgAddr msgLen : Word} (hcap : k.readFrame t.userSp 6 = capIdx) :
    RefusesCleanly t k (sendMessage P h t capIdx msgAddr msgLen k) := by
  unfold sendMessage
  split
  · exact refusesCleanly_error _
  · exact refusesCleanly_refused
  · rename_i hg
    split
    · exact rendezvous_refuses (Or.inl rfl)
    · refine blockCaller_refuses _ ?_
      rw [hcap]
      exact ne_refused_of_lt (lt_of_granted hg)

theorem receiveMessage_refuses {bufAddr maxLen : Word} (hr : Booted (k.pmp h))
    (hcap : k.readFrame t.userSp 6 = capIdx) :
    RefusesCleanly t k (receiveMessage P h t capIdx bufAddr maxLen k) := by
  unfold receiveMessage
  split
  · exact refusesCleanly_error _
  · exact refusesCleanly_refused
  · rename_i hg
    split
    · exact rendezvous_refuses (Or.inr ⟨rfl, hr⟩)
    · refine blockCaller_refuses _ ?_
      rw [hcap]
      exact ne_refused_of_lt (lt_of_granted hg)

end Refusals

/-! ## Atomicity -/

/-- The hold count of `SCHED_LOCK` has not wrapped around for hart `h`: held by `h` it is not zero, and
free it is. -/
def LockCounts (h : Hart) (k : Kernel) : Prop :=
  (k.schedLock.owner = some h → k.schedLock.depth ≠ 0#32) ∧
    (k.schedLock.owner = none → k.schedLock.depth = 0#32)

/-- What is asked of a refused syscall of hart `h`: `k` is the kernel its handler finds, `k'` the kernel
it leaves, and `sp` the frame it resumes. -/
structure Atomic (h : Hart) (t : Trap) (k : Kernel) (sp : Word) (k' : Kernel) : Prop where
  scheds : k'.scheds = k.scheds
  mutexes : k'.mutexes = k.mutexes
  schedLock : k'.schedLock = k.schedLock
  mutexLock : k'.mutexLock = k.mutexLock
  memory : ∀ a, ¬ InRange (slot t.userSp 6) 4 a → ¬ InRange (slot t.userSp 28) 4 a → k'.mem a = k.mem a
  pc : k'.readFrame t.userSp 28 = k.readFrame t.userSp 28 + 4#32
  current : k'.current h = k.current h
  resumed : sp = t.userSp

section Refused
variable {P : Platform} {h : Hart} {t : Trap} {k : Kernel}

theorem refused_under_lock {body : Kernel → Outcome} {sp : Word} {k' : Kernel}
    (hbody : ∀ l, RefusesCleanly t { k with schedLock := l } (body { k with schedLock := l }))
    (hok : withSchedLock h k body = .ok (sp, k')) (hres : k'.readFrame t.userSp 6 = refused) :
    ∃ l, k.schedLock.lock h = some l ∧ sp = t.userSp ∧
      k' = { k.writeFrame t.userSp 6 refused with schedLock := l.unlock } := by
  unfold withSchedLock at hok
  split at hok
  · cases hok
  · rename_i l hl
    split at hok
    · cases hok
    · rename_i sp1 k1 hb
      obtain ⟨rfl, rfl⟩ := Prod.mk.inj (Except.ok.inj hok)
      obtain ⟨hsp, hk1⟩ := hbody l sp1 k1 hb hres
      refine ⟨l, hl, hsp, ?_⟩
      rw [hk1]
      rfl

/-- The syscalls that can be refused: lock, unlock, send, receive and terminate. -/
def Refusable (id : ℕ) : Prop := id = 3 ∨ id = 4 ∨ id = 6 ∨ id = 7 ∨ id = 8

/-- A refused syscall has written the pc and `a0` of the caller, and taken and released the lock. -/
theorem refused_ecall (hm : k.mutexLock = Spinlock.new) (hpmp : Booted (k.pmp h))
    (hid : Refusable (k.readFrame t.userSp 13).toNat) {sp : Word} {k' : Kernel}
    (hok : ecall P h t k = .ok (sp, k')) (hres : k'.readFrame t.userSp 6 = refused) :
    ∃ l, k.schedLock.lock h = some l ∧ sp = t.userSp ∧
      k' = { (k.writeFrame t.userSp 28 (k.readFrame t.userSp 28 + 4#32)).writeFrame t.userSp 6 refused with
        schedLock := l.unlock } := by
  unfold ecall at hok
  dsimp only at hok
  have hm1 : (k.writeFrame t.userSp 28 (k.readFrame t.userSp 28 + 4#32)).mutexLock = Spinlock.new := hm
  have hpmp1 : Booted ((k.writeFrame t.userSp 28 (k.readFrame t.userSp 28 + 4#32)).pmp h) := hpmp
  have hl1 : (k.writeFrame t.userSp 28 (k.readFrame t.userSp 28 + 4#32)).schedLock = k.schedLock := rfl
  rw [← hl1]
  generalize k.writeFrame t.userSp 28 (k.readFrame t.userSp 28 + 4#32) = k1 at hok hm1 hpmp1 ⊢
  rcases hid with hn | hn | hn | hn | hn <;> simp only [hn] at hok
  · exact refused_under_lock (fun _ => lockMutex_refuses hm1 rfl) hok hres
  · exact refused_under_lock (fun _ => unlockMutex_refuses hm1) hok hres
  · exact refused_under_lock (fun _ => sendMessage_refuses rfl) hok hres
  · exact refused_under_lock (fun _ => receiveMessage_refuses hpmp1 rfl) hok hres
  · exact refused_under_lock (fun _ => terminateTask_refuses _) hok hres

end Refused

/-- In every reachable state, for every argument of syscalls 3, 4, 6, 7 and 8: a call that returns -1
has changed nothing but `a0` and the pc, if and only if the hold count of `SCHED_LOCK` had not wrapped
around before the call. -/
theorem refused_syscall_atomic_iff (P : Platform) (s s' : System) (es : List Event) (hs : Initial P s)
    (hrun : Run (Step P) s es s') (h : Hart) (t : Trap) (m : Memory) (hecall : t.mcause = ECALL_UMODE)
    (hid : Refusable ((s'.kernel.setMem m).readFrame t.userSp 13).toNat) (sp : Word) (k' : Kernel)
    (hok : trapHandler P h t (s'.kernel.setMem m) = .ok (sp, k'))
    (hres : k'.readFrame t.userSp 6 = refused) :
    Atomic h t (s'.kernel.setMem m) sp k' ↔ LockCounts h s'.kernel := by
  rw [trapHandler_of_ecall P hecall] at hok
  obtain ⟨l, hl, hsp, rfl⟩ := refused_ecall (k := s'.kernel.setMem m) (mutexLock_run hs hrun)
    ((sysInv_run hs hrun).pmp h) hid hok hres
  have hcounts := unlock_lock_iff hl
  constructor
  · intro ha
    exact hcounts.mp ha.schedLock
  · intro hc
    refine ⟨rfl, rfl, hcounts.mpr hc, rfl, fun a ha0 hpc => ?_, ?_, rfl, hsp⟩
    · exact (writeWord_of_not_inRange _ _ ha0).trans (writeWord_of_not_inRange _ _ hpc)
    · refine (readWord_slot_writeWord_slot _ _ _ (by omega) (by omega) (by omega)).trans ?_
      exact readWord_writeWord_self ..

/-- A lock with a capability index out of range is refused. -/
theorem lock_out_of_range {P : Platform} {h : Hart} {t : Trap} {k : Kernel} {l : Spinlock}
    (hm : k.mutexLock = Spinlock.new) (hecall : t.mcause = ECALL_UMODE)
    (hid : k.readFrame t.userSp 13 = 3#32) (hcap : k.readFrame t.userSp 6 = 8#32)
    (hl : k.schedLock.lock h = some l) :
    ∃ k', trapHandler P h t k = .ok (t.userSp, k') ∧ k'.readFrame t.userSp 6 = refused ∧
      k'.schedLock = l.unlock := by
  have hcap' : (k.writeFrame t.userSp 28 (k.readFrame t.userSp 28 + 4#32)).readFrame t.userSp 6 = 8#32 :=
    (readFrame_writePc k _ _ (by omega)).trans hcap
  have hl' : (k.writeFrame t.userSp 28 (k.readFrame t.userSp 28 + 4#32)).schedLock.lock h = some l := hl
  have hgrant : ∀ k1 : Kernel, grantedMutex k1 h 8#32 lockRight = .ok none := fun _ => rfl
  have hnum : (3#32 : Word).toNat = 3 := rfl
  rw [trapHandler_of_ecall P hecall]
  unfold ecall sysLock withSchedLock
  simp only [hid, hnum, hcap', hl', lockMutex]
  rw [lockMutexes_new (by exact hm)]
  simp only [hgrant]
  exact ⟨_, rfl, readWord_writeWord_self .., rfl⟩

def lockCall : Trap := ⟨ECALL_UMODE, 0x3FC82400, 0⟩

/-- The memory at a lock of capability 8. -/
def lockFrame : Memory := syscallFrame 0x3FC82400 3 8 0 0

theorem lockFrame_reads : lockFrame.readWord (slot 0x3FC82400 13) = 3#32 ∧
    lockFrame.readWord (slot 0x3FC82400 6) = 8#32 := by
  decide +kernel

theorem refused_syscall_atomic_iff_boot :
    ∃ sp k', trapHandler packedPlatform 0 lockCall (bootSystem.kernel.setMem lockFrame) = .ok (sp, k') ∧
      k'.readFrame 0x3FC82400 6 = refused ∧
      Atomic 0 lockCall (bootSystem.kernel.setMem lockFrame) sp k' := by
  obtain ⟨k', hok, hres, -⟩ := lock_out_of_range (P := packedPlatform) (h := 0) (t := lockCall)
    (k := bootSystem.kernel.setMem lockFrame) rfl rfl lockFrame_reads.1 lockFrame_reads.2 rfl
  refine ⟨_, k', hok, hres, ?_⟩
  have hid : (bootSystem.kernel.setMem lockFrame).readFrame 0x3FC82400 13 = 3#32 := lockFrame_reads.1
  refine (refused_syscall_atomic_iff packedPlatform bootSystem bootSystem [] bootSystem_initial rfl 0 _ _
    rfl ?_ _ _ hok hres).mpr ?_
  · exact Or.inl (congrArg BitVec.toNat hid)
  · refine ⟨fun ho => ?_, fun _ => rfl⟩
    cases ho

/-- HSM Task has faulted `2 ^ 32 - 1` times and the Watchdog has begun its pass: hart 0 owns `SCHED_LOCK`
with a hold count of zero, and a refused lock frees it. -/
theorem refused_lock_frees_sched_lock :
    (∃ es s' sp k', Run (Step packedPlatform) bootSystem es s' ∧ s'.inPass = true ∧
      s'.kernel.schedLock = ⟨some 0, 0#32⟩ ∧
      trapHandler packedPlatform 0 lockCall (s'.kernel.setMem lockFrame) = .ok (sp, k') ∧
      k'.readFrame 0x3FC82400 6 = refused ∧ k'.schedLock = ⟨none, 0#32⟩) ∧
    ¬ ∀ P s s' es h t m sp k', Initial P s → Run (Step P) s es s' → t.mcause = ECALL_UMODE →
      Refusable ((s'.kernel.setMem m).readFrame t.userSp 13).toNat →
      trapHandler P h t (s'.kernel.setMem m) = .ok (sp, k') → k'.readFrame t.userSp 6 = refused →
      Atomic h t (s'.kernel.setMem m) sp k' := by
  have hrun : ∃ es s' sp k', Run (Step packedPlatform) bootSystem es s' ∧ s'.inPass = true ∧
      s'.kernel.schedLock = ⟨some 0, 0#32⟩ ∧
      trapHandler packedPlatform 0 lockCall (s'.kernel.setMem lockFrame) = .ok (sp, k') ∧
      k'.readFrame 0x3FC82400 6 = refused ∧ k'.schedLock = ⟨none, 0#32⟩ := by
    obtain ⟨es, s, hrun, hpass, hl, hv, -⟩ := holds_reached (2 ^ 32 - 2) (by omega)
    obtain ⟨s', hstep, hpass', hl', -⟩ := watchdogLock_step (P := packedPlatform) hv.current hpass hl
    have hrun' := hrun.append (.single hstep)
    have hwrapped : s'.kernel.schedLock = ⟨some 0, 0#32⟩ := by
      rw [hl']
      rfl
    obtain ⟨k', hok, hres, hafter⟩ := lock_out_of_range (P := packedPlatform) (h := 0) (t := lockCall)
      (k := s'.kernel.setMem lockFrame) (l := ⟨some 0, 1#32⟩) (mutexLock_run bootSystem_initial hrun') rfl
      lockFrame_reads.1 lockFrame_reads.2 (by
        show s'.kernel.schedLock.lock 0 = _
        rw [hwrapped]
        rfl)
    exact ⟨_, s', _, k', hrun', hpass', hwrapped, hok, hres, hafter.trans (unlock_held 0)⟩
  refine ⟨hrun, fun hall => ?_⟩
  obtain ⟨es, s', sp, k', hs', -, hl, hok, hres, hl'⟩ := hrun
  have hid : (s'.kernel.setMem lockFrame).readFrame 0x3FC82400 13 = 3#32 := lockFrame_reads.1
  have hatomic := hall packedPlatform bootSystem s' es 0 lockCall lockFrame sp k' bootSystem_initial hs' rfl
    (Or.inl (congrArg BitVec.toNat hid)) hok hres
  have hsame : k'.schedLock = s'.kernel.schedLock := hatomic.schedLock
  rw [hl', hl] at hsame
  cases hsame

end Cerberus.Containment
