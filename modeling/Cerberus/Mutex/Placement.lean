import Cerberus.Mutex.HandOff

/-! # Where waiters are looked up

The waiter bits hold an index, and the three copies of the lookup take the hart from the index: 0 and 1
on core 0, the others on core 1. For any registration of tasks and any mutex capabilities, this finds
the task that set the bit as long as only tasks registered there block on a mutex. Nothing is assumed
of the task tables, so a trap is followed here by what it can do to any view. -/
namespace Cerberus.Mutex
open Kernel Scheduler Sync Memory Transition
set_option autoImplicit false

/-! ## The bits a trap can set -/

/-- The control blocks keep their static part, no mutex is added, and of the waiter bits only those in
`add` are set. -/
structure Adds (add : Fin 8 → Fin MAX_PARTITIONS → Prop) (v v' : View) : Prop where
  static : v'.static = v.static
  bits : ∀ i m', v'.mutexes i = some m' → ∃ m, v.mutexes i = some m ∧
    ∀ w, BitSet.Mem m'.waitersBitmap w → BitSet.Mem m.waitersBitmap w ∨ add i w

def noBits : Fin 8 → Fin MAX_PARTITIONS → Prop := fun _ _ => False

namespace Adds
variable {add : Fin 8 → Fin MAX_PARTITIONS → Prop} {v v1 v' : View}

theorem of_eq (hstatic : v'.static = v.static) (hmutexes : v'.mutexes = v.mutexes) : Adds add v v' where
  static := hstatic
  bits := fun _ m' hm' => ⟨m', hmutexes ▸ hm', fun _ hw => Or.inl hw⟩

theorem refl (v : View) : Adds add v v := of_eq rfl rfl

theorem and_then (h1 : Adds add v v1) (h2 : Adds noBits v1 v') : Adds add v v' where
  static := h2.static.trans h1.static
  bits := fun i m' hm' => by
    obtain ⟨m1, hm1, hbits1⟩ := h2.bits i m' hm'
    obtain ⟨m, hm, hbits⟩ := h1.bits i m1 hm1
    exact ⟨m, hm, fun w hw => hbits w ((hbits1 w hw).resolve_right id)⟩

theorem after (h2 : Adds add v1 v') (h1 : Adds noBits v v1) : Adds add v v' where
  static := h2.static.trans h1.static
  bits := fun i m' hm' => by
    obtain ⟨m1, hm1, hbits1⟩ := h2.bits i m' hm'
    obtain ⟨m, hm, hbits⟩ := h1.bits i m1 hm1
    exact ⟨m, hm, fun w hw => (hbits1 w hw).imp_left fun h => (hbits w h).resolve_right id⟩

theorem mono {add' : Fin 8 → Fin MAX_PARTITIONS → Prop} (h : Adds add v v')
    (hadd : ∀ i w, add i w → add' i w) : Adds add' v v' where
  static := h.static
  bits := fun i m' hm' => by
    obtain ⟨m, hm, hbits⟩ := h.bits i m' hm'
    exact ⟨m, hm, fun w hw => (hbits w hw).imp_right (hadd i w)⟩

theorem setState (v : View) (x : TaskId) (st : TaskState) : Adds add v (v.setState x st) :=
  of_eq rfl rfl

theorem setMutex {i : Fin 8} {m m' : KernelMutex} (hm : v.mutexes i = some m)
    (hbits : ∀ w, BitSet.Mem m'.waitersBitmap w → BitSet.Mem m.waitersBitmap w ∨ add i w) :
    Adds add v (v.setMutex i m') where
  static := rfl
  bits := fun _ _ hj =>
    View.setMutex_rule ⟨m, hm, hbits⟩ (fun _ mj _ hj => ⟨mj, hj, fun _ hw => Or.inl hw⟩) hj

theorem handTo {i : Fin 8} {m m' : KernelMutex} (hm : v.mutexes i = some m) (w : Fin MAX_PARTITIONS)
    (hm' : m'.waitersBitmap = (m.handTo w).waitersBitmap) : Adds add v (v.setMutex i m') :=
  setMutex hm fun w' hw' => Or.inl (by
    rw [hm'] at hw'
    exact (BitSet.mem_erase.mp hw').1)

theorem resched {h : Hart} {isTick : Bool} (hr : View.Resched h isTick v v') : Adds add v v' := by
  rcases hr with ⟨rfl, -⟩ | ⟨n, -, rfl⟩
  · exact refl _
  · exact of_eq rfl rfl

end Adds

/-- What an outcome adds; the copy that faults has changed nothing that counts here. -/
def AddsBits (add : Fin 8 → Fin MAX_PARTITIONS → Prop) (v : View) : Outcome → Prop
  | .ok r => Adds add v (view r.2)
  | .error (.copyFault cause kf) => Adds noBits v (view kf) ∧ (cause = 5#32 ∨ cause = 7#32)
  | .error _ => True

/-! ### Only the copy of a message raises a copy fault -/

def NoCopyFault {α : Type} (r : Except Stop α) : Prop := ∀ cause kf, r ≠ .error (.copyFault cause kf)

theorem AddsBits.of_error {add : Fin 8 → Fin MAX_PARTITIONS → Prop} {v : View} {α : Type}
    {r : Except Stop α} (hr : NoCopyFault r) {e : Stop} (he : r = .error e) :
    AddsBits add v (.error e) := by
  cases e with
  | copyFault cause kf => exact absurd he (hr cause kf)
  | _ => trivial

section Errors
variable (k : Kernel) (h : Hart)

theorem granted_noCopyFault (capIdx : Word) (right : Capability → Option Byte) :
    NoCopyFault (granted k h capIdx right) := by
  intro cause kf he
  unfold granted at he
  split at he
  · split at he <;> cases he
  · cases he

theorem grantedMutex_noCopyFault (capIdx : Word) (right : Capability → Option Byte) :
    NoCopyFault (grantedMutex k h capIdx right) := by
  intro cause kf he
  unfold grantedMutex at he
  split at he
  · rename_i hg
    rw [Except.error.inj he] at hg
    exact granted_noCopyFault k h capIdx right cause kf hg
  · cases he
  · split at he <;> cases he

theorem highestWaiter_noCopyFault (b : Word) : NoCopyFault (highestWaiter k b) := by
  intro cause kf
  unfold highestWaiter
  generalize (none : Option (Fin MAX_PARTITIONS)) = w?
  induction List.finRange MAX_PARTITIONS generalizing w? with
  | nil => exact fun he => by cases he
  | cons i l ih =>
    rw [List.foldlM_cons]
    cases hi : scanWaiter k b w? i with
    | ok v? => exact ih v?
    | error e =>
      intro he
      obtain rfl : e = .copyFault cause kf := Except.error.inj he
      unfold scanWaiter at hi
      split at hi
      · split at hi
        · cases hi
        · split at hi <;> cases hi
      · cases hi

theorem releaseMutex_noCopyFault (i : Fin 8) (m : KernelMutex) :
    NoCopyFault (releaseMutex h i m k) := by
  intro cause kf he
  unfold releaseMutex at he
  split at he
  · rename_i hscan
    rw [Except.error.inj he] at hscan
    exact highestWaiter_noCopyFault k _ cause kf hscan
  · cases he
  · unfold handOff at he
    split at he <;> cases he

theorem recoverMutexes_noCopyFault (target : Fin MAX_PARTITIONS) :
    NoCopyFault (recoverMutexes h target k) := by
  have hloop : ∀ (l : List (Fin 8)) (u : Kernel), NoCopyFault (l.foldlM (recoverMutex target) u) := by
    intro l
    induction l with
    | nil => exact fun u cause kf he => by cases he
    | cons i l ih =>
      intro u cause kf
      rw [List.foldlM_cons]
      rcases recoverMutex_cases target u i with
        ⟨-, hok⟩ | ⟨m, -, -, ⟨e, hscan, herr⟩ | ⟨-, hok⟩ | ⟨w, -, hok⟩⟩
      · rw [hok]
        exact ih _ cause kf
      · rw [herr]
        intro he
        rw [Except.error.inj he] at hscan
        exact highestWaiter_noCopyFault u _ cause kf hscan
      · rw [hok]
        exact ih _ cause kf
      · rw [hok]
        exact ih _ cause kf
  intro cause kf he
  unfold recoverMutexes lockMutexes at he
  cases hl : k.mutexLock.lock h with
  | none =>
    rw [hl] at he
    cases he
  | some l =>
    simp only [hl] at he
    split at he
    · rename_i hrec
      rw [Except.error.inj he] at hrec
      exact hloop _ _ cause kf hrec
    · cases he

end Errors

/-! ### One lemma for each handler -/

section Handlers
variable {P : Platform} {h : Hart} {t : Trap} {k k1 : Kernel}
  {add : Fin 8 → Fin MAX_PARTITIONS → Prop}

theorem withSchedLock_adds {body : Kernel → Outcome}
    (hbody : ∀ l, AddsBits add (view k) (body { k with schedLock := l })) :
    AddsBits add (view k) (withSchedLock h k body) :=
  withSchedLock_rule trivial (fun _ _ hr => hr) hbody

theorem switch_adds {cycles sp : Word} {isTick : Bool} {v : View} (hv : Adds add v (view k)) :
    AddsBits add v (.ok (switchTask P h cycles isTick sp k)) :=
  hv.and_then (.resched (switchTask_resched P h cycles isTick sp k))

theorem blockCaller_adds (st : TaskState) : AddsBits add (view k) (blockCaller P h t st k) := by
  unfold blockCaller
  split
  · trivial
  · refine switch_adds ?_
    rw [view_setState]
    exact .setState _ _ _

theorem finishLock_adds {runningIdx : Fin MAX_PARTITIONS} {r : Word × Kernel} {v : View}
    (hr : AddsBits add v (.ok r)) : AddsBits add v (finishLock h t runningIdx r) := by
  unfold finishLock
  split
  · trivial
  · split <;> exact hr

theorem mutexes_of_grantedMutex {capIdx : Word} {right : Capability → Option Byte} {i : Fin 8}
    {m : KernelMutex} (hg : grantedMutex k h capIdx right = .ok (some (i, m))) :
    k.mutexes i = some m ∧ ((k.scheds h).taskTable (k.current h)).isSome := by
  unfold grantedMutex at hg
  split at hg
  · cases hg
  · cases hg
  · rename_i b hgrant
    split at hg
    · obtain ⟨m', hm', hpair⟩ := Option.map_eq_some_iff.mp (Except.ok.inj hg)
      obtain ⟨rfl, rfl⟩ := Prod.mk.inj hpair
      refine ⟨hm', ?_⟩
      unfold granted at hgrant
      split at hgrant
      · split at hgrant
        · cases hgrant
        · rename_i htcb
          rw [htcb]
          rfl
      · cases hgrant
    · cases hg

/-- The bit of the caller, which has a control block and blocks on mutex `i`. -/
def waitBit (k : Kernel) (h : Hart) (e : Effect) (i : Fin 8) (w : Fin MAX_PARTITIONS) : Prop :=
  e = .wait i ∧ w = k.current h ∧ ((view k).static (h, w)).isSome

theorem lockMutex_adds (capIdx : Word) :
    AddsBits (waitBit k h (lockEffect k h capIdx)) (view k) (lockMutex P h t capIdx k) := by
  unfold lockMutex lockMutexes
  cases k.mutexLock.lock h with
  | none => trivial
  | some l =>
    dsimp only
    split
    · rename_i hg
      exact .of_error (grantedMutex_noCopyFault _ _ _ _) hg
    · exact .refl _
    · rename_i i m hg
      have hg' : grantedMutex k h capIdx lockRight = .ok (some (i, m)) := hg
      obtain ⟨hm, hreg⟩ := mutexes_of_grantedMutex hg'
      split
      · exact finishLock_adds (.setMutex hm fun w hw => Or.inl hw)
      · rename_i hlocked
        refine finishLock_adds (switch_adds ?_)
        rw [view_unlockMutexes, view_setMutex, view_setState]
        have hset : Adds (waitBit k h (lockEffect k h capIdx))
            ((view k).setState (h, k.current h) (.blockedOnMutex (BitVec.ofNat 8 i.val)))
            (((view k).setState (h, k.current h) (.blockedOnMutex (BitVec.ofNat 8 i.val))).setMutex i
              { m with waitersBitmap := m.waitersBitmap ||| bit (k.current h) }) := by
          refine .setMutex hm fun w hw => ?_
          refine (BitSet.mem_insert.mp hw).imp_right fun hwc => ⟨?_, hwc, ?_⟩
          · simp only [lockEffect, hg', if_neg hlocked]
          · show (((k.scheds h).taskTable w).map static).isSome
            rw [Option.isSome_map, hwc]
            exact hreg
        exact hset.after (.setState _ _ _)

theorem unlockMutex_adds (capIdx : Word) :
    AddsBits noBits (view k) (unlockMutex P h t capIdx k) := by
  unfold unlockMutex lockMutexes
  cases k.mutexLock.lock h with
  | none => trivial
  | some l =>
    dsimp only
    split
    · rename_i hg
      exact .of_error (grantedMutex_noCopyFault _ _ _ _) hg
    · exact .refl _
    · rename_i i m hg
      have hm : (view k).mutexes i = some m :=
        (mutexes_of_grantedMutex (k := { k with mutexLock := l }) hg).1
      split
      · split
        · rename_i hrel
          exact .of_error (releaseMutex_noCopyFault _ _ _ _) hrel
        · rename_i k2 hk2
          refine switch_adds (P := P) ?_
          unfold releaseMutex handOff at hk2
          split at hk2
          · cases hk2
          · rw [← Except.ok.inj hk2]
            exact .setMutex hm fun w hw => Or.inl hw
          · rename_i w _
            split at hk2
            · cases hk2
            · rw [← Except.ok.inj hk2]
              have hset : Adds noBits (view k)
                  ((view k).setMutex i { m.handTo w with locked := m.locked }) := .handTo hm w rfl
              have hto := hset.and_then (.setState _ (waiterHart w, w) .ready)
              split
              · rw [view_setMsip, view_unlockMutexes, view_writeFrame, view_setState]
                exact hto
              · rw [view_unlockMutexes, view_writeFrame, view_setState]
                exact hto
      · trivial

theorem rendezvous_adds {endpointIdx : Byte} {src dst len mine theirs : Word} {partner : TaskId} :
    AddsBits noBits (view k) (rendezvous P h t endpointIdx src dst len partner mine theirs k) := by
  unfold rendezvous
  split
  · trivial
  · rcases copyBytes_cases P (k.pmp h) len.toNat src dst k.mem with
      ⟨m', hm', -⟩ | ⟨cause, m', hm', hcause, -⟩
    · simp only [hm']
      split
      · simp only [AddsBits, view_setMsip, view_logTelemetry, view_writeFrame, view_setState,
          view_setMem]
        exact .setState _ _ _
      · simp only [AddsBits, view_logTelemetry, view_writeFrame, view_setState, view_setMem]
        exact .setState _ _ _
    · simp only [hm']
      exact ⟨.refl _, hcause⟩

theorem sendMessage_adds (capIdx msgAddr msgLen : Word) :
    AddsBits noBits (view k) (sendMessage P h t capIdx msgAddr msgLen k) := by
  unfold sendMessage
  split
  · rename_i hg
    exact .of_error (granted_noCopyFault _ _ _ _) hg
  · exact .refl _
  · split
    · exact rendezvous_adds
    · exact blockCaller_adds _

theorem receiveMessage_adds (capIdx bufAddr maxLen : Word) :
    AddsBits noBits (view k) (receiveMessage P h t capIdx bufAddr maxLen k) := by
  unfold receiveMessage
  split
  · rename_i hg
    exact .of_error (granted_noCopyFault _ _ _ _) hg
  · exact .refl _
  · split
    · exact rendezvous_adds
    · exact blockCaller_adds _

theorem recoverMutexes_adds {target : Fin MAX_PARTITIONS} {k' : Kernel}
    (hok : recoverMutexes h target k = .ok k') : Adds noBits (view k) (view k') := by
  have hround : ∀ (u : Kernel) (i : Fin 8) (u' : Kernel), recoverMutex target u i = .ok u' →
      Adds noBits (view u) (view u') := by
    intro u i u' hu
    rcases recoverMutex_cases target u i with
      ⟨-, hsame⟩ | ⟨m, hm, -, ⟨e, -, herr⟩ | ⟨-, hfree⟩ | ⟨w, -, hto⟩⟩
    · obtain rfl := Except.ok.inj (hsame.symm.trans hu)
      exact .refl _
    · rw [herr] at hu
      cases hu
    · obtain rfl := Except.ok.inj (hfree.symm.trans hu)
      exact .setMutex hm fun w hw => Or.inl hw
    · obtain rfl := Except.ok.inj (hto.symm.trans hu)
      rw [view_setState]
      exact (Adds.handTo hm w rfl).and_then (.setState _ _ _)
  obtain ⟨l, k2, hloop, rfl⟩ := recoverMutexes_ok hok
  have hk2 : Adds noBits (view { k with mutexLock := l }) (view k2) :=
    foldlM_rel (R := fun u u' => Adds noBits (view u) (view u')) (fun _ => .refl _)
      (fun _ _ _ h1 h2 => h1.and_then h2) hround hloop
  exact hk2

theorem terminateTask_adds (targetPrio : Word) :
    AddsBits noBits (view k) (terminateTask P h t targetPrio k) := by
  unfold terminateTask
  split
  · exact .refl _
  · rename_i foundHart target _
    have hset : Adds noBits (view k) (view (k.setState foundHart target .terminated)) := by
      rw [view_setState]
      exact .setState _ _ _
    split
    · rename_i hrec
      exact .of_error (recoverMutexes_noCopyFault _ _ _) hrec
    · rename_i k2 hrec
      have hk2 := hset.and_then (recoverMutexes_adds hrec)
      dsimp only
      split
      · exact hk2
      · split
        · exact switch_adds hk2
        · exact hk2

theorem terminateRunning_adds : AddsBits noBits (view k) (terminateRunning P h t k) := by
  unfold terminateRunning
  dsimp only
  split
  · exact switch_adds (.refl _)
  · have hset : Adds noBits (view k) (view (k.setState h (k.current h) .terminated)) := by
      rw [view_setState]
      exact .setState _ _ _
    split
    · rename_i hrec
      exact .of_error (recoverMutexes_noCopyFault _ _ _) hrec
    · rename_i k2 hrec
      exact switch_adds (hset.and_then (recoverMutexes_adds hrec))

theorem AddsBits.of_noBits {v : View} {o : Outcome} (ho : AddsBits noBits v o) :
    AddsBits add v o := by
  cases o with
  | ok r => exact Adds.mono ho fun i w hno => hno.elim
  | error e => cases e <;> exact ho

theorem sysYield_adds : AddsBits add (view k) (sysYield P h t k) := by
  unfold sysYield
  exact withSchedLock_adds fun l => switch_adds (k := { k with schedLock := l }) (.refl _)

theorem sysSleep_adds : AddsBits add (view k) (sysSleep P h t k) := by
  unfold sysSleep
  exact withSchedLock_adds fun l => blockCaller_adds (k := { k with schedLock := l }) _

theorem sysCheckin_adds : AddsBits add (view k) (sysCheckin h t k) := by
  unfold sysCheckin
  exact withSchedLock_adds fun l => Adds.refl (view k)

theorem ecall_adds (hid : 1 ≤ (k.readFrame t.userSp 13).toNat ∧ (k.readFrame t.userSp 13).toNat ≤ 8) :
    AddsBits (waitBit k h (ecallEffect k h t)) (view k) (ecall P h t k) := by
  unfold ecall ecallEffect
  dsimp only
  generalize k.readFrame t.userSp 28 + 4#32 = v
  have hlocked : ∀ {add : Fin 8 → Fin MAX_PARTITIONS → Prop} {body : Kernel → Outcome},
      (∀ l, AddsBits add (view k) (body { k.writeFrame t.userSp 28 v with schedLock := l })) →
      AddsBits add (view k) (withSchedLock h (k.writeFrame t.userSp 28 v) body) := fun hbody =>
    withSchedLock_adds (k := k.writeFrame t.userSp 28 v) hbody
  rcases syscallId_cases hid with hn | hn | hn | hn | hn | hn | hn | hn <;> simp only [hn]
  · exact sysYield_adds (k := k.writeFrame t.userSp 28 v)
  · exact sysSleep_adds (k := k.writeFrame t.userSp 28 v)
  · unfold sysLock
    simp (disch := omega) only [readFrame_writePc]
    exact hlocked fun l => lockMutex_adds (k := { k.writeFrame t.userSp 28 v with schedLock := l }) _
  · unfold sysUnlock
    exact .of_noBits (hlocked fun l =>
      unlockMutex_adds (k := { k.writeFrame t.userSp 28 v with schedLock := l }) _)
  · exact sysCheckin_adds (k := k.writeFrame t.userSp 28 v)
  · unfold sysSend
    exact .of_noBits (hlocked fun l =>
      sendMessage_adds (k := { k.writeFrame t.userSp 28 v with schedLock := l }) _ _ _)
  · unfold sysRecv
    exact .of_noBits (hlocked fun l =>
      receiveMessage_adds (k := { k.writeFrame t.userSp 28 v with schedLock := l }) _ _ _)
  · unfold sysTerminate
    exact .of_noBits (hlocked fun l =>
      terminateTask_adds (k := { k.writeFrame t.userSp 28 v with schedLock := l }) _)

/-- The waiter bits a trap sets: the caller's own, if it blocks on the mutex. -/
theorem trap_adds (P : Platform) (h : Hart) (t : Trap) (k : Kernel) :
    AddsBits (waitBit k h (effect k h t)) (view k) (trapHandler P h t k) := by
  unfold trapHandler
  split
  · unfold timerInterrupt
    refine withSchedLock_adds (k := { k with tickCount := k.tickCount + 1#32 }) fun l => ?_
    refine switch_adds ?_
    rw [view_wakeSleepers]
    exact .of_eq rfl rfl
  split
  · unfold softwareInterrupt
    exact withSchedLock_adds (k := k.setMsip h false) fun l =>
      switch_adds (k := { k.setMsip h false with schedLock := l }) (.refl _)
  split
  · rename_i htimer hsoft hecall
    rw [effect_of_ecall hecall]
    by_cases hid : 1 ≤ (k.readFrame t.userSp 13).toNat ∧ (k.readFrame t.userSp 13).toNat ≤ 8
    · exact ecall_adds hid
    · rw [(ecall_unknown hid).1]
      exact .refl _
  · unfold exception
    dsimp only
    split
    · unfold emulateCounter
      cases frameIdx (k.mem.readWord (k.readFrame t.userSp 28)) <;> exact .refl _
    · split
      · unfold containFault
        exact .of_noBits (withSchedLock_adds (k := k.logTelemetry _) fun l =>
          terminateRunning_adds (k := { k.logTelemetry _ with schedLock := l }))
      · trivial

end Handlers

/-! ## Who set a bit -/

/-- For each mutex and waiter bit, the task that blocked and set the bit last. -/
def Setters : Type := Fin 8 → Fin MAX_PARTITIONS → Option TaskId

def Setters.record (r : Setters) (k : Kernel) (ev : Event) : Setters := fun i w =>
  match ev.effect k with
  | some (h, .wait j) => if i = j ∧ w = k.current h then some (h, w) else r i w
  | _ => r i w

theorem Setters.record_self (r : Setters) {k : Kernel} {ev : Event} {h : Hart} {i : Fin 8}
    (he : ev.effect k = some (h, .wait i)) :
    r.record k ev i (k.current h) = some (h, k.current h) := by
  simp [record, he]

theorem Setters.record_cases (r : Setters) (k : Kernel) (ev : Event) (i : Fin 8)
    (w : Fin MAX_PARTITIONS) : r.record k ev i w = r i w ∨
      ∃ h, ev.effect k = some (h, .wait i) ∧ w = k.current h := by
  unfold record
  split
  · rename_i h j he
    split
    · rename_i hij
      exact Or.inr ⟨h, hij.1 ▸ he, hij.2⟩
    · exact Or.inl rfl
  · exact Or.inl rfl

/-- The system with the record of who set the waiter bits. -/
structure Traced where
  sys : System
  setters : Setters

def Traced.next (P : Platform) (σ : Traced) (ev : Event) : Option Traced :=
  (σ.sys.next P ev).map fun s => ⟨s, σ.setters.record σ.sys.kernel ev⟩

def TracedStep (P : Platform) (σ : Traced) (ev : Event) (σ' : Traced) : Prop :=
  σ.next P ev = some σ'

/-- The states in which a registration `L` starts: no bit has been set. -/
def BootLayout.Starts (P : Platform) (L : BootLayout) (σ : Traced) : Prop :=
  (∃ m r, L.boot P m r = some σ.sys.kernel) ∧ σ.sys.inPass = false ∧ σ.setters = fun _ _ => none

/-- A task that blocks on a mutex in this step is registered on the hart its index is looked up on. -/
def WaitsInPlace (σ : Traced) (ev : Event) : Prop :=
  match ev.effect σ.sys.kernel with
  | some (h, .wait _) => waiterTask (σ.sys.kernel.current h) = (h, σ.sys.kernel.current h)
  | _ => True

instance (σ : Traced) (ev : Event) : Decidable (WaitsInPlace σ ev) :=
  match he : ev.effect σ.sys.kernel with
  | some (h, .wait _) =>
    decidable_of_iff (waiterTask (σ.sys.kernel.current h) = (h, σ.sys.kernel.current h))
      (by simp [WaitsInPlace, he])
  | none | some (_, .none) | some (_, .tick _) | some (_, .resched) | some (_, .block _)
  | some (_, .grant _) | some (_, .release _) | some (_, .transfer _) | some (_, .kill _) =>
    isTrue (by simp [WaitsInPlace, he])

/-- The bit that a step sets. -/
def setsBit (k : Kernel) (ev : Event) (i : Fin 8) (w : Fin MAX_PARTITIONS) : Prop :=
  ∃ h e, ev.effect k = some (h, e) ∧ waitBit k h e i w

theorem adds_of_copyFault {P : Platform} {h : Hart} {t : Trap} {k kf : Kernel} {cause : Word}
    (hf : trapHandler P h t k = .error (.copyFault cause kf)) :
    Adds noBits (view k) (view kf) ∧ (cause = 5#32 ∨ cause = 7#32) := by
  have hadds := trap_adds P h t k
  rw [hf] at hadds
  exact hadds

theorem adds_of_ok {P : Platform} {h : Hart} {t : Trap} {k k' : Kernel} {sp : Word}
    (hok : trapHandler P h t k = .ok (sp, k')) :
    Adds (waitBit k h (effect k h t)) (view k) (view k') := by
  have hadds := trap_adds P h t k
  rw [hok] at hadds
  exact hadds

theorem adds_restart (P : Platform) (st : StackTask) (h : Hart) (i : Fin MAX_PARTITIONS) (k : Kernel) :
    Adds noBits (view k) (view (restart P st h i k)) := by
  rw [view_restart]
  exact .setState _ _ _

theorem step_adds {P : Platform} {s s' : System} {ev : Event} (hstep : Step P s ev s') :
    Adds (setsBit s.kernel ev) (view s.kernel) (view s'.kernel) := by
  have hcases := stepKernel_of_step hstep
  generalize s.kernel = k at hcases
  generalize s'.kernel = k' at hcases
  cases hcases with
  | @trap h t m sp k' hok =>
    exact (adds_of_ok hok).mono fun i w hbit => ⟨h, _, rfl, hbit⟩
  | @nested h t t' m m' kf k' sp hf hok =>
    obtain ⟨hadds, hcause⟩ := adds_of_copyFault hf
    -- the trap of the copy fault terminates the caller
    have hkill : Adds noBits (view (kf.setMem m')) (view k') := (adds_of_ok hok).mono fun i w he => by
      rw [effect_of_fault hcause] at he
      cases he.1
    exact (Adds.and_then hadds hkill).mono fun i w hno => hno.elim
  | lock hruns => exact .refl _
  | restartTaskC hruns =>
    unfold restartTaskC
    split
    · exact (adds_restart P .taskC 1 3 _).mono fun i w hno => hno.elim
    · exact .refl _
  | restartHsm hruns =>
    unfold restartHsm
    split
    · exact (adds_restart P .hsm 0 4 _).mono fun i w hno => hno.elim
    · exact .refl _
  | unlock hruns => exact .refl _

/-! ## The invariant -/

/-- Every bit that is set was set by the task that its index is looked up as, and this task has a
control block. -/
def InPlace (r : Setters) (v : View) : Prop :=
  ∀ i m w, v.mutexes i = some m → BitSet.Mem m.waitersBitmap w →
    r i w = some (waiterTask w) ∧ (v.static (waiterTask w)).isSome

theorem InPlace.adds {r : Setters} {v v' : View} (hp : InPlace r v) (ha : Adds noBits v v') :
    InPlace r v' := by
  intro i m' w hm' hw
  obtain ⟨m, hm, hbits⟩ := ha.bits i m' hm'
  rw [ha.static]
  exact hp i m w hm ((hbits w hw).resolve_right id)

theorem InPlace.step {P : Platform} {σ σ' : Traced} {ev : Event}
    (hp : InPlace σ.setters (view σ.sys.kernel)) (hstep : TracedStep P σ ev σ')
    (hguard : WaitsInPlace σ ev) : InPlace σ'.setters (view σ'.sys.kernel) := by
  obtain ⟨s', hs', rfl⟩ := Option.map_eq_some_iff.mp hstep
  have hadds := step_adds hs'
  intro i m' w hm' hw
  obtain ⟨m, hm, hbits⟩ := hadds.bits i m' hm'
  rw [hadds.static]
  have hplace : ∀ {h i}, ev.effect σ.sys.kernel = some (h, .wait i) →
      waiterTask (σ.sys.kernel.current h) = (h, σ.sys.kernel.current h) := by
    intro h i he
    unfold WaitsInPlace at hguard
    rw [he] at hguard
    exact hguard
  rcases hbits w hw with hold | ⟨h, e, he, rfl, rfl, hsome⟩
  · obtain ⟨hset, hsome⟩ := hp i m w hm hold
    refine ⟨?_, hsome⟩
    rcases σ.setters.record_cases σ.sys.kernel ev i w with hr | ⟨h, he, rfl⟩
    · exact hr.trans hset
    · rw [hplace he]
      exact σ.setters.record_self he
  · rw [hplace he]
    exact ⟨σ.setters.record_self he, hsome⟩

theorem InPlace.starts {P : Platform} {L : BootLayout} {σ : Traced} (hs : BootLayout.Starts P L σ) :
    InPlace σ.setters (view σ.sys.kernel) := by
  obtain ⟨⟨m, r, hboot⟩, -, -⟩ := hs
  intro i mx w hm hw
  have hm' : σ.sys.kernel.mutexes i = some mx := hm
  unfold BootLayout.boot at hboot
  split at hboot
  · rw [← Option.some.inj hboot] at hm'
    simp only at hm'
    split at hm'
    · rw [← Option.some.inj hm'] at hw
      exact absurd hw (BitSet.not_mem_zero w)
    · cases hm'
  · cases hboot

theorem inPlace_of_run {P : Platform} {L : BootLayout} {σ σ' : Traced} {es : List Event}
    (hs : BootLayout.Starts P L σ) (hrun : Run (Guarded (TracedStep P) WaitsInPlace) σ es σ') :
    InPlace σ'.setters (view σ'.sys.kernel) :=
  hrun.invariant (I := fun σ => InPlace σ.setters (view σ.sys.kernel))
    (fun _ _ _ hp hstep => hp.step hstep.1 hstep.2) (.starts hs)

/-! ## The three lookups -/

/-- On path `p` the trap releases mutex `i` of task `o`, which was `m`, and the scan selects `w`. -/
structure Selects (k : Kernel) (h : Hart) (t : Trap) (p : Path) (i : Fin 8) (m : KernelMutex)
    (o : TaskId) (w : Fin MAX_PARTITIONS) : Prop where
  taken : p.Taken k h t i m o
  mutex : k.mutexes i = some m
  owner : m.ownerTaskIdx = some (ownerByte o.2)
  registered : ((k.scheds o.1).taskTable o.2).isSome
  scan : highestWaiter k m.waitersBitmap = .ok (some w)

/-- Index `w` is looked up as task `x`: the scan reads the priority of its control block, and it is the
one that the handler makes `Ready`. -/
structure LooksUp (P : Platform) (k : Kernel) (h : Hart) (t : Trap) (w : Fin MAX_PARTITIONS)
    (x : TaskId) : Prop where
  block : (waiterHart w, w) = x
  priority : ∃ tcb, (k.scheds x.1).taskTable x.2 = some tcb ∧ waiterPriority k w = .ok tcb.priority
  ready : ∀ sp k', trapHandler P h t k = .ok (sp, k') → Woken k' x

/-- If the handler returns, task `x` has been made `Ready`. -/
def Wakes (x : TaskId) : Outcome → Prop
  | .ok r => Woken r.2 x
  | .error _ => True

section Lookups
variable {P : Platform} {k : Kernel} {h : Hart} {t : Trap} {i : Fin 8} {m : KernelMutex} {o x : TaskId}
  {w : Fin MAX_PARTITIONS}

theorem withSchedLock_wakes {body : Kernel → Outcome}
    (hbody : ∀ l, Wakes x (body { k with schedLock := l })) : Wakes x (withSchedLock h k body) :=
  withSchedLock_rule trivial (fun _ _ hr => hr) hbody

theorem switch_wakes {cycles sp : Word} (hx : (view k).state x = some .ready) :
    Wakes x (.ok (switchTask P h cycles false sp k)) :=
  woken_of_ready (h := h) (Or.inr (switchTask_resched P h cycles false sp k)) hx

theorem unlockMutex_wakes {capIdx : Word}
    (hgrant : grantedMutex k h capIdx unlockRight = .ok (some (i, m)))
    (howner : m.ownerTaskIdx = some (ownerByte (k.current h)))
    (hscan : highestWaiter k m.waitersBitmap = .ok (some w)) :
    Wakes (waiterTask w) (unlockMutex P h t capIdx k) := by
  unfold unlockMutex lockMutexes
  cases k.mutexLock.lock h with
  | none => trivial
  | some l =>
    have hgrant' : grantedMutex { k with mutexLock := l } h capIdx unlockRight = .ok (some (i, m)) :=
      hgrant
    have hscan' : highestWaiter { k with mutexLock := l } m.waitersBitmap = .ok (some w) := hscan
    have howner' : m.ownerTaskIdx = some (BitVec.ofNat 8 (k.current h).val) := howner
    simp only [hgrant', if_pos howner', releaseMutex, hscan']
    cases htcb : (k.scheds (waiterHart w)).taskTable w with
    | none =>
      simp only [handOff, htcb]
      trivial
    | some tcb =>
      obtain ⟨k2, hk2, hview, -⟩ := handOff_spec (k := { k with mutexLock := l }) (h := h) (i := i)
        (m := m) htcb
      simp only [hk2]
      refine switch_wakes (P := P) ?_
      obtain ⟨st, hst⟩ := Option.isSome_iff_exists.mp (show ((view k).state (waiterTask w)).isSome by
        rw [view_state_isSome, show (k.scheds (waiterTask w).1).taskTable (waiterTask w).2 = _ from htcb]
        rfl)
      have hst' : (view { k with mutexLock := l }).state (waiterTask w) = some st := hst
      rw [hview, View.state_setState, if_pos rfl, View.setMutex_state, hst']
      rfl

/-- The waiter of a recovered mutex is `Ready` before the context switch, if there is one. -/
theorem ready_of_recover {k2 : Kernel} (hm : k.mutexes i = some m)
    (howner : m.ownerTaskIdx = some (ownerByte o.2))
    (hscan : highestWaiter k m.waitersBitmap = .ok (some w))
    (hreg : ((view k).static (waiterTask w)).isSome)
    (hok : recoverMutexes h o.2 (k.setState o.1 o.2 .terminated) = .ok k2) :
    (view k2).state (waiterTask w) = some .ready := by
  have hsome : ((view (k.setState o.1 o.2 .terminated)).state (waiterTask w)).isSome := by
    rw [view_setState, View.isSome_setState, view_state_isSome, ← Option.isSome_map]
    exact hreg
  obtain ⟨st, hst⟩ := Option.isSome_iff_exists.mp hsome
  rw [((recovers_of_ok hok).handed i (List.mem_finRange i) m w hm howner
    ((scan_terminated k o _).trans hscan)).2, hst]
  rfl

theorem terminateTask_wakes {targetPrio : Word} (hfind : findTask k targetPrio = some o)
    (hm : k.mutexes i = some m) (howner : m.ownerTaskIdx = some (ownerByte o.2))
    (hscan : highestWaiter k m.waitersBitmap = .ok (some w))
    (hreg : ((view k).static (waiterTask w)).isSome) :
    Wakes (waiterTask w) (terminateTask P h t targetPrio k) := by
  unfold terminateTask
  simp only [hfind]
  split
  · trivial
  · rename_i k2 hrec
    have hready : (view k2).state (waiterTask w) = some .ready :=
      ready_of_recover hm howner hscan hreg hrec
    have hstays : ∀ k', view k' = view k2 → Woken k' (waiterTask w) := fun k' hv =>
      woken_of_ready (h := h) (Or.inl hv) hready
    split
    · exact hstays _ rfl
    · split
      · exact switch_wakes (P := P) (k := k2.writeFrame t.userSp 6 0#32) hready
      · exact hstays _ rfl

theorem terminateRunning_wakes (hown : ((k.scheds h).taskTable (k.current h)).isSome)
    (hm : k.mutexes i = some m) (howner : m.ownerTaskIdx = some (ownerByte (k.current h)))
    (hscan : highestWaiter k m.waitersBitmap = .ok (some w))
    (hreg : ((view k).static (waiterTask w)).isSome) :
    Wakes (waiterTask w) (terminateRunning P h t k) := by
  obtain ⟨tcb, htcb⟩ := Option.isSome_iff_exists.mp hown
  unfold terminateRunning
  simp only [htcb]
  split
  · trivial
  · rename_i k2 hrec
    exact switch_wakes (ready_of_recover (o := (h, k.current h)) hm howner hscan hreg hrec)

/-- The handler makes the task `Ready` that the selected index is looked up as. -/
theorem Selects.wakes {p : Path} (hsel : Selects k h t p i m o w)
    (hreg : ((view k).static (waiterTask w)).isSome) :
    Wakes (waiterTask w) (trapHandler P h t k) := by
  obtain ⟨htaken, hm, howner, hown, hscan⟩ := hsel
  cases p with
  | unlock =>
    obtain ⟨hecall, hid, rfl, hgrant⟩ := htaken
    rw [trapHandler_of_ecall P hecall]
    unfold ecall sysUnlock
    simp (disch := omega) only [hid, readFrame_writePc]
    generalize k.readFrame t.userSp 28 + 4#32 = v
    exact withSchedLock_wakes (k := k.writeFrame t.userSp 28 v) fun l =>
      unlockMutex_wakes (k := { k.writeFrame t.userSp 28 v with schedLock := l }) hgrant howner hscan
  | terminate =>
    obtain ⟨hecall, hid, hfind⟩ := htaken
    rw [trapHandler_of_ecall P hecall]
    unfold ecall sysTerminate
    simp (disch := omega) only [hid, readFrame_writePc]
    generalize k.readFrame t.userSp 28 + 4#32 = v
    exact withSchedLock_wakes (k := k.writeFrame t.userSp 28 v) fun l =>
      terminateTask_wakes (k := { k.writeFrame t.userSp 28 v with schedLock := l }) hfind hm howner
        hscan hreg
  | fault =>
    obtain ⟨hc, hcsr, rfl⟩ := htaken
    rw [trapHandler_of_contained P hc hcsr]
    unfold containFault
    generalize TraceEvent.faultInterception t.mcause (k.readFrame t.userSp 28) = e
    exact withSchedLock_wakes (k := k.logTelemetry e) fun l =>
      terminateRunning_wakes (k := { k.logTelemetry e with schedLock := l }) hown hm howner hscan hreg

theorem Selects.looksUp (P : Platform) {p : Path} (hsel : Selects k h t p i m o w)
    (hreg : ((view k).static (waiterTask w)).isSome) : LooksUp P k h t w (waiterTask w) := by
  have hslot : ((k.scheds (waiterHart w)).taskTable w).isSome := by
    rw [← Option.isSome_map]
    exact hreg
  obtain ⟨tcb, htcb⟩ := Option.isSome_iff_exists.mp hslot
  have hprio : waiterPriority k w = .ok tcb.priority := by
    unfold waiterPriority
    rw [htcb]
  refine ⟨rfl, ⟨tcb, htcb, hprio⟩, fun sp k' hok => ?_⟩
  have hwakes := hsel.wakes (P := P) hreg
  rw [hok] at hwakes
  exact hwakes

end Lookups

/-- For every registration of tasks and mutex capabilities: in a run in which only tasks registered on
the hart that their index is looked up on block on a mutex, an index that any of the three paths
selects is looked up as the task that set the bit. -/
theorem waiter_resolved (P : Platform) (L : BootLayout) (σ σ' : Traced) (es : List Event)
    (hs : BootLayout.Starts P L σ) (hrun : Run (Guarded (TracedStep P) WaitsInPlace) σ es σ')
    (h : Hart) (t : Trap) (frame : Word) (k : Kernel) (htakes : Takes P σ'.sys h t frame k)
    (p : Path) (i : Fin 8) (m : KernelMutex) (o : TaskId) (w : Fin MAX_PARTITIONS)
    (hsel : Selects k h t p i m o w) : ∃ x, σ'.setters i w = some x ∧ LooksUp P k h t w x := by
  have hplace : InPlace σ'.setters (view k) := by
    have hinv := inPlace_of_run hs hrun
    cases htakes with
    | task t m => exact hinv
    | nested hf m => exact hinv.adds (adds_of_copyFault hf).1
  obtain ⟨hset, hreg⟩ := hplace i m w hsel.mutex (mem_of_highestWaiter hsel.scan)
  exact ⟨waiterTask w, hset, hsel.looksUp P hreg⟩

def traceBoot (k : Kernel) : Traced := ⟨⟨k, false⟩, fun _ _ => none⟩

theorem starts_traceBoot {P : Platform} {L : BootLayout} {k : Kernel}
    (hboot : L.boot P (fun _ => 0) (fun _ => zeroRegs) = some k) :
    BootLayout.Starts P L (traceBoot k) := ⟨⟨_, _, hboot⟩, rfl, rfl⟩

def tracedMain : Traced :=
  traceBoot ((mainLayout.boot packedPlatform (fun _ => 0) fun _ => zeroRegs).get rfl)

/-- The decidable part of `Selects` for an unlock by Task A, with the mutex it finds. -/
def UnlockSelects (k : Kernel) (m : KernelMutex) (w : Fin MAX_PARTITIONS) : Prop :=
  (k.readFrame 0x3FC82400 13).toNat = 4 ∧ k.current 0 = 1 ∧
    (grantedMutex k 0 (k.readFrame 0x3FC82400 6) unlockRight).toOption = some (some (0, m)) ∧
    k.mutexes 0 = some m ∧ m.ownerTaskIdx = some (ownerByte 1) ∧ ((k.scheds 0).taskTable 1).isSome ∧
    (highestWaiter k m.waitersBitmap).toOption = some (some w)

instance (k : Kernel) (m : KernelMutex) (w : Fin MAX_PARTITIONS) : Decidable (UnlockSelects k m w) :=
  inferInstanceAs (Decidable (_ ∧ _))

theorem UnlockSelects.selects {k : Kernel} {m : KernelMutex} {w : Fin MAX_PARTITIONS}
    (hu : UnlockSelects k m w) :
    Selects k 0 ⟨ECALL_UMODE, 0x3FC82400, 0⟩ .unlock 0 m taskA w := by
  obtain ⟨hid, hcur, hgrant, hm, howner, hreg, hscan⟩ := hu
  have hself : taskA = (0, k.current 0) := by
    rw [hcur]
    rfl
  exact ⟨⟨rfl, hid, hself, eq_ok_of_toOption hgrant⟩, hm, howner, hreg, eq_ok_of_toOption hscan⟩

/-- Task A unlocks the mutex that Task C waits for. -/
theorem waiter_resolved_unlock :
    ∃ σ, Run (Guarded (TracedStep packedPlatform) WaitsInPlace) tracedMain contended σ ∧
      σ.setters 0 3 = some taskC ∧
      LooksUp packedPlatform (unlockCall σ.sys) 0 ⟨ECALL_UMODE, 0x3FC82400, 0⟩ 3 taskC := by
  have heval : ∃ σ, contended.foldlM (fun σ ev => if WaitsInPlace σ ev then
      Traced.next packedPlatform σ ev else none) tracedMain = some σ ∧
      decide (UnlockSelects (unlockCall σ.sys) contendedMutex 3 ∧ σ.setters 0 3 = some taskC) = true :=
    Option.map_eq_some_iff.mp (by decide +kernel)
  obtain ⟨σ, hσ, hdec⟩ := heval
  obtain ⟨hu, hset⟩ := of_decide_eq_true hdec
  have hrun := Run.of_foldlM_guarded WaitsInPlace hσ
  obtain ⟨x, hx, hlook⟩ := waiter_resolved packedPlatform mainLayout tracedMain σ contended
    (starts_traceBoot (Option.some_get _).symm) hrun 0 ⟨ECALL_UMODE, 0x3FC82400, 0⟩ _ _ (.task _ _)
    .unlock 0 contendedMutex taskA 3 hu.selects
  obtain rfl := Option.some.inj (hx.symm.trans hset)
  exact ⟨σ, hrun, hset, hlook⟩

/-- The registration of `kmain`, with HSM Task holding the mutex capability as well. -/
def hsmLocksLayout : BootLayout := { mainLayout with
  tasks := [(0, watchdogSpec), (0, taskASpec), (1, taskBSpec), (1, taskCSpec),
    (0, { hsmSpec with capabilities := [.mutex 0 true true] }), (0, idle0Spec), (1, idle1Spec)] }

/-- Task A locks, HSM Task blocks on the mutex, and Task A runs again. -/
def hsmWaits : List Event :=
  [syscall 0 1 0 0 0, syscall 0 3 0 0 0, syscall 0 1 0 0 0, syscall 0 3 0 0 0, syscall 0 1 0 0 0,
    syscall 0 1 0 0 0, syscall 0 1 0 0 0]

def tracedHsm : Traced :=
  traceBoot ((hsmLocksLayout.boot packedPlatform (fun _ => 0) fun _ => zeroRegs).get rfl)

def failsUnwrap : Outcome → Bool
  | .error .unwrapNone => true
  | _ => false

theorem eq_of_failsUnwrap {o : Outcome} (ho : failsUnwrap o = true) : o = .error .unwrapNone := by
  unfold failsUnwrap at ho
  split at ho
  · rfl
  · cases ho

/-- HSM Task waits for Task A's mutex on core 0; its index is looked up on core 1, where nothing is
registered, and the unlock panics. -/
theorem waiter_looked_up_elsewhere :
    (∃ σ, Run (TracedStep packedPlatform) tracedHsm hsmWaits σ ∧ σ.setters 0 4 = some hsmTask ∧
      Selects (unlockCall σ.sys) 0 ⟨ECALL_UMODE, 0x3FC82400, 0⟩ .unlock 0 ⟨true, some 1, 16⟩ taskA 4 ∧
      trapHandler packedPlatform 0 ⟨ECALL_UMODE, 0x3FC82400, 0⟩ (unlockCall σ.sys) =
        .error .unwrapNone) ∧
    ¬ ∀ (P : Platform) (L : BootLayout) (σ σ' : Traced) (es : List Event), L.OneHart →
      BootLayout.Starts P L σ → Run (TracedStep P) σ es σ' →
      ∀ (h : Hart) (t : Trap) (frame : Word) (k : Kernel), Takes P σ'.sys h t frame k →
      ∀ (p : Path) (i : Fin 8) (m : KernelMutex) (o : TaskId) (w : Fin MAX_PARTITIONS),
      Selects k h t p i m o w → ∃ x, σ'.setters i w = some x ∧ LooksUp P k h t w x := by
  have heval : ∃ σ, hsmWaits.foldlM (Traced.next packedPlatform) tracedHsm = some σ ∧
      decide (UnlockSelects (unlockCall σ.sys) ⟨true, some 1, 16⟩ 4 ∧ σ.setters 0 4 = some hsmTask ∧
        failsUnwrap (trapHandler packedPlatform 0 ⟨ECALL_UMODE, 0x3FC82400, 0⟩
          (unlockCall σ.sys)) = true) = true :=
    Option.map_eq_some_iff.mp (by decide +kernel)
  obtain ⟨σ, hσ, hdec⟩ := heval
  obtain ⟨hu, hset, hpanic⟩ := of_decide_eq_true hdec
  have hrun : Run (TracedStep packedPlatform) tracedHsm hsmWaits σ := Run.of_foldlM hσ
  refine ⟨⟨σ, hrun, hset, hu.selects, eq_of_failsUnwrap hpanic⟩, fun hall => ?_⟩
  obtain ⟨x, hx, hlook⟩ := hall packedPlatform hsmLocksLayout tracedHsm σ hsmWaits (by decide)
    (starts_traceBoot (Option.some_get _).symm) hrun 0 ⟨ECALL_UMODE, 0x3FC82400, 0⟩ _ _ (.task _ _)
    .unlock 0 ⟨true, some 1, 16⟩ taskA 4 hu.selects
  obtain rfl := Option.some.inj (hx.symm.trans hset)
  exact absurd hlook.block (by decide)

end Cerberus.Mutex
