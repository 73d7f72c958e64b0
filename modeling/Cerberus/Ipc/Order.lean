import Cerberus.Ipc.Endpoint

/-! # Who arrives first does not matter

A send followed by a receive and a receive followed by a send are two paths through the handler: the
first call blocks, and the second finds the recorded partner and copies. Both deliver the same bytes
and the same results. The kernel is any sound one, and between the two calls both harts may take any
traps that leave the waiting task recorded as it is. -/
namespace Cerberus.Ipc
open Kernel Scheduler Sync Memory Transition
set_option autoImplicit false

/-! ## Traps keep a kernel sound -/

section Keep
variable {v v' : View} {h : Hart}

theorem indexed_swap (hv : v.Indexed) {n : Fin MAX_PARTITIONS}
    (hn : v.state (h, n) = some .ready) : (v.swap h n).Indexed where
  priority := hv.priority
  running := fun h' => by
    rw [View.isSome_swap]
    by_cases hh : h' = h
    · subst hh
      simp [View.running, View.swap, hn]
    · have hr : (v.swap h n).running h' = v.running h' := by simp [View.running, View.swap, hh]
      rw [hr]
      exact hv.running h'
  waiters := fun i m hm w hw => by
    rw [View.isSome_swap]
    exact hv.waiters i m hm w hw
  owned := hv.owned

theorem indexed_leads (hv : v.Indexed) {e : Effect} (hvalid : e.Valid h v)
    (hlock : ∀ i, v.Grants h lockRight i → waiterTask (v.current h) = v.running h)
    (hl : e.Leads h v v') : v'.Indexed := by
  have happly : (e.apply h v).Indexed := by
    have hshape := Effect.apply_shape h v e
    cases e with
    | none => exact hv
    | tick now => exact hv.of_shape hshape rfl
    | resched => exact hv
    | block st => exact hv.setState _ _
    | grant i =>
      obtain ⟨⟨m, hm, -⟩, -⟩ := hvalid
      simp only [Effect.apply, hm]
      exact hv.setMutex (fun w hw => hv.waiters i m hm w hw) fun _ => rfl
    | wait i =>
      obtain ⟨⟨m, hm, -⟩, hg⟩ := hvalid
      simp only [Effect.apply, hm]
      refine (hv.setState _ _).setMutex (fun w hw => ?_) (hv.owned i m hm)
      rw [View.isSome_setState]
      rcases BitSet.mem_insert.mp hw with hw | rfl
      · exact hv.waiters i m hm w hw
      · rw [hlock i hg]
        exact hv.running h
    | release i => exact hv.release i
    | transfer x => exact hv.setState _ _
    | kill x =>
      exact View.recoverAll_induction (I := View.Indexed) (fun u i hu _ => hu.release i)
        (hv.setState _ _)
  rcases hl.cases with rfl | ⟨_, -, ⟨rfl, -⟩ | ⟨n, hn, rfl⟩⟩
  · exact happly
  · exact happly
  · exact indexed_swap happly hn

end Keep

theorem sound_of_ok {P : Platform} {h : Hart} {t : Trap} {k k' : Kernel} {sp : Word} (hk : Sound k)
    (hok : trapHandler P h t k = .ok (sp, k')) : Sound k' := by
  obtain ⟨hstep, hmutex, -⟩ := effectStep_of_ok hk hok
  have hstatic : (view k').static = (view k).static := hstep.leads.static
  refine ⟨indexed_leads hk.indexed hstep.valid (fun i hg => ?_) hstep.leads, ?_, ?_, hmutex⟩
  · obtain ⟨s, c, hs, hright⟩ := hg
    exact hk.lockers _ s hs c _ hright
  · rw [hstatic]
    exact hk.caps
  · rw [hstatic]
    exact hk.lockers

/-! ## The waiting task -/

/-- Task `x` is recorded as waiting with state `st`, its context is saved at `sp`, and it does not
run. -/
structure Parked (k : Kernel) (x : TaskId) (st : TaskState) (sp : Word) : Prop where
  state : (view k).state x = some st
  waits : WaitsForPartner st
  savedSp : savedSpOf k x = some sp
  notRunning : ∀ h, (view k).running h ≠ x

theorem state_ne_of_waits {st st' : TaskState} (hw : WaitsForPartner st)
    (hst' : ¬ WaitsForPartner st') : some st ≠ some st' := by
  intro he
  rw [Option.some.inj he] at hw
  exact hst' hw

section Blocks
variable {v v' : View} {h : Hart} {st : TaskState}

/-- A caller that blocks is replaced by another `Ready` task of its hart, if there is one. -/
theorem block_leads (hreg : (v.state (v.running h)).isSome) (hw : WaitsForPartner st)
    {n : Fin MAX_PARTITIONS} (hn : (h, n) ≠ v.running h) (hready : v.state (h, n) = some .ready)
    (hl : (Effect.block st).Leads h v v') :
    v'.state (v.running h) = some st ∧ v'.running h ≠ v.running h ∧
      ∀ h', h' ≠ h → v'.running h' = v.running h' := by
  obtain ⟨st0, hst0⟩ := Option.isSome_iff_exists.mp hreg
  have hcaller : (v.setState (v.running h) st).state (v.running h) = some st := by
    rw [View.state_setState, if_pos rfl, hst0]
    rfl
  have hother : (v.setState (v.running h) st).state (h, n) = some .ready := by
    rw [View.state_setState, if_neg hn, hready]
  rcases hl with ⟨-, hnone⟩ | ⟨n', hn', rfl⟩
  · exact absurd hother (hnone rfl n)
  · have hne : (h, n') ≠ v.running h := by
      intro he
      have hn'' : (v.setState (v.running h) st).state (h, n') = some .ready := hn'
      rw [he, hcaller] at hn''
      exact state_ne_of_waits hw id hn''
    refine ⟨?_, ?_, fun h' hh => ?_⟩
    · rw [View.state_swap, if_neg (fun he => hne he.symm), if_neg]
      · exact hcaller
      · rintro ⟨-, hrun⟩
        exact state_ne_of_waits hw id (hcaller.symm.trans hrun)
    · have hrun : ((v.setState (v.running h) st).swap h n').running h = (h, n') := by
        simp [View.running, View.swap]
      intro he
      exact hne (hrun.symm.trans he)
    · simp [View.running, View.swap, View.setState, Effect.apply, hh]

end Blocks

section Parked
variable {P : Platform} {h : Hart} {t : Trap} {k k' : Kernel} {x : TaskId} {st : TaskState}
  {sp : Word}

theorem resumes_savedSp (hk : Sound k) (hok : trapHandler P h t k = .ok (sp, k'))
    (hne : (view k').running h ≠ (view k).running h) :
    savedSpOf k' ((view k).running h) = some t.userSp := by
  rcases resumes_of_ok hk hok with ⟨-, hsame⟩ | ⟨-, hsaved⟩
  · refine absurd ?_ hne
    have hcur : (view k').current h = (view k).current h := hsame
    rw [View.running, View.running, hcur]
  · exact hsaved

/-- The call that finds no partner: with another `Ready` task on its hart the caller is parked. -/
theorem parked_of_block {l : Spinlock} (hk : Sound k) (hecall : t.mcause = ECALL_UMODE)
    (heff : effect k h t = .block st) (hw : WaitsForPartner st)
    (hl : k.schedLock.lock h = some l) {n : Fin MAX_PARTITIONS} (hn : (h, n) ≠ (view k).running h)
    (hready : (view k).state (h, n) = some .ready) :
    ∃ sp k', trapHandler P h t k = .ok (sp, k') ∧ Sound k' ∧
      Parked k' ((view k).running h) st t.userSp := by
  have hres := trap_result (P := P) (h := h) hk (Or.inr (Or.inr (Or.inl hecall)))
  generalize hout : trapHandler P h t k = o at hres
  cases hres with
  | spins _ hl' =>
    rw [hl] at hl'
    cases hl'
  | lockFree _ he =>
    rw [heff] at he
    cases he
  | runs _ _ hr =>
    cases hr with
    | notOwner he =>
      rw [heff] at he
      cases he
    | copyFault he =>
      rw [heff] at he
      cases he
    | @returns sp k' hleads _ _ _ _ _ =>
      rw [heff] at hleads
      obtain ⟨hstate, hne, hsame⟩ := block_leads (hk.indexed.running h) hw hn hready hleads
      refine ⟨sp, k', rfl, sound_of_ok hk hout, hstate, hw, resumes_savedSp hk hout hne, fun h' => ?_⟩
      by_cases hh : h' = h
      · subst hh
        exact hne
      · rw [hsame h' hh]
        exact fun he => hh (Prod.mk.inj he).1

/-- A trap on either hart that leaves the state of `x` as it is. -/
def LeavesWaiting (P : Platform) (x : TaskId) (k : Kernel) (ev : Hart × Trap × Memory)
    (k' : Kernel) : Prop :=
  (∃ sp, trapHandler P ev.1 ev.2.1 (k.setMem ev.2.2) = .ok (sp, k')) ∧
    (view k').state x = (view k).state x

theorem parked_step {ev : Hart × Trap × Memory} (hk : Sound k) (hx : Parked k x st sp)
    (hstep : LeavesWaiting P x k ev k') : Sound k' ∧ Parked k' x st sp := by
  obtain ⟨h, t, m⟩ := ev
  obtain ⟨⟨sp', hok⟩, hsame⟩ := hstep
  have hkm : Sound (k.setMem m) := hk.congr rfl hk.mutexLock
  obtain ⟨hstep, -, hcaller⟩ := effectStep_of_ok hkm hok
  have hstate : (view k').state x = some st := hsame.trans hx.state
  refine ⟨sound_of_ok hkm hok, hstate, hx.waits, ?_, fun h' hrun => ?_⟩
  · exact (hcaller.savedSp x fun he => hx.notRunning h he.symm).trans hx.savedSp
  · have hshape := Effect.apply_shape h (view (k.setMem m)) (effect (k.setMem m) h t)
    have hcur : ((effect (k.setMem m) h t).apply h (view (k.setMem m))).current h' =
        (view k).current h' := congrFun hshape.current h'
    have hkept : ∀ v : View, v.current h' = (view k).current h' → v.running h' ≠ x := fun v hv he =>
      hx.notRunning h' (by rw [← he, View.running, View.running, hv])
    rcases hstep.leads.cases with hv | ⟨_, -, ⟨hv, -⟩ | ⟨n, -, hv⟩⟩
    · exact hkept _ (hv ▸ hcur) hrun
    · exact hkept _ (hv ▸ hcur) hrun
    · by_cases hh : h' = h
      · subst hh
        have hxn : x = (h', n) := by
          rw [← hrun, hv]
          simp [View.running, View.swap]
        rw [hv, View.state_swap, if_pos hxn] at hstate
        obtain ⟨_, -, hst⟩ := Option.map_eq_some_iff.mp hstate
        rw [← hst] at hx
        exact hx.waits
      · refine hkept (view k') ?_ hrun
        rw [hv, ← hcur]
        simp [View.swap, hh]

theorem parked_run {evs : List (Hart × Trap × Memory)} (hk : Sound k) (hx : Parked k x st sp)
    (hrun : Run (LeavesWaiting P x) k evs k') : Sound k' ∧ Parked k' x st sp :=
  hrun.invariant (I := fun k => Sound k ∧ Parked k x st sp)
    (fun _ _ _ hu hstep => parked_step hu.1 hu.2 hstep) ⟨hk, hx⟩

end Parked

/-! ## The call that finds its partner -/

section Delivery
variable {P : Platform} {h : Hart} {t : Trap} {k : Kernel}

theorem findPartner_unique {α : Type} {want : TaskState → Option α} {x : TaskId} {st : TaskState}
    {a : α} (hx : (view k).state x = some st) (hwant : want st = some a)
    (honly : ∀ y st', (view k).state y = some st' → (want st').isSome → y = x) :
    findPartner want k = some (x.1, x.2, a) := by
  cases hf : findPartner want k with
  | none =>
    rw [findPartner_eq_none hf hx] at hwant
    cases hwant
  | some b =>
    obtain ⟨ph, pi, a'⟩ := b
    obtain ⟨st', hst', hwant'⟩ := findPartner_state hf
    obtain rfl := honly (ph, pi) st' hst' (by rw [hwant']; rfl)
    rw [show (view k).state (ph, pi) = some st' from hst'] at hx
    rw [Option.some.inj hx, hwant] at hwant'
    rw [Option.some.inj hwant']

/-- The memory after a rendezvous: the copy, then the two results. -/
theorem rendezvous_ok (e : Byte) {src dst len : Word} (mine theirs : Word) {spY : Word}
    {y : TaskId} {l : Spinlock} (hl : k.schedLock.lock h = some l) (hy : savedSpOf k y = some spY)
    (hcopy : CopyPermitted P (k.pmp h) src dst len.toNat) :
    ∃ m k', copyBytes P (k.pmp h) len.toNat src dst k.mem = .ok m ∧
      withSchedLock h k (rendezvous P h t e src dst len y mine theirs) = .ok (t.userSp, k') ∧
      k'.mem = (m.writeWord (slot spY 6) theirs).writeWord (slot t.userSp 6) mine := by
  rcases copyBytes_cases P (k.pmp h) len.toNat src dst k.mem with
    ⟨m, hm, -⟩ | ⟨_, _, -, -, hno⟩
  · obtain ⟨tcb, htcb, rfl⟩ := Option.map_eq_some_iff.mp hy
    simp only [withSchedLock, hl, rendezvous, htcb, hm]
    refine ⟨m, _, rfl, rfl, ?_⟩
    split <;> rfl
  · exact absurd hcopy hno

/-- The memory a rendezvous that has returned leaves. -/
theorem mem_of_rendezvous {e : Byte} {src dst len mine theirs sp : Word} {y : TaskId} {k' : Kernel}
    (hok : withSchedLock h k (rendezvous P h t e src dst len y mine theirs) = .ok (sp, k')) :
    ∃ m spY, copyBytes P (k.pmp h) len.toNat src dst k.mem = .ok m ∧ savedSpOf k y = some spY ∧
      k'.mem = (m.writeWord (slot spY 6) theirs).writeWord (slot t.userSp 6) mine := by
  unfold withSchedLock at hok
  split at hok
  · cases hok
  · rename_i l hl
    cases htcb : (k.scheds y.1).taskTable y.2 with
    | none =>
      simp only [rendezvous, htcb] at hok
      cases hok
    | some tcb =>
      cases hm : copyBytes P (k.pmp h) len.toNat src dst k.mem with
      | error f =>
        simp only [rendezvous, htcb, hm] at hok
        cases hok
      | ok m =>
        simp only [rendezvous, htcb, hm] at hok
        refine ⟨m, tcb.savedSp, rfl, ?_, ?_⟩
        · simp [savedSpOf, savedSps, htcb]
        · rw [← (Prod.mk.inj (Except.ok.inj hok)).2]
          split <;> rfl

end Delivery

section Memory
variable {P : Platform} {r : PmpRegs} {before m : Memory} {src dst spA spB mepc : Word} {n size : ℕ}

/-- The copy and the two results, where message, buffer and frames are disjoint: `spB` is the frame of
the caller, whose saved pc has been moved on before the copy. -/
theorem copied_results (vA vB : Word) (hsize : size < 2 ^ 32) (hn : n ≤ size)
    (hsrc : ∀ a, InRange src n a → ¬ InRange dst size a ∧ ¬ InRange spB 128 a)
    (hdst : ∀ a, InRange dst size a → ¬ InRange spA 128 a ∧ ¬ InRange spB 128 a)
    (hframes : ∀ a, InRange spA 128 a → ¬ InRange spB 128 a)
    (hcopy : copyBytes P r n src dst (before.writeWord (slot spB 28) mepc) = .ok m) :
    let after := (m.writeWord (slot spA 6) vA).writeWord (slot spB 6) vB
    (∀ j < n, after (dst + BitVec.ofNat 32 j) = before (src + BitVec.ofNat 32 j)) ∧
    (∀ j, n ≤ j → j < size → after (dst + BitVec.ofNat 32 j) = before (dst + BitVec.ofNat 32 j)) ∧
    after.readWord (slot spA 6) = vA ∧ after.readWord (slot spB 6) = vB := by
  intro after
  have hslot : ∀ {sp a : Word} {i : ℕ}, i < 32 → ¬ InRange sp 128 a → ¬ InRange (slot sp i) 4 a :=
    fun hi ha hin => ha (hin.of_slot (by omega))
  have hafter : ∀ a, ¬ InRange spA 128 a → ¬ InRange spB 128 a → after a = m a := by
    intro a hA hB
    have hB6 : after a = (m.writeWord (slot spA 6) vA) a :=
      writeWord_of_not_inRange _ _ (hslot (i := 6) (by omega) hB)
    rw [hB6, writeWord_of_not_inRange _ _ (hslot (i := 6) (by omega) hA)]
  have hbefore : ∀ a, ¬ InRange spB 128 a → (before.writeWord (slot spB 28) mepc) a = before a :=
    fun a hB => writeWord_of_not_inRange _ _ (hslot (i := 28) (by omega) hB)
  refine ⟨fun j hj => ?_, fun j hnj hj => ?_, ?_, ?_⟩
  · have hin : InRange dst size (dst + BitVec.ofNat 32 j) := inRange_add (by omega)
    have hdisj : ∀ i < n, ¬ InRange dst n (src + BitVec.ofNat 32 i) := fun i hi hd =>
      (hsrc _ (inRange_add hi)).1 (hd.mono hn)
    rw [hafter _ (hdst _ hin).1 (hdst _ hin).2, copyBytes_apply (by omega) hdisj hcopy hj,
      hbefore _ (hsrc _ (inRange_add hj)).2]
  · have hin : InRange dst size (dst + BitVec.ofNat 32 j) := inRange_add hj
    have hout : ¬ InRange dst n (dst + BitVec.ofNat 32 j) := by
      rw [InRange, BitVec.add_comm, BitVec.add_sub_cancel, BitVec.toNat_ofNat]
      omega
    rw [hafter _ (hdst _ hin).1 (hdst _ hin).2, (copyBytes_outside hout).1 m hcopy,
      hbefore _ (hdst _ hin).2]
  · have hword : ∀ a, InRange (slot spA 6) 4 a →
        after a = (m.writeWord (slot spA 6) vA) a := fun a ha =>
      writeWord_of_not_inRange _ _ (hslot (i := 6) (by omega) (hframes a (ha.of_slot (by omega))))
    rw [readWord_congr hword, readWord_writeWord_self]
  · exact readWord_writeWord_self _ _ _

end Memory

/-! ## An exchange -/

/-- A send and a receive on one endpoint, by two tasks. The message, the buffer and the two frames do
not overlap. -/
structure Exchange where
  sender : TaskId
  receiver : TaskId
  endpoint : Byte
  sendTrap : Trap
  recvTrap : Trap
  msgAddr : Word
  msgLen : Word
  bufAddr : Word
  maxLen : Word
  message : ℕ → Byte
  distinct : sender ≠ receiver
  buffers : ∀ a, InRange msgAddr msgLen.toNat a → ¬ InRange bufAddr maxLen.toNat a
  messageOutside : ∀ a, InRange msgAddr msgLen.toNat a →
    ¬ InRange sendTrap.userSp 128 a ∧ ¬ InRange recvTrap.userSp 128 a
  bufferOutside : ∀ a, InRange bufAddr maxLen.toNat a →
    ¬ InRange sendTrap.userSp 128 a ∧ ¬ InRange recvTrap.userSp 128 a
  frames : ∀ a, InRange sendTrap.userSp 128 a → ¬ InRange recvTrap.userSp 128 a

/-- Task `y` runs on its hart and makes syscall `id` with a capability on endpoint `e` and the
arguments `a1` and `a2`; `SCHED_LOCK` is to be had. -/
structure Calls (k : Kernel) (y : TaskId) (t : Trap) (id : ℕ) (right : Capability → Option Byte)
    (e : Byte) (a1 a2 : Word) : Prop where
  running : (view k).running y.1 = y
  lock : (k.schedLock.lock y.1).isSome
  ecall : t.mcause = ECALL_UMODE
  id : (k.readFrame t.userSp 13).toNat = id
  granted : granted k y.1 (k.readFrame t.userSp 6) right = .ok (some e)
  a1 : k.readFrame t.userSp 7 = a1
  a2 : k.readFrame t.userSp 8 = a2

/-- The state waits on endpoint `e`, on either side. -/
def WaitsOn (e : Byte) : TaskState → Prop
  | .blockedOnIpcSend e' _ _ => e' = e
  | .blockedOnIpcRecv e' _ _ => e' = e
  | _ => False

namespace Exchange
variable (x : Exchange)

/-- The bytes that are transferred: the smaller of the two lengths. -/
def len : Word := transferLen x.msgLen x.maxLen

theorem len_toNat : x.len.toNat = min x.msgLen.toNat x.maxLen.toNat := by
  unfold len transferLen
  split
  · rename_i hle
    rw [BitVec.le_def] at hle
    omega
  · rename_i hle
    rw [BitVec.le_def] at hle
    omega

def Sends (k : Kernel) : Prop :=
  Calls k x.sender x.sendTrap 6 sendRight x.endpoint x.msgAddr x.msgLen

def Receives (k : Kernel) : Prop :=
  Calls k x.receiver x.recvTrap 7 recvRight x.endpoint x.bufAddr x.maxLen

def MessageIn (m : Memory) : Prop :=
  ∀ j < x.msgLen.toNat, m (x.msgAddr + BitVec.ofNat 32 j) = x.message j

/-- Where the first call of the exchange is made: the kernel is sound, nobody waits on the endpoint,
and another task of the caller's hart is `Ready`. -/
structure Starts (caller : TaskId) (k : Kernel) : Prop where
  sound : Sound k
  nobody : ∀ y st, (view k).state y = some st → ¬ WaitsOn x.endpoint st
  ready : ∃ n, (caller.1, n) ≠ caller ∧ (view k).state (caller.1, n) = some .ready

/-- The state of `k` is one in which the second call is made: the first one, by `waiter`, has
returned, both harts have taken any traps that leave `waiter` waiting, and tasks have written
memory. -/
def Reaches (P : Platform) (waiter : TaskId) (first : Trap) (k0 k : Kernel) : Prop :=
  ∃ sp k1 evs k2 m, trapHandler P waiter.1 first k0 = .ok (sp, k1) ∧
    Run (LeavesWaiting P waiter) k1 evs k2 ∧ k = k2.setMem m

/-- At the second call: nobody but the first caller waits, the message is still the same, and every
byte of the copy may be accessed by the handler on hart `h`. -/
structure Meets (P : Platform) (waiter : TaskId) (h : Hart) (k : Kernel) : Prop where
  nobodyElse : ∀ y st, (view k).state y = some st → WaitsOn x.endpoint st → y = waiter
  message : x.MessageIn k.mem
  permitted : CopyPermitted P (k.pmp h) x.msgAddr x.bufAddr x.len.toNat

/-- What the exchange leaves in memory: the message, the rest of the buffer as before the second
call, and the two results. -/
structure Delivered (before after : Memory) : Prop where
  message : ∀ j < min x.msgLen.toNat x.maxLen.toNat,
    after (x.bufAddr + BitVec.ofNat 32 j) = x.message j
  rest : ∀ j, min x.msgLen.toNat x.maxLen.toNat ≤ j → j < x.maxLen.toNat →
    after (x.bufAddr + BitVec.ofNat 32 j) = before (x.bufAddr + BitVec.ofNat 32 j)
  sender : after.readWord (slot x.sendTrap.userSp 6) = 0#32
  receiver : after.readWord (slot x.recvTrap.userSp 6) =
    BitVec.ofNat 32 (min x.msgLen.toNat x.maxLen.toNat)

end Exchange

section FirstCall
variable {P : Platform} {x : Exchange} {k : Kernel}

theorem findPartner_none {α : Type} {want : TaskState → Option α}
    (hno : ∀ y st, (view k).state y = some st → want st = none) : findPartner want k = none := by
  refine List.findSome?_eq_none_iff.mpr fun y _ => ?_
  cases hy : k.stateOf y.1 y.2 with
  | none => rfl
  | some st =>
    have hst : (view k).state y = some st := hy
    simp [hno y st hst]

theorem waitingReceiver_waitsOn {e : Byte} {st : TaskState} (hw : (waitingReceiver e st).isSome) :
    WaitsOn e st := by
  obtain ⟨a, ha⟩ := Option.isSome_iff_exists.mp hw
  rw [waitingReceiver_eq_some.mp ha]
  rfl

theorem waitingSender_waitsOn {e : Byte} {st : TaskState} (hw : (waitingSender e st).isSome) :
    WaitsOn e st := by
  obtain ⟨a, ha⟩ := Option.isSome_iff_exists.mp hw
  rw [waitingSender_eq_some.mp ha]
  rfl

theorem send_parks (hstart : x.Starts x.sender k) (hcall : x.Sends k) :
    ∃ sp k1, trapHandler P x.sender.1 x.sendTrap k = .ok (sp, k1) ∧ Sound k1 ∧
      Parked k1 x.sender (.blockedOnIpcSend x.endpoint x.msgAddr x.msgLen) x.sendTrap.userSp := by
  have hnone : findPartner (waitingReceiver x.endpoint) k = none :=
    findPartner_none fun y st hy => by
      by_contra hsome
      exact hstart.nobody y st hy (waitingReceiver_waitsOn (Option.isSome_iff_ne_none.mpr hsome))
  have heff : effect k x.sender.1 x.sendTrap =
      .block (.blockedOnIpcSend x.endpoint x.msgAddr x.msgLen) := by
    rw [effect_of_ecall hcall.ecall]
    simp only [ecallEffect, hcall.id, ipcEffect, hcall.granted, hnone, hcall.a1, hcall.a2]
  obtain ⟨l, hl⟩ := Option.isSome_iff_exists.mp hcall.lock
  obtain ⟨n, hn, hready⟩ := hstart.ready
  have hpark := parked_of_block (P := P) hstart.sound hcall.ecall heff trivial hl
    (by rw [hcall.running]; exact hn) hready
  rw [hcall.running] at hpark
  exact hpark

theorem receive_parks (hstart : x.Starts x.receiver k) (hcall : x.Receives k) :
    ∃ sp k1, trapHandler P x.receiver.1 x.recvTrap k = .ok (sp, k1) ∧ Sound k1 ∧
      Parked k1 x.receiver (.blockedOnIpcRecv x.endpoint x.bufAddr x.maxLen) x.recvTrap.userSp := by
  have hnone : findPartner (waitingSender x.endpoint) k = none :=
    findPartner_none fun y st hy => by
      by_contra hsome
      exact hstart.nobody y st hy (waitingSender_waitsOn (Option.isSome_iff_ne_none.mpr hsome))
  have heff : effect k x.receiver.1 x.recvTrap =
      .block (.blockedOnIpcRecv x.endpoint x.bufAddr x.maxLen) := by
    rw [effect_of_ecall hcall.ecall]
    simp only [ecallEffect, hcall.id, ipcEffect, hcall.granted, hnone, hcall.a1, hcall.a2]
  obtain ⟨l, hl⟩ := Option.isSome_iff_exists.mp hcall.lock
  obtain ⟨n, hn, hready⟩ := hstart.ready
  have hpark := parked_of_block (P := P) hstart.sound hcall.ecall heff trivial hl
    (by rw [hcall.running]; exact hn) hready
  rw [hcall.running] at hpark
  exact hpark

/-- The first caller is still parked when the second call is made. -/
theorem parked_of_reaches {waiter : TaskId} {first : Trap} {k0 k1 : Kernel} {sp sp' : Word}
    {st : TaskState} (hfirst : trapHandler P waiter.1 first k0 = .ok (sp, k1)) (hk1 : Sound k1)
    (hpark : Parked k1 waiter st sp') (hreach : Exchange.Reaches P waiter first k0 k) :
    Sound k ∧ Parked k waiter st sp' := by
  obtain ⟨_, _, evs, k2, m, hok, hrun, rfl⟩ := hreach
  rw [hfirst] at hok
  obtain ⟨rfl, rfl⟩ := Prod.mk.inj (Except.ok.inj hok)
  obtain ⟨hk2, hpark2⟩ := parked_run hk1 hpark hrun
  exact ⟨hk2.congr rfl hk2.mutexLock, hpark2.state, hpark2.waits, hpark2.savedSp,
    hpark2.notRunning⟩

end FirstCall

section SecondCall
variable {P : Platform} {x : Exchange} {k : Kernel}

theorem sendPlan_of_meets (hcall : x.Sends k)
    (hstate : (view k).state x.receiver = some (.blockedOnIpcRecv x.endpoint x.bufAddr x.maxLen))
    (hmeets : x.Meets P x.receiver x.sender.1 k) :
    transferPlan k x.sender.1 x.sendTrap =
      some ⟨x.sender, x.receiver, x.msgAddr, x.bufAddr, x.len⟩ := by
  have hf : findPartner (waitingReceiver x.endpoint) k =
      some (x.receiver.1, x.receiver.2, x.bufAddr, x.maxLen) :=
    findPartner_unique hstate (waitingReceiver_eq_some.mpr rfl) fun y st hy hw =>
      hmeets.nobodyElse y st hy (waitingReceiver_waitsOn hw)
  rw [transferPlan, if_pos hcall.ecall]
  simp only [hcall.id, sendPlan, hcall.granted, hf, Option.map_some, hcall.a1, hcall.a2]
  exact congrArg (fun y => some (Plan.mk y x.receiver x.msgAddr x.bufAddr x.len)) hcall.running

theorem recvPlan_of_meets (hcall : x.Receives k)
    (hstate : (view k).state x.sender = some (.blockedOnIpcSend x.endpoint x.msgAddr x.msgLen))
    (hmeets : x.Meets P x.sender x.receiver.1 k) :
    transferPlan k x.receiver.1 x.recvTrap =
      some ⟨x.sender, x.receiver, x.msgAddr, x.bufAddr, x.len⟩ := by
  have hf : findPartner (waitingSender x.endpoint) k =
      some (x.sender.1, x.sender.2, x.msgAddr, x.msgLen) :=
    findPartner_unique hstate (waitingSender_eq_some.mpr rfl) fun y st hy hw =>
      hmeets.nobodyElse y st hy (waitingSender_waitsOn hw)
  rw [transferPlan, if_pos hcall.ecall]
  simp only [hcall.id, recvPlan, hcall.granted, hf, Option.map_some, hcall.a1, hcall.a2]
  exact congrArg (fun y => some (Plan.mk x.sender y x.msgAddr x.bufAddr x.len)) hcall.running

theorem len_bounds (x : Exchange) : x.len.toNat ≤ x.msgLen.toNat ∧ x.len.toNat ≤ x.maxLen.toNat ∧
    x.len = BitVec.ofNat 32 (min x.msgLen.toNat x.maxLen.toNat) := by
  have hlen := x.len_toNat
  refine ⟨by omega, by omega, ?_⟩
  rw [← hlen]
  simp

theorem delivered_of_copied {before after : Memory} (hmessage : x.MessageIn before)
    (hbytes : ∀ j < x.len.toNat,
      after (x.bufAddr + BitVec.ofNat 32 j) = before (x.msgAddr + BitVec.ofNat 32 j))
    (hrest : ∀ j, x.len.toNat ≤ j → j < x.maxLen.toNat →
      after (x.bufAddr + BitVec.ofNat 32 j) = before (x.bufAddr + BitVec.ofNat 32 j))
    (hsender : after.readWord (slot x.sendTrap.userSp 6) = 0#32)
    (hreceiver : after.readWord (slot x.recvTrap.userSp 6) = x.len) : x.Delivered before after := by
  obtain ⟨hmsg, -, hlen⟩ := len_bounds x
  rw [x.len_toNat] at hbytes hrest hmsg
  exact ⟨fun j hj => (hbytes j hj).trans (hmessage j (by omega)), hrest, hsender,
    hreceiver.trans hlen⟩

theorem send_delivers (hcall : x.Sends k)
    (hpark : Parked k x.receiver (.blockedOnIpcRecv x.endpoint x.bufAddr x.maxLen)
      x.recvTrap.userSp) (hmeets : x.Meets P x.receiver x.sender.1 k) :
    ∃ sp k', trapHandler P x.sender.1 x.sendTrap k = .ok (sp, k') ∧ x.Delivered k.mem k'.mem := by
  obtain ⟨hmsg, hmax, -⟩ := len_bounds x
  have hplan := sendPlan_of_meets hcall hpark.state hmeets
  obtain ⟨e, partner, mine, theirs, -, -, hsides, htrap⟩ := trapHandler_eq_rendezvous P hplan
  obtain ⟨l, hl⟩ := Option.isSome_iff_exists.mp hcall.lock
  cases hsides with
  | receives hreceiver => exact absurd (hreceiver.trans hcall.running).symm x.distinct
  | sends =>
    obtain ⟨m, k', hm, hok, hmem⟩ := rendezvous_ok (P := P) (h := x.sender.1) (t := x.sendTrap)
      (k := k.writeFrame x.sendTrap.userSp 28 (k.readFrame x.sendTrap.userSp 28 + 4#32))
      e 0#32 x.len hl hpark.savedSp hmeets.permitted
    obtain ⟨hbytes, hrest, htheirs, hmine⟩ := copied_results x.len 0#32 x.maxLen.isLt hmax
      (fun a ha => ⟨x.buffers a (ha.mono hmsg), (x.messageOutside a (ha.mono hmsg)).1⟩)
      (fun a ha => ⟨(x.bufferOutside a ha).2, (x.bufferOutside a ha).1⟩)
      (fun a ha hs => x.frames a hs ha) hm
    refine ⟨_, k', htrap.trans hok, ?_⟩
    rw [hmem]
    exact delivered_of_copied hmeets.message hbytes hrest hmine htheirs

theorem receive_delivers (hcall : x.Receives k)
    (hpark : Parked k x.sender (.blockedOnIpcSend x.endpoint x.msgAddr x.msgLen)
      x.sendTrap.userSp) (hmeets : x.Meets P x.sender x.receiver.1 k) :
    ∃ sp k', trapHandler P x.receiver.1 x.recvTrap k = .ok (sp, k') ∧
      x.Delivered k.mem k'.mem := by
  obtain ⟨hmsg, hmax, -⟩ := len_bounds x
  have hplan := recvPlan_of_meets hcall hpark.state hmeets
  obtain ⟨e, partner, mine, theirs, -, -, hsides, htrap⟩ := trapHandler_eq_rendezvous P hplan
  obtain ⟨l, hl⟩ := Option.isSome_iff_exists.mp hcall.lock
  cases hsides with
  | sends hsender => exact absurd (hsender.trans hcall.running) x.distinct
  | receives =>
    obtain ⟨m, k', hm, hok, hmem⟩ := rendezvous_ok (P := P) (h := x.receiver.1) (t := x.recvTrap)
      (k := k.writeFrame x.recvTrap.userSp 28 (k.readFrame x.recvTrap.userSp 28 + 4#32))
      e x.len 0#32 hl hpark.savedSp hmeets.permitted
    obtain ⟨hbytes, hrest, htheirs, hmine⟩ := copied_results 0#32 x.len x.maxLen.isLt hmax
      (fun a ha => ⟨x.buffers a (ha.mono hmsg), (x.messageOutside a (ha.mono hmsg)).2⟩)
      (fun a ha => ⟨(x.bufferOutside a ha).1, (x.bufferOutside a ha).2⟩) x.frames hm
    refine ⟨_, k', htrap.trans hok, ?_⟩
    rw [hmem]
    exact delivered_of_copied hmeets.message hbytes hrest htheirs hmine

end SecondCall

/-- The exchange in either order. Each first call returns, having blocked; each second call returns,
with the message delivered and the results written; and the two orders leave the same results, and
the same bytes in the buffer as far as they agreed on the bytes past the message. -/
theorem ipc_order_independent (P : Platform) (x : Exchange) (ks kr k k' : Kernel)
    (hsendStart : x.Starts x.sender ks) (hsend : x.Sends ks)
    (hrecvStart : x.Starts x.receiver kr) (hrecv : x.Receives kr)
    (hsendFirst : Exchange.Reaches P x.sender x.sendTrap ks k) (hthenRecv : x.Receives k)
    (hmeets : x.Meets P x.sender x.receiver.1 k)
    (hrecvFirst : Exchange.Reaches P x.receiver x.recvTrap kr k') (hthenSend : x.Sends k')
    (hmeets' : x.Meets P x.receiver x.sender.1 k') :
    (∃ sp k1, trapHandler P x.sender.1 x.sendTrap ks = .ok (sp, k1)) ∧
    (∃ sp k1, trapHandler P x.receiver.1 x.recvTrap kr = .ok (sp, k1)) ∧
    ∃ sp k2 sp' k2', trapHandler P x.receiver.1 x.recvTrap k = .ok (sp, k2) ∧
      trapHandler P x.sender.1 x.sendTrap k' = .ok (sp', k2') ∧
      x.Delivered k.mem k2.mem ∧ x.Delivered k'.mem k2'.mem ∧
      (∀ j < x.maxLen.toNat,
        (min x.msgLen.toNat x.maxLen.toNat ≤ j →
          k.mem (x.bufAddr + BitVec.ofNat 32 j) = k'.mem (x.bufAddr + BitVec.ofNat 32 j)) →
        k2.mem (x.bufAddr + BitVec.ofNat 32 j) = k2'.mem (x.bufAddr + BitVec.ofNat 32 j)) ∧
      k2.readFrame x.sendTrap.userSp 6 = k2'.readFrame x.sendTrap.userSp 6 ∧
      k2.readFrame x.recvTrap.userSp 6 = k2'.readFrame x.recvTrap.userSp 6 := by
  obtain ⟨sp1, k1, hok1, hk1, hpark1⟩ := send_parks (P := P) hsendStart hsend
  obtain ⟨sp1', k1', hok1', hk1', hpark1'⟩ := receive_parks (P := P) hrecvStart hrecv
  obtain ⟨-, hpark⟩ := parked_of_reaches hok1 hk1 hpark1 hsendFirst
  obtain ⟨-, hpark'⟩ := parked_of_reaches hok1' hk1' hpark1' hrecvFirst
  obtain ⟨sp2, k2, hok2, hdel⟩ := receive_delivers hthenRecv hpark hmeets
  obtain ⟨sp2', k2', hok2', hdel'⟩ := send_delivers hthenSend hpark' hmeets'
  refine ⟨⟨sp1, k1, hok1⟩, ⟨sp1', k1', hok1'⟩, sp2, k2, sp2', k2', hok2, hok2', hdel, hdel',
    fun j hj hagree => ?_, hdel.sender.trans hdel'.sender.symm,
    hdel.receiver.trans hdel'.receiver.symm⟩
  by_cases hjn : j < min x.msgLen.toNat x.maxLen.toNat
  · rw [hdel.message j hjn, hdel'.message j hjn]
  · rw [hdel.rest j (by omega) hj, hdel'.rest j (by omega) hj]
    exact hagree (by omega)

/-! ### Task A and HSM Task -/

instance (e : Byte) : (st : TaskState) → Decidable (WaitsOn e st)
  | .blockedOnIpcSend e' _ _ => inferInstanceAs (Decidable (e' = e))
  | .blockedOnIpcRecv e' _ _ => inferInstanceAs (Decidable (e' = e))
  | .ready | .running | .blocked _ | .blockedOnMutex _ | .terminated => isFalse id

/-- Every task that waits on `e` meets `p`. -/
def AllWaiting (e : Byte) (k : Kernel) (p : TaskId → Prop) : Prop :=
  ∀ y st, (view k).state y = some st → WaitsOn e st → p y

instance (e : Byte) (k : Kernel) (p : TaskId → Prop) [DecidablePred p] :
    Decidable (AllWaiting e k p) :=
  decidable_of_iff
    (slots.all fun y => ((view k).state y).all fun st => decide (WaitsOn e st → p y))
    (by
      simp only [List.all_eq_true, Option.all_eq_true, decide_eq_true_eq]
      exact ⟨fun hall y st => hall y (mem_slots y) st, fun hall y _ st => hall y st⟩)

instance (k : Kernel) (y : TaskId) (t : Trap) (id : ℕ) (right : Capability → Option Byte) (e : Byte)
    (a1 a2 : Word) : Decidable (Calls k y t id right e a1 a2) :=
  decidable_of_iff ((view k).running y.1 = y ∧ (k.schedLock.lock y.1).isSome ∧
      t.mcause = ECALL_UMODE ∧ (k.readFrame t.userSp 13).toNat = id ∧
      (granted k y.1 (k.readFrame t.userSp 6) right).toOption = some (some e) ∧
      k.readFrame t.userSp 7 = a1 ∧ k.readFrame t.userSp 8 = a2)
    ⟨fun ⟨h1, h2, h3, h4, h5, h6, h7⟩ => ⟨h1, h2, h3, h4, eq_ok_of_toOption h5, h6, h7⟩,
      fun hc => ⟨hc.running, hc.lock, hc.ecall, hc.id, by rw [hc.granted]; rfl, hc.a1, hc.a2⟩⟩

instance (x : Exchange) (k : Kernel) : Decidable (x.Sends k) := by
  unfold Exchange.Sends
  infer_instance

instance (x : Exchange) (k : Kernel) : Decidable (x.Receives k) := by
  unfold Exchange.Receives
  infer_instance

instance (P : Platform) (x : Exchange) (waiter : TaskId) (h : Hart) (k : Kernel) :
    Decidable (x.Meets P waiter h k) :=
  decidable_of_iff (AllWaiting x.endpoint k (· = waiter) ∧
      (∀ j < x.msgLen.toNat, k.mem (x.msgAddr + BitVec.ofNat 32 j) = x.message j) ∧
      ∀ j < x.len.toNat,
        (P.mapped (x.msgAddr + BitVec.ofNat 32 j) &&
          mModeMay (k.pmp h) .read (x.msgAddr + BitVec.ofNat 32 j)) ∧
        (P.mapped (x.bufAddr + BitVec.ofNat 32 j) &&
          mModeMay (k.pmp h) .write (x.bufAddr + BitVec.ofNat 32 j)))
    ⟨fun ⟨h1, h2, h3⟩ => ⟨h1, h2, h3⟩, fun hm => ⟨hm.nobodyElse, hm.message, hm.permitted⟩⟩

/-- The part of `Starts` that concerns the tasks. -/
def clear (e : Byte) (caller : TaskId) (k : Kernel) : Bool :=
  decide (AllWaiting e k fun _ => False) &&
    decide (∃ n : Fin MAX_PARTITIONS, (caller.1, n) ≠ caller ∧
      (view k).state (caller.1, n) = some .ready)

/-- Task A sends the four bytes at the bottom of its stack, HSM Task has room for two. -/
def request : Exchange where
  sender := taskA
  receiver := hsmTask
  endpoint := 2
  sendTrap := ⟨ECALL_UMODE, 0x3FC82400, 0⟩
  recvTrap := ⟨ECALL_UMODE, 0x3FC82600, 0⟩
  msgAddr := 0x3FC80400
  msgLen := 4
  bufAddr := 0x3FC81000
  maxLen := 2
  message := fun j => if j = 0 then 0xAA else 0
  distinct := by decide
  buffers := inRange_disjoint (by decide) (by decide)
  messageOutside := fun a ha =>
    ⟨inRange_disjoint (by decide) (by decide) a ha, inRange_disjoint (by decide) (by decide) a ha⟩
  bufferOutside := fun a ha =>
    ⟨inRange_disjoint (by decide) (by decide) a ha, inRange_disjoint (by decide) (by decide) a ha⟩
  frames := inRange_disjoint (by decide) (by decide)

def requestMemory : Memory :=
  Function.update (syscallFrame 0x3FC82400 6 2 0x3FC80400 4) 0x3FC80400 0xAA

def listenMemory : Memory :=
  Function.update (syscallFrame 0x3FC82600 7 0 0x3FC81000 2) 0x3FC80400 0xAA

theorem starts_of_clear {x : Exchange} {caller : TaskId} {k : Kernel} (hk : Sound k)
    (hclear : clear x.endpoint caller k = true) : x.Starts caller k := by
  simp only [clear, Bool.and_eq_true, decide_eq_true_eq] at hclear
  exact ⟨hk, hclear.1, hclear.2⟩

/-- The kernel the second call of `request` finds, after the first call, `evs` and a change of the
memory to `m`; `none` if a call does not return. -/
def secondCall (waiter : TaskId) (first : Trap) (evs : List (Hart × Trap × Memory)) (m : Memory)
    (k : Kernel) : Option Kernel :=
  match trapHandler packedPlatform waiter.1 first k with
  | .ok (_, k1) => (evs.foldlM (fun k ev => (afterTrap packedPlatform ev.1 ev.2.1 (k.setMem ev.2.2)).bind
      fun k' => if (view k').state waiter = (view k).state waiter then some k' else none) k1).map
        fun k2 => k2.setMem m
  | .error _ => none

theorem reaches_of_secondCall {waiter : TaskId} {first : Trap} {evs : List (Hart × Trap × Memory)}
    {m : Memory} {k0 k : Kernel} (hsecond : secondCall waiter first evs m k0 = some k) :
    Exchange.Reaches packedPlatform waiter first k0 k := by
  unfold secondCall at hsecond
  split at hsecond
  · rename_i sp k1 hok
    obtain ⟨k2, hfold, rfl⟩ := Option.map_eq_some_iff.mp hsecond
    refine ⟨sp, k1, evs, k2, m, hok, (Run.of_foldlM hfold).mono fun u ev u' hu => ?_, rfl⟩
    obtain ⟨k', hafter, hif⟩ := Option.bind_eq_some_iff.mp hu
    split at hif
    · rename_i hsame
      rw [← Option.some.inj hif]
      exact ⟨afterTrap_ok hafter, hsame⟩
    · cases hif
  · cases hsecond

theorem ipc_order_independent_request :
    ∃ k k' sp k2 sp' k2', trapHandler packedPlatform 0 request.recvTrap k = .ok (sp, k2) ∧
      trapHandler packedPlatform 0 request.sendTrap k' = .ok (sp', k2') ∧
      request.Delivered k.mem k2.mem ∧ request.Delivered k'.mem k2'.mem := by
  obtain ⟨s, hs, hf⟩ := run_of_eval packedPlatform bootSystem [syscall 0 1 0 0 0]
    (fun s => (clear 2 taskA (s.kernel.setMem requestMemory),
      decide (request.Sends (s.kernel.setMem requestMemory)),
      (secondCall taskA request.sendTrap [] listenMemory (s.kernel.setMem requestMemory)).map
        fun k => (decide (request.Receives k), decide (request.Meets packedPlatform taskA 0 k))))
    (true, true, some (true, true)) (by decide +kernel)
  obtain ⟨s', hs', hf'⟩ := run_of_eval packedPlatform bootSystem
    [syscall 0 1 0 0 0, syscall 0 1 0 0 0]
    (fun s => (clear 2 hsmTask (s.kernel.setMem listenMemory),
      decide (request.Receives (s.kernel.setMem listenMemory)),
      (secondCall hsmTask request.recvTrap
        [(0, ⟨ECALL_UMODE, 0x3FC82400, 0⟩, syscallFrame 0x3FC82400 1 0 0 0)] requestMemory
          (s.kernel.setMem listenMemory)).map
        fun k => (decide (request.Sends k), decide (request.Meets packedPlatform hsmTask 0 k))))
    (true, true, some (true, true)) (by decide +kernel)
  simp only [Prod.mk.injEq, decide_eq_true_eq, Option.map_eq_some_iff] at hf hf'
  obtain ⟨hclear, hsend, k, hk, hrecv2, hmeets⟩ := hf
  obtain ⟨hclear', hrecv, k', hk', hsend2, hmeets'⟩ := hf'
  have hinv : SysInv s := sysInv_run bootSystem_initial hs
  have hinv' : SysInv s' := sysInv_run bootSystem_initial hs'
  obtain ⟨-, -, sp, k2, sp', k2', hok, hok', hdel, hdel', -⟩ :=
    ipc_order_independent packedPlatform request (s.kernel.setMem requestMemory)
      (s'.kernel.setMem listenMemory) k k' (starts_of_clear (hinv.sound _) hclear) hsend
      (starts_of_clear (hinv'.sound _) hclear') hrecv (reaches_of_secondCall hk) hrecv2 hmeets
      (reaches_of_secondCall hk') hsend2 hmeets'
  exact ⟨k, k', sp, k2, sp', k2', hok, hok', hdel, hdel'⟩

end Cerberus.Ipc
