import Cerberus.Ipc.Rendezvous
import Cerberus.Mutex.Termination

/-! # Least privilege

What a system call may change beyond its caller: the partner of a granted rendezvous, a mutex the
caller has a capability for and the waiter that gets it, and the task the scheduler swaps in. Syscall 8
checks no capability, so it is the one call that can do more. -/
namespace Cerberus.Containment
open Kernel Scheduler Sync Transition Mutex Ipc
set_option autoImplicit false

/-! ## What is permitted -/

def tcbOf (k : Kernel) (x : TaskId) : Option TaskControlBlock := (k.scheds x.1).taskTable x.2

/-- The C-list of `x` contains `Mutex { mutex_idx: i, .. }`. -/
def NamesMutex (v : View) (x : TaskId) (i : Fin 8) : Prop :=
  ∃ st c canLock canUnlock, v.static x = some st ∧
    st.capabilities c = .mutex (BitVec.ofNat 8 i.val) canLock canUnlock

/-- The ways the caller on hart `h` may make another task `y` runnable: as the partner of a transfer
its C-list grants, or as the waiter that gets a mutex its C-list names. -/
inductive Wakes (k : Kernel) (h : Hart) (t : Trap) (k' : Kernel) (y : TaskId) : Prop where
  | sends {e : Byte} {p : Plan} (hp : transferPlan k h t = some p)
      (he : transferEndpoint k h t = some e) (hsender : p.sender = (view k).running h)
      (hreceiver : p.receiver = y) (hmay : MaySend (view k) ((view k).running h) e)
  | receives {e : Byte} {p : Plan} (hp : transferPlan k h t = some p)
      (he : transferEndpoint k h t = some e) (hreceiver : p.receiver = (view k).running h)
      (hsender : p.sender = y) (hmay : MayRecv (view k) ((view k).running h) e)
  | waiter {i : Fin 8} {m m' : KernelMutex} (hcap : NamesMutex (view k) ((view k).running h) i)
      (hm : k.mutexes i = some m) (hw : BitSet.Mem m.waitersBitmap y.2)
      (hm' : k'.mutexes i = some m') (howner : m'.ownerTaskIdx = some (ownerByte y.2))

/-- Every change to another control block is the wake-up of such a task, or the swap from `Ready` to
`Running` on the caller's hart; every mutex that changes is named in the caller's C-list. -/
structure LeastPrivilege (k : Kernel) (h : Hart) (t : Trap) (k' : Kernel) : Prop where
  tasks : ∀ y, y ≠ (view k).running h → tcbOf k' y ≠ tcbOf k y → ∃ tcb, tcbOf k y = some tcb ∧
    ((Wakes k h t k' y ∧ tcbOf k' y = some { tcb with state := .ready }) ∨
      ((Wakes k h t k' y ∨ tcb.state = .ready) ∧ y = (view k').running h ∧
        tcbOf k' y = some { tcb with state := .running }))
  mutexes : ∀ i, k'.mutexes i ≠ k.mutexes i → NamesMutex (view k) ((view k).running h) i

/-- The call is not syscall 8 on another registered task, or that task is `Terminated` already, or gets
back a mutex of its own, and the caller has a capability for each mutex the task owns. -/
def Authorised (k : Kernel) (h : Hart) (t : Trap) : Prop :=
  ∀ x, (k.readFrame t.userSp 13).toNat = 8 → findTask k (k.readFrame t.userSp 6) = some x →
    x ≠ (view k).running h →
    ((view k).state x = some .terminated ∨
      ∃ i, (view k).Owns x.2 i ∧ heirOf (view k) i = some x) ∧
    ∀ i, (view k).Owns x.2 i → NamesMutex (view k) ((view k).running h) i

/-! ## Control blocks and states -/

section Blocks
variable {k k' : Kernel} {y : TaskId}

/-- Where the other fields are the same, the state says what a control block is. -/
theorem tcbOf_eq {tcb : TaskControlBlock} {st : TaskState} (hfixed : fixedOf k' y = fixedOf k y)
    (hsp : savedSpOf k' y = savedSpOf k y) (htcb : tcbOf k y = some tcb)
    (hst : (view k').state y = some st) : tcbOf k' y = some { tcb with state := st } := by
  have hfixed' : (tcbOf k' y).map fixedPart = (tcbOf k y).map fixedPart := hfixed
  have hsp' : (tcbOf k' y).map TaskControlBlock.savedSp =
      (tcbOf k y).map TaskControlBlock.savedSp := hsp
  have hst' : (tcbOf k' y).map TaskControlBlock.state = some st := hst
  rw [htcb] at hfixed' hsp'
  obtain ⟨tcb', htcb', hstate⟩ := Option.map_eq_some_iff.mp hst'
  rw [htcb'] at hfixed' hsp' ⊢
  have hparts := Option.some.inj hfixed'
  have hsps : tcb'.savedSp = tcb.savedSp := Option.some.inj hsp'
  simp only [fixedPart, TaskControlBlock.mk.injEq, true_and] at hparts
  obtain ⟨hprio, hactive, hname, hcaps⟩ := hparts
  obtain ⟨sp', prio', active', state', name', caps'⟩ := tcb'
  simp only at hsps hprio hactive hname hcaps hstate
  subst hsps hprio hactive hname hcaps hstate
  rfl

theorem tcbOf_of_state {st : TaskState} (hst : (view k).state y = some st) :
    ∃ tcb, tcbOf k y = some tcb ∧ tcb.state = st :=
  Option.map_eq_some_iff.mp hst

end Blocks

/-! ## From the effect to the whole trap -/

section Traps
variable {v v' : View} {h : Hart} {W : TaskId → Prop}

/-- The states after an effect that wakes only tasks in `W`, seen after the scheduler has run. -/
theorem states_of_leads {e : Effect} (hl : e.Leads h v v')
    (happly : ∀ y, y ≠ v.running h → (e.apply h v).state y = v.state y ∨
      (W y ∧ (e.apply h v).state y = some .ready)) {y : TaskId} (hy : y ≠ v.running h)
    (hne : v'.state y ≠ v.state y) :
    (W y ∧ v'.state y = some .ready) ∨
      ((W y ∨ v.state y = some .ready) ∧ y = v'.running h ∧ v'.state y = some .running) := by
  have hcur := congrFun (Effect.apply_shape h v e).current h
  have hkept : ∀ u : View, u.state y = (e.apply h v).state y → u.state y ≠ v.state y →
      W y ∧ u.state y = some .ready := by
    intro u hu hchanged
    rcases happly y hy with hsame | ⟨hw, hready⟩
    · exact absurd (hu.trans hsame) hchanged
    · exact ⟨hw, hu.trans hready⟩
  rcases hl.cases with rfl | ⟨_, -, ⟨rfl, -⟩ | ⟨n, hn, rfl⟩⟩
  · exact Or.inl (hkept _ rfl hne)
  · exact Or.inl (hkept _ rfl hne)
  · by_cases hyn : y = (h, n)
    · refine Or.inr ⟨?_, ?_, ?_⟩
      · rcases happly y hy with hsame | ⟨hw, -⟩
        · rw [hyn] at hsame ⊢
          exact Or.inr (hsame.symm.trans hn)
        · exact Or.inl hw
      · rw [hyn]
        simp [View.running, View.swap]
      · rw [View.state_swap, if_pos hyn, hyn, hn]
        rfl
    · refine Or.inl (hkept _ ?_ hne)
      rw [View.state_swap, if_neg hyn, if_neg]
      rintro ⟨hrun, -⟩
      refine hy (hrun.trans ?_)
      rw [View.running, View.running, hcur]

end Traps

/-! ## Released mutexes -/

section Release
variable {v : View}

theorem namesMutex_of_grants {h : Hart} {right : Capability → Option Byte} {i : Fin 8}
    (hright : right = lockRight ∨ right = unlockRight) (hg : v.Grants h right i) :
    NamesMutex v (v.running h) i := by
  obtain ⟨st, c, hst, hcap⟩ := hg
  cases hc : st.capabilities c with
  | mutex j canLock canUnlock =>
    refine ⟨st, c, canLock, canUnlock, hst, ?_⟩
    rw [hc] at hcap ⊢
    rcases hright with rfl | rfl
    · cases canLock <;> simp_all [lockRight]
    · cases canUnlock <;> simp_all [unlockRight]
  | none => rcases hright with rfl | rfl <;> simp [hc, lockRight, unlockRight] at hcap
  | ipc e canSend canRecv =>
    rcases hright with rfl | rfl <;> simp [hc, lockRight, unlockRight] at hcap

/-- The owner of a mutex has a capability for it. -/
theorem namesMutex_of_owns (hv : v.BootShape) {x : TaskId} (hx : (v.state x).isSome) {i : Fin 8}
    (hown : v.Owns x.2 i) : NamesMutex v x i := by
  obtain ⟨m, hm, ho⟩ := hown
  obtain rfl := hv.mutexes i m hm
  obtain ⟨y, hy, hbyte⟩ := hv.owners 0 m hm _ ho
  obtain rfl := eq_of_locker_index hv hy hx (ownerByte_inj hbyte)
  unfold NamesMutex
  rw [hv.static]
  rcases hy with rfl | rfl
  · exact ⟨_, 0, true, true, rfl, rfl⟩
  · exact ⟨_, 0, true, true, rfl, rfl⟩

/-- A release makes the heir `Ready`, records it as the owner, and leaves the other states. -/
theorem release_state (hv : v.BootShape) {i : Fin 8} {m : KernelMutex} (hm : v.mutexes i = some m)
    (y : TaskId) :
    (v.release i).state y = v.state y ∨
      (BitSet.Mem m.waitersBitmap y.2 ∧ heirOf v i = some y ∧ (v.release i).state y = some .ready ∧
        ∃ m', (v.release i).mutexes i = some m' ∧ m'.ownerTaskIdx = some (ownerByte y.2)) := by
  rcases release_spec hm with ⟨-, hr⟩ | ⟨w, hheir, hw, hr⟩
  · rw [hr]
    exact Or.inl rfl
  · by_cases hy : y = waiterTask w
    · have hreg : (v.state y).isSome := by
        rw [hy]
        exact hv.indexed.waiters i m hm w hw
      obtain ⟨st, hst⟩ := Option.isSome_iff_exists.mp hreg
      have hyw : y.2 = w := by rw [hy]; rfl
      refine Or.inr ⟨hyw ▸ hw, by simp [heirOf, hm, hheir, hy], ?_, m.handTo w, ?_, ?_⟩
      · rw [hr, View.state_setState, if_pos hy, ← hy, View.setMutex_state, hst]
        rfl
      · rw [hr, View.setState_mutexes, View.mutexes_setMutex, if_pos rfl]
      · rw [hyw]
        rfl
    · rw [hr, View.state_setState, if_neg hy]
      exact Or.inl rfl

theorem release_state_of_heir {i : Fin 8} {y : TaskId} (hy : (v.state y).isSome)
    (hheir : heirOf v i = some y) : (v.release i).state y = some .ready := by
  obtain ⟨m, hm, hy'⟩ := Option.bind_eq_some_iff.mp hheir
  obtain ⟨st, hst⟩ := Option.isSome_iff_exists.mp hy
  rcases release_spec hm with ⟨hnone, -⟩ | ⟨w, hw, -, hr⟩
  · rw [hnone] at hy'
    cases hy'
  · rw [hw] at hy'
    obtain rfl := Option.some.inj hy'
    rw [hr, View.state_setState, if_pos rfl, View.setMutex_state, hst]
    rfl

/-- A release changes the mutex, whoever owned it. -/
theorem release_mutexes_ne {i : Fin 8} {target : Fin MAX_PARTITIONS} (hown : v.Owns target i) :
    (v.release i).mutexes i ≠ v.mutexes i := by
  obtain ⟨m, hm, ho⟩ := hown
  rw [hm]
  rcases release_spec hm with ⟨-, hr⟩ | ⟨w, -, hw, hr⟩
  · rw [hr, View.mutexes_setMutex, if_pos rfl]
    intro he
    rw [← Option.some.inj he] at ho
    cases ho
  · rw [hr, View.setState_mutexes, View.mutexes_setMutex, if_pos rfl]
    intro he
    have hbits : m.waitersBitmap &&& ~~~bit w = m.waitersBitmap :=
      congrArg KernelMutex.waitersBitmap (Option.some.inj he)
    rw [← hbits] at hw
    exact (BitSet.mem_erase.mp hw).2 rfl

end Release

/-! ## What each effect changes -/

/-- An effect that wakes only the tasks it may wake, and changes only mutexes the caller has a
capability for. -/
structure Permitted (k : Kernel) (h : Hart) (t : Trap) (k' : Kernel) (e : Effect) : Prop where
  states : ∀ y, y ≠ (view k).running h → (e.apply h (view k)).state y = (view k).state y ∨
    (Wakes k h t k' y ∧ (e.apply h (view k)).state y = some .ready)
  mutexes : ∀ i, (e.apply h (view k)).mutexes i ≠ (view k).mutexes i →
    NamesMutex (view k) ((view k).running h) i

section Effects
variable {k k' : Kernel} {h : Hart} {t : Trap} {e : Effect}

theorem leastPrivilege_of_permitted (hfixed : ∀ y, fixedOf k' y = fixedOf k y)
    (hcaller : CallerOnly h k k') (hleads : e.Leads h (view k) (view k'))
    (hp : Permitted k h t k' e) : LeastPrivilege k h t k' := by
  refine ⟨fun y hy hne => ?_, fun i hi => hp.mutexes i fun he => hi ?_⟩
  · have hsp : savedSpOf k' y = savedSpOf k y := hcaller.savedSp y hy
    cases hst : (view k).state y with
    | none =>
      have hnone : (view k').state y = none := by
        have hsome := hleads.isSome y
        rw [hst] at hsome
        exact Option.isSome_eq_false_iff.mp hsome |> Option.isNone_iff_eq_none.mp
      have htcb : tcbOf k y = none := Option.map_eq_none_iff.mp hst
      have htcb' : tcbOf k' y = none := Option.map_eq_none_iff.mp hnone
      exact absurd (htcb'.trans htcb.symm) hne
    | some st =>
      obtain ⟨tcb, htcb, rfl⟩ := tcbOf_of_state hst
      have hblock : ∀ st', (view k').state y = some st' →
          tcbOf k' y = some { tcb with state := st' } := fun st' hst' =>
        tcbOf_eq (hfixed y) hsp htcb hst'
      have hchanged : (view k').state y ≠ (view k).state y := by
        intro hsame
        refine hne ?_
        rw [hblock tcb.state (hsame.trans hst), htcb]
      refine ⟨tcb, htcb, ?_⟩
      rcases states_of_leads hleads hp.states hy hchanged with ⟨hw, hready⟩ | ⟨hwhy, hrun, hrunning⟩
      · exact Or.inl ⟨hw, hblock _ hready⟩
      · refine Or.inr ⟨hwhy.imp_right fun hready => ?_, hrun, hblock _ hrunning⟩
        exact Option.some.inj (hst.symm.trans hready)
  · have hm := congrFun hleads.mutexes i
    exact hm.trans he

/-- A release of a mutex the caller has a capability for. -/
theorem released_permitted {u : View} (hu : u.BootShape) (hum : u.mutexes = (view k).mutexes)
    {i : Fin 8} {m : KernelMutex} (hm : u.mutexes i = some m)
    (hcap : NamesMutex (view k) ((view k).running h) i)
    (hk' : k'.mutexes = (u.release i).mutexes) (y : TaskId) :
    (u.release i).state y = u.state y ∨
      (Wakes k h t k' y ∧ (u.release i).state y = some .ready) := by
  rcases release_state hu hm y with hsame | ⟨hw, -, hready, m', hm', howner⟩
  · exact Or.inl hsame
  · have hmk : k.mutexes i = some m := (congrFun hum i).symm.trans hm
    exact Or.inr ⟨.waiter hcap hmk hw ((congrFun hk' i).trans hm') howner, hready⟩

theorem state_terminate {v : View} {x y : TaskId} (hy : y ≠ x ∨ v.state x = some .terminated) :
    (v.setState x .terminated).state y = v.state y := by
  rw [View.state_setState]
  split
  · rename_i hyx
    rw [hyx, hy.resolve_left (not_not_intro hyx)]
    rfl
  · rfl

/-- A termination whose target is the caller, or has ended already, or gets its own mutex back. -/
theorem permitted_kill (hv : (view k).BootShape) {x : TaskId} (hx : ((view k).state x).isSome)
    (hleads : (Effect.kill x).Leads h (view k) (view k'))
    (hother : x ≠ (view k).running h → (view k).state x = some .terminated ∨
      ∃ i, (view k).Owns x.2 i ∧ heirOf (view k) i = some x)
    (hcap : ∀ i, (view k).Owns x.2 i → NamesMutex (view k) ((view k).running h) i) :
    Permitted k h t k' (.kill x) := by
  have hshape : ((view k).setState x .terminated).BootShape :=
    hv.setState _ fun b hb => by cases hb
  by_cases hown : (view k).Owns x.2 0
  · have happly := apply_kill_of_owns hv h hown
    obtain ⟨m, hm, -⟩ := id hown
    have hk' : k'.mutexes = (((view k).setState x .terminated).release 0).mutexes := by
      rw [← happly]
      exact hleads.mutexes
    have hrel := released_permitted (t := t) hshape rfl hm (hcap 0 hown) hk'
    refine ⟨fun y hy => ?_, fun i hi => ?_⟩
    · rw [happly]
      rcases hrel y with hsame | hwoken
      · refine Or.inl (hsame.trans (state_terminate ?_))
        by_cases hyx : y = x
        · subst hyx
          refine Or.inr ((hother hy).resolve_right ?_)
          rintro ⟨i, ⟨mi, hmi, -⟩, hheir⟩
          obtain rfl := hv.mutexes i mi hmi
          have hreg : (((view k).setState y .terminated).state y).isSome := by
            rw [View.isSome_setState]
            exact hx
          have hready := release_state_of_heir (v := (view k).setState y .terminated) hreg hheir
          rw [hsame, View.state_setState, if_pos rfl] at hready
          obtain ⟨_, -, hst⟩ := Option.map_eq_some_iff.mp hready
          cases hst
        · exact Or.inl hyx
      · exact Or.inr hwoken
    · by_cases hi0 : i = 0
      · rw [hi0]
        exact hcap 0 hown
      · rw [happly, View.mutexes_release_of_ne hi0] at hi
        exact absurd rfl hi
  · have happly := apply_kill_of_not_owns hv h hown
    refine ⟨fun y hy => Or.inl ?_, fun i hi => ?_⟩
    · rw [happly]
      refine state_terminate ?_
      by_cases hyx : y = x
      · subst hyx
        refine Or.inr ((hother hy).resolve_right ?_)
        rintro ⟨i, hi, -⟩
        obtain ⟨mi, hmi, -⟩ := id hi
        obtain rfl := hv.mutexes i mi hmi
        exact hown hi
      · exact Or.inl hyx
    · rw [happly] at hi
      exact absurd rfl hi

theorem permitted_of_authorised (hk : Sound k) (hv : (view k).BootShape)
    (hecall : t.mcause = ECALL_UMODE)
    (hstep : EffectStep h (effect k h t) (view k) (view k')) (hauth : Authorised k h t) :
    Permitted k h t k' (effect k h t) := by
  have hcases := ecall_cases (k := k) (h := h) hecall
  have hspec := fun p hp => transferPlan_spec (p := p) hk (h := h) (t := t) hp
  obtain ⟨hvalid, hleads, -⟩ := hstep
  generalize effect k h t = e at *
  have hrunning : ∀ st y, y ≠ (view k).running h →
      ((view k).setState ((view k).running h) st).state y = (view k).state y := fun st y hy => by
    rw [View.state_setState, if_neg hy]
  cases hcases with
  | none => exact ⟨fun _ _ => Or.inl rfl, fun _ hi => absurd rfl hi⟩
  | resched => exact ⟨fun _ _ => Or.inl rfl, fun _ hi => absurd rfl hi⟩
  | sleep w => exact ⟨fun y hy => Or.inl (hrunning _ y hy), fun _ hi => absurd rfl hi⟩
  | blockSend a l => exact ⟨fun y hy => Or.inl (hrunning _ y hy), fun _ hi => absurd rfl hi⟩
  | blockRecv a l => exact ⟨fun y hy => Or.inl (hrunning _ y hy), fun _ hi => absurd rfl hi⟩
  | grant i =>
    obtain ⟨⟨m, hm, -⟩, hg⟩ := hvalid
    refine ⟨fun y _ => Or.inl ?_, fun j hj => ?_⟩
    · simp only [Effect.apply, hm]
      rfl
    · simp only [Effect.apply, hm] at hj
      rw [View.eq_of_setMutex _ _ _ _ hj]
      exact namesMutex_of_grants (Or.inl rfl) hg
  | wait i =>
    obtain ⟨⟨m, hm, -⟩, hg⟩ := hvalid
    refine ⟨fun y hy => Or.inl ?_, fun j hj => ?_⟩
    · simp only [Effect.apply, hm]
      exact hrunning _ y hy
    · simp only [Effect.apply, hm] at hj
      rw [View.eq_of_setMutex _ _ _ _ hj]
      exact namesMutex_of_grants (Or.inl rfl) hg
  | release i =>
    obtain ⟨⟨m, hm⟩, hg⟩ := hvalid
    have hcap := namesMutex_of_grants (Or.inr rfl) hg
    refine ⟨fun y _ => released_permitted hv rfl hm hcap hleads.mutexes y, fun j hj => ?_⟩
    by_cases hji : j = i
    · rw [hji]
      exact hcap
    · exact absurd (View.mutexes_release_of_ne hji) hj
  | @transfer y p hp =>
    obtain ⟨endpointIdx, y', hendpoint, he, hopp⟩ := hspec p hp
    obtain rfl : y = y' := Effect.transfer.inj he
    refine ⟨fun z hz => ?_, fun _ hi => absurd rfl hi⟩
    by_cases hzy : z = y
    · subst hzy
      obtain ⟨st, hst, -⟩ := hvalid
      refine Or.inr ⟨?_, ?_⟩
      · cases hopp with
        | sends hsender hreceiver hmay _ => exact .sends hp hendpoint hsender hreceiver hmay
        | receives hsender hreceiver hmay _ => exact .receives hp hendpoint hreceiver hsender hmay
      · simp only [Effect.apply]
        rw [View.state_setState, if_pos rfl, hst]
        rfl
    · refine Or.inl ?_
      simp only [Effect.apply]
      rw [View.state_setState, if_neg hzy]
  | @kill x hid hf =>
    by_cases hx : x = (view k).running h
    · subst hx
      refine permitted_kill hv hvalid hleads (fun hne => absurd rfl hne) fun i hi => ?_
      exact namesMutex_of_owns hv hvalid hi
    · obtain ⟨hended, hcap⟩ := hauth x hid hf hx
      exact permitted_kill hv hvalid hleads (fun _ => hended) hcap

theorem effect_of_terminate (hecall : t.mcause = ECALL_UMODE)
    (hid : (k.readFrame t.userSp 13).toNat = 8) {x : TaskId}
    (hf : findTask k (k.readFrame t.userSp 6) = some x) : effect k h t = .kill x := by
  rw [effect_of_ecall hecall]
  simp only [ecallEffect, hid, hf]

/-- The state of a task that another one terminates, unless it gets its own mutex back. -/
theorem state_of_kill (hv : (view k).BootShape) {x : TaskId} (hx : ((view k).state x).isSome)
    (hno : ¬ ∃ i, (view k).Owns x.2 i ∧ heirOf (view k) i = some x) :
    ((Effect.kill x).apply h (view k)).state x = some .terminated := by
  have hshape : ((view k).setState x .terminated).BootShape :=
    hv.setState _ fun b hb => by cases hb
  obtain ⟨st, hst⟩ := Option.isSome_iff_exists.mp hx
  have hterm : ((view k).setState x .terminated).state x = some .terminated := by
    rw [View.state_setState, if_pos rfl, hst]
    rfl
  by_cases hown : (view k).Owns x.2 0
  · obtain ⟨m, hm, -⟩ := id hown
    rw [apply_kill_of_owns hv h hown]
    rcases release_state hshape (i := 0) (m := m) hm x with hsame | ⟨-, hheir, -, -⟩
    · exact hsame.trans hterm
    · exact absurd ⟨0, hown, hheir⟩ hno
  · rw [apply_kill_of_not_owns hv h hown]
    exact hterm

/-- No C-list permits the termination of another task. -/
theorem not_leastPrivilege_of_terminates {x : TaskId} (hne : x ≠ (view k).running h)
    (hbefore : (view k).state x ≠ some .terminated) (hafter : (view k').state x = some .terminated) :
    ¬ LeastPrivilege k h t k' := by
  intro hlp
  obtain ⟨tcb', htcb', hstate'⟩ := tcbOf_of_state hafter
  have hchanged : tcbOf k' x ≠ tcbOf k x := fun hsame =>
    hbefore ((congrArg (Option.map TaskControlBlock.state) hsame).symm.trans hafter)
  obtain ⟨tcb, -, ⟨-, hready⟩ | ⟨-, -, hrunning⟩⟩ := hlp.tasks x hne hchanged
  · rw [htcb'] at hready
    rw [Option.some.inj hready] at hstate'
    cases hstate'
  · rw [htcb'] at hrunning
    rw [Option.some.inj hrunning] at hstate'
    cases hstate'

theorem authorised_of_leastPrivilege (hv : (view k).BootShape) (hecall : t.mcause = ECALL_UMODE)
    (hstep : EffectStep h (effect k h t) (view k) (view k')) (hlp : LeastPrivilege k h t k') :
    Authorised k h t := by
  intro x hid hf hne
  rw [effect_of_terminate hecall hid hf] at hstep
  have hreg : ((view k).state x).isSome := hstep.valid
  have happly : view k' = (Effect.kill x).apply h (view k) := by
    rcases hstep.leads.cases with hsame | ⟨_, hsw, -⟩
    · exact hsame
    · simp [Effect.switches, hne] at hsw
  refine ⟨?_, fun i hi => hlp.mutexes i fun hsame => ?_⟩
  · by_contra hno
    rw [not_or] at hno
    have hterm := state_of_kill (h := h) hv hreg hno.2
    rw [← happly] at hterm
    exact not_leastPrivilege_of_terminates hne hno.1 hterm hlp
  · obtain ⟨m, hm, -⟩ := id hi
    obtain rfl := hv.mutexes i m hm
    have hown : ((view k).setState x .terminated).Owns x.2 0 := hi
    refine release_mutexes_ne hown ?_
    rw [← apply_kill_of_owns hv h hi, ← happly]
    exact hsame

end Effects

/-! ## Callers without capabilities -/

def NoCapabilities (v : View) (x : TaskId) : Prop :=
  ∀ st, v.static x = some st → ∀ c, st.capabilities c = .none

/-- No mutex changes, and no other control block but by a swap on the caller's hart. -/
def AffectsNobody (k : Kernel) (h : Hart) (k' : Kernel) : Prop :=
  k'.mutexes = k.mutexes ∧ ∀ y, y ≠ (view k).running h → tcbOf k' y ≠ tcbOf k y →
    ∃ tcb, tcbOf k y = some tcb ∧ tcb.state = .ready ∧ y = (view k').running h ∧
      tcbOf k' y = some { tcb with state := .running }

theorem affectsNobody_of_leastPrivilege {k k' : Kernel} {h : Hart} {t : Trap}
    (hlp : LeastPrivilege k h t k') (hnone : NoCapabilities (view k) ((view k).running h)) :
    AffectsNobody k h k' := by
  have hmutex : ∀ i, ¬ NamesMutex (view k) ((view k).running h) i := by
    rintro i ⟨st, c, _, _, hst, hcap⟩
    rw [hnone st hst c] at hcap
    cases hcap
  have hwakes : ∀ y, ¬ Wakes k h t k' y := by
    intro y hy
    cases hy with
    | sends _ _ _ _ hmay =>
      obtain ⟨st, c, _, hst, hcap⟩ := hmay
      rw [hnone st hst c] at hcap
      cases hcap
    | receives _ _ _ _ hmay =>
      obtain ⟨st, c, _, hst, hcap⟩ := hmay
      rw [hnone st hst c] at hcap
      cases hcap
    | waiter hcap => exact hmutex _ hcap
  refine ⟨funext fun i => ?_, fun y hy hne => ?_⟩
  · by_contra hi
    exact hmutex i (hlp.mutexes i hi)
  · obtain ⟨tcb, htcb, ⟨hw, -⟩ | ⟨hwhy, hrun, hrunning⟩⟩ := hlp.tasks y hy hne
    · exact absurd hw (hwakes y)
    · exact ⟨tcb, htcb, hwhy.resolve_left (hwakes y), hrun, hrunning⟩

/-! ## Every system call of a reachable state -/

/-- In every reachable state a returning system call respects the C-list of its caller if and only if
it is authorised, and then a caller without capabilities affects nobody; one whose copy faults always
respects it. -/
theorem least_privilege_exact (P : Platform) (s s' : System) (es : List Event) (hs : Initial P s)
    (hrun : Run (Step P) s es s') (h : Hart) (t : Trap) (m : Memory)
    (hecall : t.mcause = ECALL_UMODE) :
    (∀ s'', Step P s' (.trap h t m) s'' →
      (LeastPrivilege (s'.kernel.setMem m) h t s''.kernel ↔
        Authorised (s'.kernel.setMem m) h t) ∧
      (Authorised (s'.kernel.setMem m) h t →
        NoCapabilities (view s'.kernel) ((view s'.kernel).running h) →
        AffectsNobody (s'.kernel.setMem m) h s''.kernel)) ∧
    ∀ t' m' s'', Step P s' (.nestedTrap h t m t' m') s'' →
      LeastPrivilege (s'.kernel.setMem m) h t s''.kernel := by
  have hinv : SysInv s' := sysInv_run hs hrun
  have hv : (view (s'.kernel.setMem m)).BootShape := hinv.shape
  refine ⟨fun s'' hstep => ?_, fun t' m' s'' hstep => ?_⟩
  · have hfixed := fixedOf_step hinv hstep
    obtain ⟨k', hafter, rfl⟩ := Option.map_eq_some_iff.mp hstep
    obtain ⟨sp, hok⟩ := afterTrap_ok hafter
    obtain ⟨heff, -, honly⟩ := effectStep_of_ok (hinv.sound m) hok
    have hif : Authorised (s'.kernel.setMem m) h t →
        LeastPrivilege (s'.kernel.setMem m) h t k' := fun hauth =>
      leastPrivilege_of_permitted hfixed honly heff.leads
        (permitted_of_authorised (hinv.sound m) hv hecall heff hauth)
    exact ⟨⟨authorised_of_leastPrivilege hv hecall heff, hif⟩,
      fun hauth hnone => affectsNobody_of_leastPrivilege (hif hauth) hnone⟩
  · have hfixed := fixedOf_step hinv hstep
    obtain ⟨k', hafter, rfl⟩ := Option.map_eq_some_iff.mp hstep
    obtain ⟨cause, kf, sp, hf, rfl, hok⟩ := afterNested_ok hafter
    obtain ⟨heff, -, honly⟩ := effectStep_of_nested (hinv.sound m) hf hok
    refine leastPrivilege_of_permitted hfixed honly heff.leads ?_
    exact permitted_kill hv heff.valid heff.leads (fun hne => absurd rfl hne) fun i hi =>
      namesMutex_of_owns hv heff.valid hi

/-- Task A sends to HSM Task. -/
theorem least_privilege_exact_send :
    ∃ s' s'', Run (Step packedPlatform) bootSystem hsmListens s' ∧
      (view s'.kernel).running 0 = taskA ∧
      Step packedPlatform s' (syscall 0 6 2 0x3FC80400 12) s'' ∧
      LeastPrivilege (s'.kernel.setMem (syscallFrame 0x3FC82400 6 2 0x3FC80400 12)) 0
        ⟨ECALL_UMODE, 0x3FC82400, 0⟩ s''.kernel := by
  obtain ⟨s', hrun, hf⟩ := run_of_eval packedPlatform bootSystem hsmListens
    (fun s => ((view s.kernel).running 0,
      (s.next packedPlatform (syscall 0 6 2 0x3FC80400 12)).isSome)) (taskA, true)
    (by decide +kernel)
  obtain ⟨hcaller, hsome⟩ := Prod.mk.inj hf
  obtain ⟨s'', hstep⟩ := Option.isSome_iff_exists.mp hsome
  refine ⟨s', s'', hrun, hcaller, hstep, ?_⟩
  have hexact := (least_privilege_exact _ _ _ _ bootSystem_initial hrun 0
    ⟨ECALL_UMODE, 0x3FC82400, 0⟩ (syscallFrame 0x3FC82400 6 2 0x3FC80400 12) rfl).1 s'' hstep
  refine hexact.1.mpr fun x hid => ?_
  have hsix : ((s'.kernel.setMem (syscallFrame 0x3FC82400 6 2 0x3FC80400 12)).readFrame
      0x3FC82400 13).toNat = 6 := by
    show (Memory.readWord (syscallFrame 0x3FC82400 6 2 0x3FC80400 12)
      (Memory.slot 0x3FC82400 13)).toNat = 6
    decide
  rw [hsix] at hid
  cases hid

/-- Task B, which has one IPC capability, terminates Task A. -/
theorem task_b_terminates_task_a :
    (∃ s'', Step packedPlatform bootSystem (syscall 1 8 1 0 0) s'' ∧
      (view bootSystem.kernel).running 1 = (1, 2) ∧
      ¬ LeastPrivilege (bootSystem.kernel.setMem (syscallFrame 0x3FC82400 8 1 0 0)) 1
        ⟨ECALL_UMODE, 0x3FC82400, 0⟩ s''.kernel) ∧
    ¬ ∀ P s s' es h t m s'', Initial P s → Run (Step P) s es s' → t.mcause = ECALL_UMODE →
      (view s'.kernel).running h ≠ watchdog → Step P s' (.trap h t m) s'' →
      LeastPrivilege (s'.kernel.setMem m) h t s''.kernel := by
  have hstep : ∃ s'', Step packedPlatform bootSystem (syscall 1 8 1 0 0) s'' ∧
      (view s''.kernel).state taskA = some .terminated := by
    have heval : ((bootSystem.next packedPlatform (syscall 1 8 1 0 0)).map
        fun s'' => (view s''.kernel).state taskA) = some (some .terminated) := by
      decide +kernel
    exact Option.map_eq_some_iff.mp heval
  obtain ⟨s'', hs'', hterm⟩ := hstep
  have hnot : ¬ LeastPrivilege (bootSystem.kernel.setMem (syscallFrame 0x3FC82400 8 1 0 0)) 1
      ⟨ECALL_UMODE, 0x3FC82400, 0⟩ s''.kernel := by
    refine not_leastPrivilege_of_terminates (x := taskA) ?_ ?_ hterm
    · decide +kernel
    · decide +kernel
  refine ⟨⟨s'', hs'', by decide +kernel, hnot⟩, fun hall => hnot ?_⟩
  exact hall packedPlatform bootSystem bootSystem [] 1 ⟨ECALL_UMODE, 0x3FC82400, 0⟩ _ s''
    bootSystem_initial rfl rfl (by decide +kernel) hs''

end Cerberus.Containment
