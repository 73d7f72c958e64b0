import Cerberus.Kernel.Footprint

/-! # How a handler ends

A handler returns to the interrupted context, or through `switch_task` from a kernel in which its effect
is done. `trap_ends` says for every trap which of the two it is and what has been logged by then; from it
follow the telemetry of the trap and the slot it leaves running. -/
namespace Cerberus.Kernel
open Scheduler Sync Memory
set_option autoImplicit false

/-- The ends of a handler with effect `e` that has logged `log` before the context switch. A kernel
`k'` after the switch may differ from the one that `switch_task` leaves in a result word or a lock. -/
inductive Ends (P : Platform) (h : Hart) (t : Trap) (k : Kernel) (e : Effect) (log : List TraceEvent) :
    Outcome → Prop where
  | stays {k' : Kernel} (hsw : e.switches h (view k) = none) (hcur : k'.current h = k.current h)
      (htrace : k'.trace = k.trace ++ log) : Ends P h t k e log (.ok (t.userSp, k'))
  | switches {isTick : Bool} {k1 k' : Kernel} (hsw : e.switches h (view k) = some isTick)
      (hview : view k1 = e.apply h (view k))
      (hbudget : isTick = true →
        (k1.scheds h).remainingMifTicks = (k.scheds h).remainingMifTicks)
      (htrace : k1.trace = k.trace ++ log)
      (hcur : k'.current h = (switchTask P h t.cycles isTick t.userSp k1).2.current h)
      (hlogged : k'.trace = (switchTask P h t.cycles isTick t.userSp k1).2.trace) :
      Ends P h t k e log (.ok ((switchTask P h t.cycles isTick t.userSp k1).1, k'))
  | copyFault {cause : Word} {kf : Kernel} (htrace : kf.trace = k.trace) :
      Ends P h t k e log (.error (.copyFault cause kf))
  | stops {stop : Stop} (hstop : ∀ cause kf, stop ≠ .copyFault cause kf) :
      Ends P h t k e log (.error stop)

section Ends
variable {P : Platform} {log : List TraceEvent} {h : Hart} {t : Trap} {k k1 k' : Kernel} {e : Effect}

/-- The handler logs nothing and does not switch. -/
theorem Ends.silent (hsw : e.switches h (view k) = none) (hcur : k'.current h = k.current h)
    (htrace : k'.trace = k.trace) : Ends P h t k e [] (.ok (t.userSp, k')) :=
  .stays hsw hcur (htrace.trans (List.append_nil _).symm)

/-- A switch that is not a tick, after which the handler does nothing. -/
theorem Ends.yields (hsw : e.switches h (view k) = some false) (hview : view k1 = e.apply h (view k))
    (htrace : k1.trace = k.trace ++ log) :
    Ends P h t k e log (.ok (switchTask P h t.cycles false t.userSp k1)) :=
  .switches hsw hview (fun hb => by cases hb) htrace rfl rfl

theorem Ends.and_then {r : Word × Kernel} (hr : Ends P h t k e log (.ok r))
    (hcur : k'.current h = r.2.current h) (htrace : k'.trace = r.2.trace) :
    Ends P h t k e log (.ok (r.1, k')) := by
  obtain ⟨sp, k2⟩ := r
  cases hr with
  | stays hsw hcur' htrace' => exact .stays hsw (hcur.trans hcur') (htrace.trans htrace')
  | switches hsw hview hbudget htrace' hcur' hlogged =>
    exact .switches hsw hview hbudget htrace' (hcur.trans hcur') (htrace.trans hlogged)

/-- The kernels `k` and `k1` differ in memory or a lock. -/
theorem Ends.congr {o : Outcome} (ho : Ends P h t k1 e log o) (hview : view k1 = view k)
    (hscheds : k1.scheds = k.scheds) (htrace : k1.trace = k.trace) : Ends P h t k e log o := by
  cases ho with
  | stays hsw hcur htrace' =>
    rw [hview] at hsw
    have hsame : k1.current h = k.current h := congrArg BitMapScheduler.currentPartitionIdx
      (congrFun hscheds h)
    exact .stays hsw (hcur.trans hsame) (htrace ▸ htrace')
  | switches hsw hview' hbudget htrace' hcur hlogged =>
    rw [hview] at hsw hview'
    rw [hscheds] at hbudget
    exact .switches hsw hview' hbudget (htrace ▸ htrace') hcur hlogged
  | copyFault htrace' => exact .copyFault (htrace'.trans htrace)
  | stops hstop => exact .stops hstop

theorem withSchedLock_ends {body : Kernel → Outcome}
    (hbody : ∀ l, Ends P h t k e log (body { k1 with schedLock := l })) :
    Ends P h t k e log (withSchedLock h k1 body) :=
  withSchedLock_rule (.stops fun _ _ he => by cases he) (fun _ _ hr => hr.and_then rfl rfl) hbody

end Ends

/-! ## Recovery and hand-over log nothing -/

theorem recoverMutex_trace {target : Fin MAX_PARTITIONS} {k k' : Kernel} {i : Fin 8}
    (hok : recoverMutex target k i = .ok k') : k'.trace = k.trace := by
  unfold recoverMutex at hok
  split at hok
  · rw [Except.ok.inj hok]
  · split at hok
    · split at hok
      · cases hok
      · rw [← Except.ok.inj hok]
        rfl
      · rw [← Except.ok.inj hok]
        rfl
    · rw [Except.ok.inj hok]

theorem recoverMutexes_trace {h : Hart} {target : Fin MAX_PARTITIONS} {k k' : Kernel}
    (hok : recoverMutexes h target k = .ok k') : k'.trace = k.trace := by
  obtain ⟨l, k2, hloop, rfl⟩ := recoverMutexes_ok hok
  have htrace : k2.trace = ({ k with mutexLock := l } : Kernel).trace :=
    Transition.foldlM_rel (R := fun a b : Kernel => b.trace = a.trace) (fun _ => rfl)
      (fun _ _ _ h1 h2 => h2.trans h1) (fun _ _ _ hi => recoverMutex_trace hi) hloop
  exact htrace

theorem releaseMutex_trace {h : Hart} {i : Fin 8} {m : KernelMutex} {k k' : Kernel}
    (hok : releaseMutex h i m k = .ok k') : k'.trace = k.trace := by
  unfold releaseMutex at hok
  split at hok
  · cases hok
  · rw [← Except.ok.inj hok]
    rfl
  · unfold handOff at hok
    split at hok
    · cases hok
    · rw [← Except.ok.inj hok]
      split <;> rfl

/-! ## The pieces of a handler -/

section Pieces
variable {P : Platform} {log : List TraceEvent} {h : Hart} {t : Trap} {k k1 : Kernel} {e : Effect}

theorem blockCaller_ends (hk : Sound k) (st : TaskState) :
    Ends P h t k (.block st) [] (blockCaller P h t st k) := by
  obtain ⟨tcb, htcb⟩ := hk.running_isSome h
  unfold blockCaller
  simp only [htcb]
  exact .yields rfl (view_setState _ _ _ _) (List.append_nil _).symm

theorem finishLock_ends {runningIdx : Fin MAX_PARTITIONS} {r : Word × Kernel}
    (hr : Ends P h t k e log (.ok r)) : Ends P h t k e log (finishLock h t runningIdx r) := by
  unfold finishLock
  split
  · exact .stops fun _ _ he => by cases he
  · split
    · exact hr
    · exact hr.and_then rfl rfl

theorem lockMutex_ends (hk : Sound k) (capIdx : Word) :
    Ends P h t k (lockEffect k h capIdx) [] (lockMutex P h t capIdx k) := by
  obtain ⟨r, hr, hmutex⟩ := grantedMutex_eq hk h capIdx (Or.inl rfl)
  have hr' : grantedMutex { k with mutexLock := ⟨some h, 1#32⟩ } h capIdx lockRight = .ok r := hr
  unfold lockMutex lockEffect
  simp only [lockMutexes_eq h hk.mutexLock, hr', hr]
  cases r with
  | none => exact .silent rfl rfl rfl
  | some im =>
    obtain ⟨i, m⟩ := im
    have hm : (view k).mutexes i = some m := (hmutex i m rfl).1
    dsimp only
    split
    · exact finishLock_ends (.silent rfl rfl rfl)
    · refine finishLock_ends (.yields rfl ?_ (List.append_nil _).symm)
      simp only [view_unlockMutexes, view_setMutex, view_setState, Effect.apply, hm]
      rfl

theorem unlockMutex_ends (hk : Sound k) (capIdx : Word) :
    Ends P h t k (unlockEffect k h capIdx) [] (unlockMutex P h t capIdx k) := by
  obtain ⟨r, hr, hmutex⟩ := grantedMutex_eq hk h capIdx (Or.inr rfl)
  have hr' : grantedMutex { k with mutexLock := ⟨some h, 1#32⟩ } h capIdx unlockRight = .ok r := hr
  unfold unlockMutex unlockEffect
  simp only [lockMutexes_eq h hk.mutexLock, hr', hr]
  cases r with
  | none => exact .silent rfl rfl rfl
  | some im =>
    obtain ⟨i, m⟩ := im
    have hm : k.mutexes i = some m := (hmutex i m rfl).1
    dsimp only
    split
    · rename_i ho
      obtain ⟨k2, hk2, hview, -⟩ := releaseMutex_eq (h := h) hk hm ho
      simp only [hk2]
      have hswitch : Ends P h t k (.release i) []
          (.ok (switchTask P h t.cycles false t.userSp k2)) :=
        .yields rfl hview ((releaseMutex_trace hk2).trans (List.append_nil _).symm)
      exact hswitch.and_then rfl rfl
    · exact .stops fun _ _ he => by cases he

theorem rendezvous_ends {endpointIdx : Byte} {src dst len mine theirs : Word} {y : TaskId} :
    Ends P h t k (.transfer y) [.ipcTransfer endpointIdx (len.setWidth 8)]
      (rendezvous P h t endpointIdx src dst len y mine theirs k) := by
  unfold rendezvous
  split
  · exact .stops fun _ _ he => by cases he
  · split
    · exact .copyFault rfl
    · have hcur : (k.setState y.1 y.2 .ready).current h = k.current h :=
        congrFun (Untouched.setState k y.1 y.2 .ready).current h
      dsimp only
      split
      · exact .stays rfl hcur rfl
      · exact .stays rfl hcur rfl

/-- The event of a rendezvous. -/
def transferLog (endpoint? : Option Byte) (plan? : Option Plan) : List TraceEvent :=
  (planLog endpoint? plan?).map fun x => .ipcTransfer x.1 x.2

theorem sendMessage_ends (hk : Sound k) (capIdx msgAddr msgLen : Word) :
    Ends P h t k
      (ipcEffect k h capIdx sendRight waitingReceiver fun e => .blockedOnIpcSend e msgAddr msgLen)
      (transferLog (granted k h capIdx sendRight).toOption.join (sendPlan k h capIdx msgAddr msgLen))
      (sendMessage P h t capIdx msgAddr msgLen k) := by
  obtain ⟨r, hr, -⟩ := granted_eq hk h capIdx sendRight
  unfold sendMessage sendPlan ipcEffect
  simp only [hr]
  cases r with
  | none => exact .silent rfl rfl rfl
  | some e =>
    cases hf : findPartner (waitingReceiver e) k with
    | none =>
      simp only [hf]
      exact blockCaller_ends hk _
    | some y =>
      obtain ⟨ph, pi, bufAddr, maxLen⟩ := y
      simp only [hf, Option.map_some]
      exact rendezvous_ends

theorem receiveMessage_ends (hk : Sound k) (capIdx bufAddr maxLen : Word) :
    Ends P h t k
      (ipcEffect k h capIdx recvRight waitingSender fun e => .blockedOnIpcRecv e bufAddr maxLen)
      (transferLog (granted k h capIdx recvRight).toOption.join (recvPlan k h capIdx bufAddr maxLen))
      (receiveMessage P h t capIdx bufAddr maxLen k) := by
  obtain ⟨r, hr, -⟩ := granted_eq hk h capIdx recvRight
  unfold receiveMessage recvPlan ipcEffect
  simp only [hr]
  cases r with
  | none => exact .silent rfl rfl rfl
  | some e =>
    cases hf : findPartner (waitingSender e) k with
    | none =>
      simp only [hf]
      exact blockCaller_ends hk _
    | some y =>
      obtain ⟨ph, pi, msgAddr, msgLen⟩ := y
      simp only [hf, Option.map_some]
      exact rendezvous_ends

theorem terminateTask_ends (hk : Sound k) (targetPrio : Word) :
    Ends P h t k (match findTask k targetPrio with
        | some x => .kill x
        | none => .none) [] (terminateTask P h t targetPrio k) := by
  unfold terminateTask
  cases hf : findTask k targetPrio with
  | none => exact .silent rfl rfl rfl
  | some x =>
    obtain ⟨foundHart, target⟩ := x
    obtain ⟨k2, hk2, hview, -, -, -, hu⟩ := kill_eq (h := h) hk (foundHart, target)
    have hrecovered := recoverMutexes_trace hk2
    have htrace : k2.trace = k.trace := hrecovered
    have hcur : k2.current h = k.current h := congrFun hu.current h
    simp only [hk2]
    split
    · rename_i hne
      exact .silent (if_neg fun he => hne (Prod.ext_iff.mp he).1) hcur htrace
    · rename_i hsame
      obtain rfl : foundHart = h := not_not.mp hsame
      split
      · rename_i htarget
        have hrun : ((foundHart, target) : TaskId) = (view k).running foundHart :=
          congrArg (Prod.mk foundHart) (htarget.trans hcur)
        exact .yields (if_pos hrun) hview (htrace.trans (List.append_nil _).symm)
      · rename_i htarget
        exact .silent (if_neg fun he => htarget ((Prod.ext_iff.mp he).2.trans hcur.symm)) hcur htrace

/-- Containment of the running task, from a kernel in which only the fault has been logged. -/
theorem terminateRunning_ends (hk : Sound k1) (hview : view k1 = view k)
    (htrace : k1.trace = k.trace ++ log) :
    Ends P h t k (.kill (h, k.current h)) log (terminateRunning P h t k1) := by
  have hcur : k1.current h = k.current h := congrFun (congrArg View.current hview) h
  obtain ⟨tcb, htcb⟩ := hk.running_isSome h
  obtain ⟨k2, hk2, hview2, -⟩ := kill_eq (h := h) hk (h, k1.current h)
  unfold terminateRunning
  simp only [htcb, hk2]
  rw [hview, hcur] at hview2
  exact .yields (if_pos rfl) hview2 ((recoverMutexes_trace hk2).trans htrace)

theorem containFault_ends (hk : Sound k) :
    Ends P h t k (.kill (h, k.current h))
      [.faultInterception t.mcause (k.readFrame t.userSp 28)] (containFault P h t k) := by
  unfold containFault
  exact withSchedLock_ends fun l => terminateRunning_ends (hk.congr rfl hk.mutexLock) rfl rfl

theorem timerInterrupt_ends :
    Ends P h t k (.tick (k.tickCount + 1#32)) [] (timerInterrupt P h t k) := by
  have hbudget : ((k.setSched h (wakeSleepers (k.tickCount + 1#32) (k.scheds h))).scheds h).remainingMifTicks =
      (k.scheds h).remainingMifTicks := by
    simp [Kernel.setSched, wakeSleepers]
  unfold timerInterrupt
  exact withSchedLock_ends fun l =>
    .switches rfl (view_wakeSleepers _) (fun _ => hbudget) (List.append_nil _).symm rfl rfl

/-- A yield or a software interrupt: nothing is done before `schedule` is called. -/
theorem resched_ends (hview : view k1 = view k) (htrace : k1.trace = k.trace) :
    Ends P h t k .resched []
      (withSchedLock h k1 fun k => .ok (switchTask P h t.cycles false t.userSp k)) :=
  withSchedLock_ends fun _ => .yields rfl hview (htrace.trans (List.append_nil _).symm)

end Pieces

/-! ## Every trap -/

section Trap
variable {P : Platform} {h : Hart} {t : Trap} {k : Kernel}

/-- The event of a contained fault: the cause and the saved pc. -/
def faultLog (k : Kernel) (t : Trap) : List TraceEvent :=
  if contained t.mcause = true ∧ ¬ emulates k t then
    [.faultInterception t.mcause (k.readFrame t.userSp 28)]
  else []

/-- What a trap logs before its context switch. -/
def trapLog (k : Kernel) (h : Hart) (t : Trap) : List TraceEvent :=
  faultLog k t ++ transferLog (transferEndpoint k h t) (transferPlan k h t)

theorem transferLog_none (endpoint? : Option Byte) : transferLog endpoint? none = [] := by
  rw [transferLog, planLog_none]
  rfl

theorem faultLog_of_not_contained (hc : contained t.mcause = false) : faultLog k t = [] :=
  if_neg fun hlog => by rw [hc] at hlog; cases hlog.1

theorem ecall_ends (hk : Sound k) (hecall : t.mcause = ECALL_UMODE)
    (hid : 1 ≤ (k.readFrame t.userSp 13).toNat ∧ (k.readFrame t.userSp 13).toNat ≤ 8) :
    Ends P h t k (ecallEffect k h t) (transferLog (transferEndpoint k h t) (transferPlan k h t))
      (ecall P h t k) := by
  unfold ecall ecallEffect transferEndpoint transferPlan
  simp only [if_pos hecall]
  generalize k.readFrame t.userSp 28 + 4#32 = v
  have hk0 : ∀ l, Sound { k.writeFrame t.userSp 28 v with schedLock := l } := fun l =>
    hk.congr rfl hk.mutexLock
  rcases syscallId_cases hid with hn | hn | hn | hn | hn | hn | hn | hn <;> simp only [hn]
  · exact resched_ends rfl rfl
  · unfold sysSleep
    simp (disch := omega) only [readFrame_writePc]
    exact withSchedLock_ends fun l => (blockCaller_ends (hk0 l) _).congr rfl rfl rfl
  · unfold sysLock
    simp (disch := omega) only [readFrame_writePc]
    exact withSchedLock_ends fun l => (lockMutex_ends (hk0 l) _).congr rfl rfl rfl
  · unfold sysUnlock
    simp (disch := omega) only [readFrame_writePc]
    exact withSchedLock_ends fun l => (unlockMutex_ends (hk0 l) _).congr rfl rfl rfl
  · unfold sysCheckin
    exact withSchedLock_ends fun l => .silent rfl rfl rfl
  · unfold sysSend
    simp (disch := omega) only [readFrame_writePc]
    exact withSchedLock_ends fun l => (sendMessage_ends (hk0 l) _ _ _).congr rfl rfl rfl
  · unfold sysRecv
    simp (disch := omega) only [readFrame_writePc]
    exact withSchedLock_ends fun l => (receiveMessage_ends (hk0 l) _ _ _).congr rfl rfl rfl
  · unfold sysTerminate
    simp (disch := omega) only [readFrame_writePc]
    exact withSchedLock_ends fun l => (terminateTask_ends (hk0 l) _).congr rfl rfl rfl

theorem trap_ends (hk : Sound k) :
    Ends P h t k (effect k h t) (trapLog k h t) (trapHandler P h t k) := by
  unfold trapHandler trapLog effect
  by_cases hecall : t.mcause = ECALL_UMODE
  · have htimer : t.mcause ≠ TIMER_INTERRUPT := by
      rw [hecall]
      decide
    have hsoft : t.mcause ≠ SOFTWARE_INTERRUPT := by
      rw [hecall]
      decide
    rw [faultLog_of_not_contained (by rw [hecall]; decide), List.nil_append]
    simp only [if_neg htimer, if_neg hsoft, if_pos hecall]
    by_cases hid : 1 ≤ (k.readFrame t.userSp 13).toNat ∧ (k.readFrame t.userSp 13).toNat ≤ 8
    · exact ecall_ends hk hecall hid
    · obtain ⟨hreturn, heffect⟩ := ecall_unknown (P := P) (h := h) hid
      rw [hreturn, heffect, transferPlan_eq_none hid, transferLog_none]
      exact .silent rfl rfl rfl
  · rw [transferPlan_of_ne hecall, transferLog_none, List.append_nil]
    split
    · rename_i htimer
      rw [faultLog_of_not_contained (by rw [htimer]; decide)]
      exact timerInterrupt_ends
    split
    · rename_i hsoft
      rw [faultLog_of_not_contained (by rw [hsoft]; decide)]
      exact resched_ends rfl rfl
    unfold exception
    dsimp only
    split
    · rename_i hcsr
      have hlog : faultLog k t = [] := if_neg fun hfault => hfault.2 hcsr
      rw [hlog]
      unfold emulateCounter
      split <;> exact .silent rfl rfl rfl
    · rename_i hcsr
      split
      · rename_i hcontained
        have hlog : faultLog k t = [.faultInterception t.mcause (k.readFrame t.userSp 28)] :=
          if_pos ⟨hcontained, hcsr⟩
        rw [hlog]
        exact containFault_ends hk
      · exact .stops fun _ _ he => by cases he

end Trap

/-! ## The slot that is entered -/

instance (st : Option TaskState) : Decidable (Runnable st) := inferInstanceAs (Decidable (_ ∨ _))

/-- The slot that `schedule` enters at the end of a trap with effect `e`, if it enters one. -/
def nextSlot (k : Kernel) (h : Hart) (e : Effect) : Option (Fin MAX_PARTITIONS) :=
  match e.switches h (view k) with
  | none => none
  | some isTick =>
    if isTick = false ∨ (k.scheds h).remainingMifTicks ≤ 1 ∨
        ¬ Runnable ((e.apply h (view k)).state ((view k).running h)) then
      (e.apply h (view k)).selectNext h
    else none

/-- The event of a switch to slot `n`. -/
def swapEvent (k : Kernel) (h : Hart) (cycles : Word) (n : Fin MAX_PARTITIONS) : TraceEvent :=
  .taskSwap (BitVec.ofNat 8 (k.current h).val) (BitVec.ofNat 8 n.val) cycles

section Slot
variable {P : Platform} {log : List TraceEvent} {cycles sp : Word} {h : Hart} {t : Trap} {k k1 k' : Kernel}
  {e : Effect}

theorem nextSlot_of_switches (hsw : e.switches h (view k) = none) : nextSlot k h e = none := by
  unfold nextSlot
  rw [hsw]

/-- `nextSlot` reads the scheduler that `schedule` is called on. -/
theorem nextSlot_eq {isTick : Bool} (hview : view k1 = e.apply h (view k))
    (hsw : e.switches h (view k) = some isTick)
    (hbudget : isTick = true →
      (k1.scheds h).remainingMifTicks = (k.scheds h).remainingMifTicks) :
    ((k1.scheds h).Triggers isTick → nextSlot k h e = (k1.scheds h).selectNext) ∧
      (¬ (k1.scheds h).Triggers isTick → nextSlot k h e = none) := by
  have hcur := current_of_apply hview
  have hrun : Runnable ((e.apply h (view k)).state ((view k).running h)) ↔
      (k1.scheds h).currentRunnable = true := by
    have hst : (view k1).state ((view k).running h) =
        (k1.scheds h).stateAt (k1.scheds h).currentPartitionIdx := by
      rw [View.running, show (view k).current h = k1.current h from hcur.symm]
      rfl
    rw [← hview, hst]
    simp [BitMapScheduler.currentRunnable, Runnable]
  have htriggers : (isTick = false ∨ (k.scheds h).remainingMifTicks ≤ 1 ∨
      ¬ Runnable ((e.apply h (view k)).state ((view k).running h))) ↔
        (k1.scheds h).Triggers isTick := by
    rw [hrun, BitMapScheduler.Triggers, BitMapScheduler.spendTick_remainingMifTicks]
    cases isTick with
    | false => simp
    | true =>
      rw [← hbudget rfl]
      simp only [Bool.true_eq_false, false_or, if_true, Nat.sub_eq_zero_iff_le, Bool.not_eq_true]
  unfold nextSlot
  rw [hsw]
  dsimp only
  rw [← selectNext_view, ← hview]
  rw [← hview] at htriggers
  exact ⟨fun ht => if_pos (htriggers.mpr ht), fun ht => if_neg fun hc => ht (htriggers.mp hc)⟩

/-- The context switch that ends a handler logs the slot it enters. -/
theorem switchTask_logs {isTick : Bool} (hk : Sound k) (hsw : e.switches h (view k) = some isTick)
    (hview : view k1 = e.apply h (view k))
    (hbudget : isTick = true →
      (k1.scheds h).remainingMifTicks = (k.scheds h).remainingMifTicks)
    (htrace : k1.trace = k.trace ++ log) :
    (switchTask P h cycles isTick sp k1).2.trace =
        k.trace ++ log ++ ((nextSlot k h e).map (swapEvent k h cycles)).toList ∧
      (switchTask P h cycles isTick sp k1).2.current h = (nextSlot k h e).getD (k.current h) := by
  obtain ⟨hgoes, hstays⟩ := nextSlot_eq hview hsw hbudget
  have hcur := current_of_apply hview
  have hreg := current_registered (registered_of_apply hk hview)
  rcases BitMapScheduler.schedule_cases (b := isTick) hreg with
    ⟨r, hsched, hno⟩ | ⟨n, tcb, ht, hsel, htcb, hsched⟩
  · have hnone : nextSlot k h e = none := by
      rcases hno with ⟨hnot, -⟩ | ⟨ht, hsel⟩
      · exact hstays hnot
      · exact (hgoes ht).trans hsel
    rw [hnone]
    simp only [switchTask, hsched]
    constructor
    · simpa [Kernel.setSched] using htrace
    · rw [Option.getD_none, ← hcur]
      simp [Kernel.current, Kernel.setSched]
  · rw [hgoes ht, hsel]
    simp only [switchTask, hsched, BitMapScheduler.swapTo_currentPartitionIdx, htcb]
    constructor
    · simp [Kernel.setPmp, Kernel.setSched, Kernel.logTelemetry, swapEvent, htrace, hcur]
    · simp [Kernel.current, Kernel.setPmp]

/-- Every trap: the stream gains the event of a contained fault or of a rendezvous, and last the event
of the slot that `schedule` enters. -/
theorem trap_logs (hk : Sound k) (hok : trapHandler P h t k = .ok (sp, k')) :
    k'.trace = k.trace ++ trapLog k h t ++
        ((nextSlot k h (effect k h t)).map (swapEvent k h t.cycles)).toList ∧
      k'.current h = (nextSlot k h (effect k h t)).getD (k.current h) := by
  have hends := trap_ends (P := P) (h := h) (t := t) hk
  rw [hok] at hends
  cases hends with
  | stays hsw hcur htrace =>
    rw [nextSlot_of_switches hsw]
    exact ⟨htrace.trans (List.append_nil _).symm, hcur⟩
  | switches hsw hview hbudget htrace hcur hlogged =>
    rw [hcur, hlogged]
    exact switchTask_logs hk hsw hview hbudget htrace

/-- A trap whose copy faults has logged nothing. -/
theorem copyFault_trace (hk : Sound k) {cause : Word} {kf : Kernel}
    (hf : trapHandler P h t k = .error (.copyFault cause kf)) : kf.trace = k.trace := by
  have hends := trap_ends (P := P) (h := h) (t := t) hk
  rw [hf] at hends
  cases hends with
  | copyFault htrace => exact htrace
  | stops hstop => exact absurd rfl (hstop cause kf)

end Slot

/-! ## A switch to the slot it comes from -/

/-- The trap ends in a call of `schedule` whose search comes back to the slot it starts from: that
slot is `Ready` by then, and of the other slots of the hart none but perhaps the idle partition 31. -/
def SwitchComesBack (k : Kernel) (h : Hart) (e : Effect) : Prop :=
  (e.switches h (view k) = some false ∨
      e.switches h (view k) = some true ∧ (k.scheds h).remainingMifTicks ≤ 1) ∧
    (e.apply h (view k)).state (h, k.current h) = some .ready ∧
    ∀ i, i ≠ k.current h → (e.apply h (view k)).state (h, i) = some .ready →
      k.current h ≠ 31 ∧ i = 31

instance (k : Kernel) (h : Hart) (e : Effect) : Decidable (SwitchComesBack k h e) :=
  inferInstanceAs (Decidable (_ ∧ _ ∧ _))

theorem nextSlot_self_iff (k : Kernel) (h : Hart) (e : Effect) :
    nextSlot k h e = some (k.current h) ↔ SwitchComesBack k h e := by
  have hcur : (e.apply h (view k)).current h = k.current h :=
    congrFun (Effect.apply_shape h (view k) e).current h
  have hself : (e.apply h (view k)).selectNext h = some (k.current h) ↔
      (e.apply h (view k)).state (h, k.current h) = some .ready ∧
        ∀ i, i ≠ k.current h → (e.apply h (view k)).state (h, i) = some .ready →
          k.current h ≠ 31 ∧ i = 31 := by
    rw [View.selectNext, hcur, BitMapScheduler.pickNext_self_iff]
    simp only [decide_eq_true_eq]
  unfold nextSlot SwitchComesBack
  rw [← hself]
  cases hsw : e.switches h (view k) with
  | none => simp
  | some isTick =>
    dsimp only
    constructor
    · intro hnext
      split at hnext
      · rename_i hcalled
        refine ⟨?_, hnext⟩
        rcases hcalled with hb | hbudget | hstopped
        · exact Or.inl (congrArg some hb)
        · cases isTick with
          | false => exact Or.inl rfl
          | true => exact Or.inr ⟨rfl, hbudget⟩
        · exact absurd (Or.inr (hself.mp hnext).1) hstopped
      · cases hnext
    · rintro ⟨hcalled, hnext⟩
      rw [if_pos ?_, hnext]
      rcases hcalled with hb | ⟨-, hbudget⟩
      · exact Or.inl (Option.some.inj hb)
      · exact Or.inr (Or.inl hbudget)

end Cerberus.Kernel
