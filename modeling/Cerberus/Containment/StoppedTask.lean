import Cerberus.Mutex.Termination

/-! # A stopped task and its hart

`schedule` answers `None` both when the current task is to keep running and when no task is `Ready`,
and `switch_task` resumes the interrupted frame in either case. So a trap that leaves the running task
blocked or terminated hands the hart on if and only if it calls `schedule` and another task of the
hart can be picked. -/
namespace Cerberus.Containment
open Kernel Scheduler Sync Memory Transition
set_option autoImplicit false

/-- Blocked or `Terminated`. -/
def Stopped : Option TaskState → Prop
  | some (.blocked _) => True
  | some (.blockedOnMutex _) => True
  | some (.blockedOnIpcSend _ _ _) => True
  | some (.blockedOnIpcRecv _ _ _) => True
  | some .terminated => True
  | _ => False

theorem Stopped.not_runnable {st : Option TaskState} (hst : Stopped st) : ¬ Runnable st := by
  rintro (rfl | rfl) <;> exact hst

/-- Slot `i` holds another task of hart `h` that is `Ready`, or asleep until the tick of this timer
interrupt. -/
def available (k : Kernel) (h : Hart) (t : Trap) (i : Fin MAX_PARTITIONS) : Bool :=
  i ≠ k.current h ∧ (k.stateOf h i = some .ready ∨
    t.mcause = TIMER_INTERRUPT ∧
      (k.stateOf h i).map (wakeState (k.tickCount + 1#32)) = some .ready)

/-- The trap calls `schedule`, and the available task that comes next was saved at another address
than `frame`. -/
def HandsOn (k : Kernel) (h : Hart) (t : Trap) (frame : Word) : Prop :=
  (effect k h t).switches h (view k) ≠ none ∧
    ∃ n, BitMapScheduler.pickNext (available k h t) (k.current h) = some n ∧
      savedSpOf k (h, n) ≠ some frame

/-! ## Who is `Ready` when `schedule` is called -/

section Ready
variable {h : Hart} {v : View}

/-- A mutex of the running task goes to no other task of the same hart: the two tasks that may wait
for it are on different harts. -/
theorem state_release {i : Fin 8} (hv : v.BootShape) (hown : v.Owns (v.current h) i)
    {j : Fin MAX_PARTITIONS} (hj : j ≠ v.current h) : (v.release i).state (h, j) = v.state (h, j) := by
  obtain ⟨m, hm, ho⟩ := hown
  rcases View.release_cases hm with ⟨-, hr⟩ | ⟨w, hl, hr⟩
  · rw [hr]
    rfl
  · obtain ⟨x, hx, hox⟩ := hv.owners i m hm _ ho
    have hrun : v.running h = x :=
      Mutex.eq_of_locker_index hv hx (hv.running h) (Mutex.ownerByte_inj hox)
    have hw := hv.waiters i m hm w (BitSet.mem_of_least hl)
    have hne : ((h, j) : TaskId) ≠ waiterTask w := by
      intro he
      have hh : (waiterTask w).1 = x.1 := by
        rw [← he, ← hrun]
        rfl
      have hwx : waiterTask w = x := by
        revert hh
        rcases hw with hw | hw <;> rcases hx with rfl | rfl <;> rw [hw] <;> decide
      rw [← hwx, ← he] at hrun
      exact hj (congrArg Prod.snd hrun).symm
    rw [hr, View.state_setState, if_neg hne]
    rfl

theorem state_kill (hv : v.BootShape) {j : Fin MAX_PARTITIONS} (hj : j ≠ v.current h) :
    (Effect.apply h v (.kill (v.running h))).state (h, j) = v.state (h, j) := by
  have hne : ((h, j) : TaskId) ≠ v.running h := fun he => hj (congrArg Prod.snd he)
  refine (View.recoverAll_induction (I := fun u => u.BootShape ∧ u.current = v.current ∧
    u.state (h, j) = v.state (h, j)) ?_ ⟨hv.setState _ fun b hb => (by cases hb), rfl, ?_⟩).2.2
  · rintro u i ⟨hu, hcur, hst⟩ hown
    refine ⟨hu.release i, (View.SameShape.release u i).current.trans hcur, ?_⟩
    have hcur' : v.current h = u.current h := (congrFun hcur h).symm
    have hown' : u.Owns (u.current h) i := hcur' ▸ hown
    rw [state_release hu hown' (hcur' ▸ hj), hst]
  · rw [View.state_setState, if_neg hne]

end Ready

section Step
variable {P : Platform} {h : Hart} {t : Trap} {k k' : Kernel}

theorem effect_ne_tick (htimer : t.mcause ≠ TIMER_INTERRUPT) (now : Word) :
    effect k h t ≠ .tick now := by
  intro he
  rw [effect, if_neg htimer] at he
  split at he
  · cases he
  split at he
  · unfold ecallEffect lockEffect unlockEffect ipcEffect at he
    dsimp only at he
    split at he <;> (repeat' split at he) <;> cases he
  split at he <;> cases he

/-- Before the context switch the other tasks of the hart are as before the trap, but for the sleepers
that a tick wakes. -/
theorem state_apply (hv : (view k).BootShape) {b : Bool}
    (hsw : (effect k h t).switches h (view k) = some b)
    (howns : ∀ i, effect k h t = .release i → (view k).Owns (k.current h) i)
    {j : Fin MAX_PARTITIONS} (hj : j ≠ k.current h) :
    ((effect k h t).apply h (view k)).state (h, j) = some .ready ↔
      (k.stateOf h j = some .ready ∨ t.mcause = TIMER_INTERRUPT ∧
        (k.stateOf h j).map (wakeState (k.tickCount + 1#32)) = some .ready) := by
  have hne : ((h, j) : TaskId) ≠ (view k).running h := fun he => hj (congrArg Prod.snd he)
  by_cases htimer : t.mcause = TIMER_INTERRUPT
  · have he : effect k h t = .tick (k.tickCount + 1#32) := by rw [effect, if_pos htimer]
    rw [he]
    simp only [Effect.apply, View.wake, if_true, htimer, true_and]
    constructor
    · exact Or.inr
    · rintro (hready | hwoken)
      · show (k.stateOf h j).map _ = _
        rw [hready]
        rfl
      · exact hwoken
  · have hsame : ((effect k h t).apply h (view k)).state (h, j) = (view k).state (h, j) := by
      have hnot := effect_ne_tick (k := k) (h := h) htimer
      revert hsw howns hnot
      generalize effect k h t = e
      intro hsw howns hnot
      cases e with
      | none => rfl
      | tick now => exact absurd rfl (hnot now)
      | resched => rfl
      | block st => simp only [Effect.apply, View.state_setState, if_neg hne]
      | grant i => cases hsw
      | wait i =>
        simp only [Effect.apply]
        split
        · rfl
        · rw [View.setMutex_state, View.state_setState, if_neg hne]
      | release i => exact state_release hv (howns i rfl) hj
      | transfer x => cases hsw
      | kill x =>
        by_cases hx : x = (view k).running h
        · rw [hx]
          exact state_kill hv hj
        · simp only [Effect.switches, if_neg hx] at hsw
          cases hsw
    rw [hsame]
    constructor
    · exact Or.inl
    · rintro (hready | ⟨hno, -⟩)
      · exact hready
      · exact absurd hno htimer

theorem selectNext_apply (hv : (view k).BootShape) {b : Bool}
    (hsw : (effect k h t).switches h (view k) = some b)
    (howns : ∀ i, effect k h t = .release i → (view k).Owns (k.current h) i)
    (hstop : ¬ Runnable (((effect k h t).apply h (view k)).state ((view k).running h))) :
    ((effect k h t).apply h (view k)).selectNext h =
      BitMapScheduler.pickNext (available k h t) (k.current h) := by
  have hready : (fun i => decide (((effect k h t).apply h (view k)).state (h, i) = some .ready)) =
      available k h t := by
    funext i
    unfold available
    refine decide_eq_decide.mpr ?_
    by_cases hi : i = k.current h
    · subst hi
      simp only [ne_eq, not_true_eq_false, false_and, iff_false]
      exact fun hr => hstop (Or.inr hr)
    · rw [state_apply hv hsw howns hi]
      simp only [ne_eq, hi, not_false_eq_true, true_and]
  unfold View.selectNext
  rw [hready, (Effect.apply_shape h (view k) _).current]
  rfl

/-- A task that a context switch finds runnable is not stopped after it. -/
theorem not_runnable_of_leads {e : Effect} {v v' : View} (hl : e.Leads h v v')
    (hstop : Stopped (v'.state (v.running h))) : ¬ Runnable ((e.apply h v).state (v.running h)) := by
  rcases hl.cases with rfl | ⟨b, -, ⟨rfl, -⟩ | ⟨n, -, rfl⟩⟩
  · exact hstop.not_runnable
  · exact hstop.not_runnable
  · intro hrun
    refine hstop.not_runnable ?_
    rw [View.state_swap]
    split
    · obtain hr | hr := hrun <;> exact Or.inl (by rw [hr]; rfl)
    · split
      · exact Or.inr rfl
      · exact hrun

/-- A hart whose current task has changed runs the new one. -/
theorem running_of_leads {e : Effect} (hl : e.Leads h (view k) (view k'))
    (hne : k'.current h ≠ k.current h) : k'.stateOf h (k'.current h) = some .running := by
  have hcur := congrFun (Effect.apply_shape h (view k) e).current h
  have hstays : view k' ≠ e.apply h (view k) := by
    intro hv
    rw [← hv] at hcur
    exact hne hcur
  rcases hl.cases with hv | ⟨b, -, ⟨hv, -⟩ | ⟨n, hn, hv⟩⟩
  · exact absurd hv hstays
  · exact absurd hv hstays
  · have hidx : k'.current h = n := by
      have hc : k'.current h = (((e.apply h (view k)).swap h n).current) h :=
        congrFun (congrArg View.current hv) h
      rw [hc]
      simp [View.swap]
    have hst := congrFun (congrArg View.state hv) (h, n)
    rw [View.state_swap, if_pos rfl, hn] at hst
    rw [hidx]
    exact hst

theorem hands_on_iff (hv : (view k).BootShape) (hk : Sound k) {sp frame : Word}
    (hok : trapHandler P h t k = .ok (sp, k')) (hstop : Stopped (k'.stateOf h (k.current h))) :
    (sp ≠ frame ∧ k'.stateOf h (k'.current h) = some .running) ↔ HandsOn k h t frame := by
  have hstays : k'.current h = k.current h → k'.stateOf h (k'.current h) ≠ some .running := by
    intro hcur hrun
    rw [← hcur] at hstop
    exact hstop.not_runnable (Or.inl hrun)
  have hr := trap_result (P := P) (h := h) hk (handledCause_of_ok hok)
  rw [hok] at hr
  cases hr with
  | lockFree _ he _ hview _ _ =>
    have hcur : k'.current h = k.current h := congrFun (congrArg View.current hview) h
    constructor
    · exact fun hp => absurd hp.2 (hstays hcur)
    · rintro ⟨hsw, -⟩
      rw [he] at hsw
      exact absurd rfl hsw
  | runs _ _ hr =>
    cases hr with
    | returns hleads _ _ howns _ _ hpicks =>
      have hnot := not_runnable_of_leads hleads hstop
      cases hsw : (effect k h t).switches h (view k) with
      | none =>
        have hview : view k' = (effect k h t).apply h (view k) := by
          rw [Effect.Leads, hsw] at hleads
          exact hleads
        have hcur : k'.current h = k.current h :=
          congrFun ((congrArg View.current hview).trans (Effect.apply_shape h (view k) _).current) h
        constructor
        · exact fun hp => absurd hp.2 (hstays hcur)
        · exact fun hh => absurd hsw hh.1
      | some b =>
        have hpick := hpicks b hsw hnot
        rw [selectNext_apply hv hsw howns hnot] at hpick
        constructor
        · rintro ⟨hsp, hrun⟩
          refine ⟨by rw [hsw]; simp, ?_⟩
          cases hn : BitMapScheduler.pickNext (available k h t) (k.current h) with
          | none =>
            rw [hn] at hpick
            exact absurd hrun (hstays hpick)
          | some n =>
            rw [hn] at hpick
            refine ⟨n, rfl, fun hsame => hsp ?_⟩
            exact Option.some.inj (hpick.2.symm.trans hsame)
        · rintro ⟨-, n, hn, hsp⟩
          rw [hn] at hpick
          obtain ⟨hcur, hsaved⟩ := hpick
          refine ⟨fun he => hsp (he ▸ hsaved), ?_⟩
          have hne : n ≠ k.current h := (of_decide_eq_true (BitMapScheduler.pickNext_sat hn)).1
          exact running_of_leads hleads (hcur ▸ hne)

end Step

theorem sound_of_takes {P : Platform} {s : System} {h : Hart} {t : Trap} {frame : Word} {k : Kernel}
    (ht : Takes P s h t frame k) (hs : SysInv s) : Sound k ∧ (view k).BootShape := by
  cases ht with
  | task t m => exact ⟨hs.sound m, hs.shape⟩
  | @nested t0 t m0 kf hf m =>
    obtain ⟨-, hview, hmutex, -, -⟩ := of_copyFault (hs.sound m0) hf
    have hview' : view (kf.setMem m) = view s.kernel := hview
    exact ⟨(hs.sound m0).congr hview (hmutex ▸ hs.mutexLock), hview' ▸ hs.shape⟩

/-- A trap, in any reachable state, that returns and leaves the task that was executing on its hart
blocked or terminated, returns to another frame with a `Running` current task if and only if it calls
`schedule` and another task of the hart is available, saved at another address. -/
theorem stopped_task_hands_on_iff (P : Platform) (s s' : System) (es : List Event) (h : Hart)
    (t : Trap) (frame sp : Word) (k k' : Kernel) (hs : Initial P s) (hrun : Run (Step P) s es s')
    (htakes : Takes P s' h t frame k) (hok : trapHandler P h t k = .ok (sp, k'))
    (hstop : Stopped (k'.stateOf h (k.current h))) :
    (sp ≠ frame ∧ k'.stateOf h (k'.current h) = some .running) ↔ HandsOn k h t frame := by
  obtain ⟨hsound, hshape⟩ := sound_of_takes htakes (sysInv_run hs hrun)
  exact hands_on_iff hshape hsound hok hstop

/-- An ecall with its frame at this address. -/
def called : Trap := ⟨ECALL_UMODE, 0x3FC82400, 0⟩

/-- The Watchdog sleeps for ten ticks. -/
def sleeps (s : System) : Outcome :=
  trapHandler packedPlatform 0 called (s.kernel.setMem (syscallFrame 0x3FC82400 2 10 0 0))

/-- Right after boot the Watchdog sleeps: Task A is `Ready`. -/
theorem stopped_task_hands_on_iff_boot :
    ∃ sp k', sleeps bootSystem = .ok (sp, k') ∧ k'.stateOf 0 0 = some (.blocked 10) ∧
      sp ≠ called.userSp ∧ k'.stateOf 0 (k'.current 0) = some .running := by
  have heval : (sleeps bootSystem).toOption.map (fun r => r.2.stateOf 0 0) =
      some (some (.blocked 10)) := by decide +kernel
  obtain ⟨⟨sp, k'⟩, hret, hst⟩ := Option.map_eq_some_iff.mp heval
  have hok : sleeps bootSystem = .ok (sp, k') := eq_ok_of_toOption hret
  have hst' : k'.stateOf 0 0 = some (.blocked 10) := hst
  have hiff := stopped_task_hands_on_iff packedPlatform bootSystem bootSystem [] 0 called
    called.userSp sp _ k' bootSystem_initial rfl (.task called _) hok (by
      show Stopped (k'.stateOf 0 0)
      rw [hst']
      trivial)
  exact ⟨sp, k', hok, hst', hiff.mpr ⟨by decide +kernel, 1, by decide +kernel, by decide +kernel⟩⟩

/-- The Watchdog terminates the other tasks of core 0, the idle task too, and sleeps: it goes on
running. -/
theorem blocked_watchdog_keeps_running :
    (∃ s' sp k', Run (Step packedPlatform) bootSystem
        [syscall 0 8 1 0 0, syscall 0 8 4 0 0, syscall 0 8 31 0 0] s' ∧ sleeps s' = .ok (sp, k') ∧
      sp = called.userSp ∧ k'.current 0 = 0 ∧ k'.stateOf 0 0 = some (.blocked 10)) ∧
    ¬ ∀ P s s' es h t frame sp k k', Initial P s → Run (Step P) s es s' → Takes P s' h t frame k →
      trapHandler P h t k = .ok (sp, k') → Stopped (k'.stateOf h (k.current h)) →
      sp ≠ frame ∧ k'.stateOf h (k'.current h) = some .running := by
  have hfail : ∃ s' sp k', Run (Step packedPlatform) bootSystem
      [syscall 0 8 1 0 0, syscall 0 8 4 0 0, syscall 0 8 31 0 0] s' ∧ sleeps s' = .ok (sp, k') ∧
      sp = called.userSp ∧ k'.current 0 = 0 ∧ k'.stateOf 0 0 = some (.blocked 10) ∧
      s'.kernel.current 0 = 0 := by
    obtain ⟨s', hrun, heval⟩ := run_of_eval packedPlatform bootSystem
      [syscall 0 8 1 0 0, syscall 0 8 4 0 0, syscall 0 8 31 0 0]
      (fun s => ((sleeps s).toOption.map fun r => (r.1, r.2.current 0, r.2.stateOf 0 0),
        s.kernel.current 0))
      (some (called.userSp, 0, some (.blocked 10)), 0) (by decide +kernel)
    obtain ⟨hf, hcur⟩ := Prod.mk.inj heval
    obtain ⟨⟨sp, k'⟩, hret, hr⟩ := Option.map_eq_some_iff.mp hf
    simp only [Prod.mk.injEq] at hr
    exact ⟨s', sp, k', hrun, eq_ok_of_toOption hret, hr.1, hr.2.1, hr.2.2, hcur⟩
  obtain ⟨s', sp, k', hrun, hok, hsp, hcur, hst, hcur'⟩ := hfail
  refine ⟨⟨s', sp, k', hrun, hok, hsp, hcur, hst⟩, fun hall => ?_⟩
  refine (hall _ _ _ _ 0 called called.userSp sp _ k' bootSystem_initial hrun (.task called _) hok
    ?_).1 hsp
  show Stopped (k'.stateOf 0 (s'.kernel.current 0))
  rw [hcur', hst]
  trivial

end Cerberus.Containment
