import Cerberus.Watchdog.Health

/-! # Whom an atomic pass terminates

With passes taken atomically, the task a pass terminates is the last one in the order of the checks
that fails its check. A task that has checked in fails only when its check-in is too old. A task that
has not is compared with the tick counter itself, which counts from boot and not from the restart. -/
namespace Cerberus.Watchdog
open Kernel Scheduler Sync Memory Transition
set_option autoImplicit false

/-! ## One check in unbounded ticks -/

/-- `tick - c` modulo `2 ^ 32`. -/
def lag (tick c : ℕ) : ℕ := (tick + (2 ^ 32 - c % 2 ^ 32)) % 2 ^ 32

theorem toNat_sub_ofNat (tick c : ℕ) :
    (BitVec.ofNat 32 tick - BitVec.ofNat 32 c).toNat = lag tick c := by
  rw [BitVec.toNat_sub, BitVec.toNat_ofNat, BitVec.toNat_ofNat, lag]
  omega

theorem lag_le {tick c : ℕ} (hc : c ≤ tick) : lag tick c ≤ tick - c := by
  have heq : lag tick c = (tick - c) % 2 ^ 32 := by
    unfold lag
    omega
  rw [heq]
  exact Nat.mod_le _ _

/-- A task that has not checked in is held against the counter itself. -/
theorem checkFailed_none (tick : ℕ) :
    checkFailed (BitVec.ofNat 32 tick) (entry none) = true ↔ 1000 < tick % 2 ^ 32 := by
  simp only [checkFailed, entry, if_true, decide_eq_true_eq, BitVec.lt_def, BitVec.toNat_ofNat]

/-- A check-in at a multiple of `2 ^ 32` is taken for none. -/
theorem checkFailed_some (tick c : ℕ) :
    checkFailed (BitVec.ofNat 32 tick) (entry (some c)) = true ↔
      (if c % 2 ^ 32 = 0 then 1000 else 200) < lag tick c := by
  have hzero : BitVec.ofNat 32 c = 0#32 ↔ c % 2 ^ 32 = 0 := by
    rw [← BitVec.toNat_inj, BitVec.toNat_ofNat]
    rfl
  by_cases hc : c % 2 ^ 32 = 0
  · have hlag : lag tick c = tick % 2 ^ 32 := by
      unfold lag
      omega
    have he : entry (some c) = entry none := hzero.mpr hc
    rw [he, checkFailed_none, if_pos hc, hlag]
  · have he : entry (some c) ≠ 0#32 := fun h0 => hc (hzero.mp h0)
    simp only [checkFailed, if_neg he, if_neg hc, decide_eq_true_eq, BitVec.lt_def]
    show (200 < (BitVec.ofNat 32 tick - BitVec.ofNat 32 c).toNat) ↔ _
    rw [toNat_sub_ofNat]

/-! ## The task a pass terminates -/

/-- The task is registered and not terminated. -/
def Live (k : Kernel) (x : TaskId) : Prop :=
  (view k).state x ≠ none ∧ (view k).state x ≠ some .terminated

/-- The check of the task fails. -/
def Flags (k : Kernel) (currentTick : Word) (x : TaskId) : Prop :=
  Live k x ∧ checkFailed currentTick (k.lastCheckin x.2) = true

instance (k : Kernel) (currentTick : Word) (x : TaskId) : Decidable (Flags k currentTick x) := by
  unfold Flags Live
  infer_instance

/-- The monitored tasks checked after `x`. -/
def later (x : TaskId) : List TaskId := (monitored.dropWhile fun y => decide (y ≠ x)).tail

/-- The name by which `failed_prio` is found. -/
def nameOf (x : TaskId) : String := (bootStatic x).elim "" Static.name

/-- The four checks. -/
def healthCheck (k : Kernel) (currentTick : Word) : Option String :=
  monitored.foldl (inspectTask k currentTick) none

section Target
variable {k : Kernel} {currentTick : Word} {x : TaskId}

theorem inspectTask_eq (hv : (view k).BootShape) (hx : x ∈ monitored) (failed : Option String) :
    inspectTask k currentTick failed x =
      if Flags k currentTick x then some (nameOf x) else failed := by
  have hreg : ((view k).state x).isSome := by
    rw [hv.isSome]
    exact registered_of_monitored hx
  obtain ⟨tcb, htcb⟩ := Option.isSome_iff_exists.mp ((view_state_isSome ..).symm.trans hreg)
  have hstate : (view k).state x = some tcb.state := by
    show ((k.scheds x.1).taskTable x.2).map TaskControlBlock.state = _
    rw [htcb]
    rfl
  have hname : nameOf x = tcb.name := by
    have hstatic : (view k).static x = bootStatic x := congrFun hv.static x
    unfold nameOf
    rw [← hstatic]
    show (((k.scheds x.1).taskTable x.2).map _).elim "" Static.name = _
    rw [htcb]
    rfl
  have hflags : Flags k currentTick x ↔
      tcb.state ≠ .terminated ∧ checkFailed currentTick (k.lastCheckin x.2) = true := by
    unfold Flags Live
    rw [hstate]
    simp
  unfold inspectTask
  rw [htcb, hname]
  exact if_congr hflags.symm rfl rfl

theorem healthCheck_eq (hv : (view k).BootShape) : healthCheck k currentTick =
    if Flags k currentTick hsmTask then some (nameOf hsmTask)
    else if Flags k currentTick taskC then some (nameOf taskC)
    else if Flags k currentTick taskB then some (nameOf taskB)
    else if Flags k currentTick taskA then some (nameOf taskA) else none := by
  unfold healthCheck
  conv_lhs => rw [show monitored = [taskA, taskB, taskC, hsmTask] from rfl]
  simp only [List.foldl_cons, List.foldl_nil]
  rw [inspectTask_eq hv (x := hsmTask) (by decide), inspectTask_eq hv (x := taskC) (by decide),
    inspectTask_eq hv (x := taskB) (by decide), inspectTask_eq hv (x := taskA) (by decide)]

/-- The check that fails last decides. -/
theorem healthCheck_eq_some (hv : (view k).BootShape) {failedTask : String} :
    healthCheck k currentTick = some failedTask ↔ ∃ y ∈ monitored, Flags k currentTick y ∧
      (∀ z ∈ later y, ¬ Flags k currentTick z) ∧ failedTask = nameOf y := by
  have hlater : later hsmTask = [] ∧ later taskC = [hsmTask] ∧ later taskB = [taskC, hsmTask] ∧
      later taskA = [taskB, taskC, hsmTask] := by decide
  obtain ⟨hH, hC, hB, hA⟩ := hlater
  rw [healthCheck_eq hv]
  constructor
  · intro hsome
    split at hsome
    · exact ⟨hsmTask, by decide, ‹_›, by simp [hH], (Option.some.inj hsome).symm⟩
    split at hsome
    · refine ⟨taskC, by decide, ‹_›, ?_, (Option.some.inj hsome).symm⟩
      simpa [hC] using ‹¬ Flags k currentTick hsmTask›
    split at hsome
    · refine ⟨taskB, by decide, ‹_›, ?_, (Option.some.inj hsome).symm⟩
      simp only [hB, List.mem_cons, List.not_mem_nil, or_false, forall_eq_or_imp, forall_eq]
      exact ⟨‹_›, ‹_›⟩
    split at hsome
    · refine ⟨taskA, by decide, ‹_›, ?_, (Option.some.inj hsome).symm⟩
      simp only [hA, List.mem_cons, List.not_mem_nil, or_false, forall_eq_or_imp, forall_eq]
      exact ⟨‹_›, ‹_›, ‹_›⟩
    · cases hsome
  · rintro ⟨y, hy, hflags, hnone, rfl⟩
    simp only [monitored, List.mem_cons, List.not_mem_nil, or_false] at hy
    rcases hy with rfl | rfl | rfl | rfl
    · simp only [hA, List.mem_cons, List.not_mem_nil, or_false, forall_eq_or_imp, forall_eq] at hnone
      rw [if_neg hnone.2.2, if_neg hnone.2.1, if_neg hnone.1, if_pos hflags]
    · simp only [hB, List.mem_cons, List.not_mem_nil, or_false, forall_eq_or_imp, forall_eq] at hnone
      rw [if_neg hnone.2, if_neg hnone.1, if_pos hflags]
    · simp only [hC, List.mem_cons, List.not_mem_nil, or_false, forall_eq] at hnone
      rw [if_neg hnone, if_pos hflags]
    · rw [if_pos hflags]

theorem findTask_eq (hv : (view k).BootShape) {prio : Word} (hx : (bootStatic x).isSome)
    (hprio : prio.toNat = x.2.val) (hfirst : x.1 = 0 ∨ (bootStatic (0, x.2)).isSome = false) :
    findTask k prio = some x := by
  have htable : ∀ y : TaskId, ((k.scheds y.1).taskTable y.2).isSome = (bootStatic y).isSome := by
    intro y
    rw [← hv.isSome, view_state_isSome]
  obtain ⟨h, i⟩ := x
  have hlt : prio.toNat < MAX_PARTITIONS := by
    rw [hprio]
    exact i.isLt
  have hi : (⟨prio.toNat, hlt⟩ : Fin MAX_PARTITIONS) = i := Fin.ext hprio
  unfold findTask
  rw [dif_pos hlt, hi]
  by_cases hzero : h = 0
  · subst hzero
    exact if_pos ((htable (0, i)).trans hx)
  · have hone : h = 1 := Fin.eq_one_of_ne_zero h hzero
    subst hone
    have hnone := (htable (0, i)).trans (hfirst.resolve_left hzero)
    rw [if_neg fun hs => Bool.noConfusion (hnone.symm.trans hs)]
    exact if_pos ((htable (1, i)).trans hx)

/-- `failed_prio` names the task that failed. -/
theorem findTask_failedPrio (hv : (view k).BootShape) (hx : x ∈ monitored) :
    findTask k (failedPrio (nameOf x)) = some x := by
  have hspec : ∀ y ∈ monitored, (failedPrio (nameOf y)).toNat = y.2.val ∧
      (y.1 = 0 ∨ (bootStatic (0, y.2)).isSome = false) := by decide +kernel
  exact findTask_eq hv (registered_of_monitored hx) (hspec x hx).1 (hspec x hx).2

/-- The termination syscall of a pass. -/
theorem effect_terminateCall (hv : (view k).BootShape) (hx : x ∈ monitored) (sp cycles : Word)
    (m : Memory) :
    (terminateCall sp cycles (failedPrio (nameOf x)) m).effect k = some (0, .kill x) := by
  have hid : ((k.setMem ((m.writeWord (slot sp 13) 8#32).writeWord (slot sp 6)
      (failedPrio (nameOf x)))).readFrame sp 13).toNat = 8 := readFrame_terminateCall ..
  have ha0 : (k.setMem ((m.writeWord (slot sp 13) 8#32).writeWord (slot sp 6)
      (failedPrio (nameOf x)))).readFrame sp 6 = failedPrio (nameOf x) :=
    readWord_writeWord_self ..
  have hfind := findTask_failedPrio hv hx
  unfold terminateCall Event.effect
  dsimp only
  rw [effect_of_ecall rfl, ecallEffect]
  simp only [hid, ha0]
  have hfind' : findTask (k.setMem ((m.writeWord (slot sp 13) 8#32).writeWord (slot sp 6)
      (failedPrio (nameOf x)))) (failedPrio (nameOf x)) = some x := hfind
  rw [hfind']

end Target

/-! ## Atomic passes -/

/-- A pass from the load of the tick to the last check. -/
def checkEvents : List WatchEvent := [.load, .lock, .read, .read, .read, .read]

/-- A pass taken atomically, or what happens between two passes. -/
inductive Block where
  | tick (h : Hart)
  | timer (h : Hart) (t : Trap) (m : Memory)
  | trap (h : Hart) (t : Trap) (m : Memory)
  | nestedTrap (h : Hart) (t : Trap) (m : Memory) (t' : Trap) (m' : Memory)
  | pass (sp cycles : Word) (m : Memory)

def Block.events : Block → List WatchEvent
  | .tick h => [.tick h]
  | .timer h t m => [.timer h t m]
  | .trap h t m => [.trap h t m]
  | .nestedTrap h t m t' m' => [.nestedTrap h t m t' m']
  | .pass sp cycles m => checkEvents ++ [.terminate sp cycles m, .restartTaskC, .restartHsm, .unlock]

/-- The pass from `w` terminates `y`: syscall 8 is made, and its effect is the termination of `y`. -/
def PassTerminates (P : Platform) (w : Monitor) (sp cycles : Word) (m : Memory) (y : TaskId) : Prop :=
  ∃ w1 w2 currentTick failedTask, Run (WatchStep P) w checkEvents w1 ∧
    w1.stage = .checking currentTick [] (some failedTask) ∧
    WatchStep P w1 (.terminate sp cycles m) w2 ∧
    (terminateCall sp cycles (failedPrio failedTask) m).effect w1.sys.kernel = some (0, .kill y)

/-- The termination is due: the last check-in since the start is more than 200 ticks old, or there
was none and the start is more than 1000 ticks ago. -/
def Justified (hist : History) (y : TaskId) : Prop :=
  (∃ c, hist.checkin y = some c ∧ 200 < hist.now - c) ∨
    (hist.checkin y = none ∧ 1000 < hist.now - hist.started y)

/-- A live task that was started at most 1000 ticks ago and has not checked in, while `TICK_COUNT` is
above 1000. -/
def InGrace (w : Monitor) (y : TaskId) : Prop :=
  Live w.sys.kernel y ∧ w.hist.checkin y = none ∧ w.hist.now - w.hist.started y ≤ 1000 ∧
    1000 < w.hist.now % 2 ^ 32

section Pass
variable {P : Platform} {w w' : Monitor}

theorem load_step (hstep : WatchStep P w .load w') : w' = { w with
    stage := .sampled w.sys.kernel.tickCount
    hist := { w.hist with sample := w.hist.now } } := by
  unfold WatchStep Monitor.next at hstep
  dsimp only at hstep
  split at hstep
  · unfold Monitor.act at hstep
    dsimp only at hstep
    split at hstep
    · exact (Option.some.inj hstep).symm
    · cases hstep
  · cases hstep

theorem lock_step {currentTick : Word} (hstage : w.stage = .sampled currentTick)
    (hstep : WatchStep P w .lock w') : ∃ l, w' = { w with
      sys := ⟨{ w.sys.kernel with schedLock := l }, true⟩
      stage := .checking currentTick monitored none } := by
  unfold WatchStep Monitor.next at hstep
  dsimp only at hstep
  split at hstep
  · unfold Monitor.act at hstep
    rw [hstage] at hstep
    obtain ⟨s, hs, rfl⟩ := Option.map_eq_some_iff.mp hstep
    unfold System.next at hs
    dsimp only at hs
    split at hs
    · obtain ⟨l, -, rfl⟩ := Option.map_eq_some_iff.mp hs
      exact ⟨l, rfl⟩
    · cases hs
  · cases hstep

theorem read_step {currentTick : Word} {x : TaskId} {rest : List TaskId} {failed : Option String}
    (hstage : w.stage = .checking currentTick (x :: rest) failed)
    (hstep : WatchStep P w .read w') : w' = { w with
      stage := .checking currentTick rest (inspectTask w.sys.kernel currentTick failed x) } := by
  unfold WatchStep Monitor.next at hstep
  dsimp only at hstep
  split at hstep
  · unfold Monitor.act at hstep
    rw [hstage] at hstep
    exact (Option.some.inj hstep).symm
  · cases hstep

/-- The checks of an atomic pass read the state the pass begins in. -/
theorem checks_of_run (hrun : Run (WatchStep P) w checkEvents w') : ∃ l, w' = { w with
    sys := ⟨{ w.sys.kernel with schedLock := l }, true⟩
    stage := .checking w.sys.kernel.tickCount []
      (healthCheck w.sys.kernel w.sys.kernel.tickCount)
    hist := { w.hist with sample := w.hist.now } } := by
  obtain ⟨w1, h1, w2, h2, w3, h3, w4, h4, w5, h5, w6, h6, rfl⟩ := hrun
  obtain rfl := load_step h1
  obtain ⟨l, rfl⟩ := lock_step rfl h2
  obtain rfl := read_step rfl h3
  obtain rfl := read_step rfl h4
  obtain rfl := read_step rfl h5
  exact ⟨l, read_step rfl h6⟩

/-- A pass terminates the task whose check fails last. -/
theorem passTerminates_iff (hw : Clocks w) {sp cycles : Word} {m : Memory}
    (hpass : Run (WatchStep P) w (Block.pass sp cycles m).events w') (y : TaskId) :
    PassTerminates P w sp cycles m y ↔ y ∈ monitored ∧
      Flags w.sys.kernel w.sys.kernel.tickCount y ∧
      ∀ z ∈ later y, ¬ Flags w.sys.kernel w.sys.kernel.tickCount z := by
  constructor
  · rintro ⟨w1, w2, currentTick, failedTask, hrun, hstage, -, heff⟩
    obtain ⟨l, rfl⟩ := checks_of_run hrun
    obtain ⟨-, -, hcheck⟩ := Stage.checking.inj hstage
    obtain ⟨x, hx, hflags, hnone, rfl⟩ := (healthCheck_eq_some hw.inv.shape).mp hcheck
    have hkill := effect_terminateCall (k := { w.sys.kernel with schedLock := l }) hw.inv.shape hx
      sp cycles m
    have hxy := (Prod.mk.inj (Option.some.inj (heff.symm.trans hkill))).2
    obtain rfl := Effect.kill.inj hxy
    exact ⟨hx, hflags, hnone⟩
  · rintro ⟨hy, hflags, hnone⟩
    have hsplit : ∃ w1, Run (WatchStep P) w checkEvents w1 ∧ Run (WatchStep P) w1 _ w' :=
      Run.split hpass
    obtain ⟨w1, hchecks, hrest⟩ := hsplit
    obtain ⟨w2, hterm, -⟩ := hrest
    obtain ⟨l, rfl⟩ := checks_of_run hchecks
    have hcheck := (healthCheck_eq_some hw.inv.shape).mpr ⟨y, hy, hflags, hnone, rfl⟩
    refine ⟨_, w2, w.sys.kernel.tickCount, nameOf y, hchecks, by rw [hcheck], hterm, ?_⟩
    exact effect_terminateCall (k := { w.sys.kernel with schedLock := l }) hw.inv.shape hy sp cycles m

theorem flags_iff (hw : Clocks w) {y : TaskId} (hy : y ∈ monitored) :
    Flags w.sys.kernel w.sys.kernel.tickCount y ↔ Live w.sys.kernel y ∧
      checkFailed (BitVec.ofNat 32 w.hist.now) (entry (w.hist.checkin y)) = true := by
  unfold Flags
  rw [hw.now, hw.entries y hy]

/-- A check-in that is flagged is too old. -/
theorem justified_of_checkin (hw : Clocks w) {y : TaskId} {c : ℕ} (hc : w.hist.checkin y = some c)
    (hfail : checkFailed (BitVec.ofNat 32 w.hist.now) (entry (some c)) = true) :
    Justified w.hist y := by
  have hlag := (checkFailed_some w.hist.now c).mp hfail
  have hle := lag_le (hw.checkins y c hc).2.1
  refine Or.inl ⟨c, hc, ?_⟩
  split at hlag
  · omega
  · omega

end Pass

/-- Along every run with atomic passes, a pass terminates only tasks whose termination is due if and
only if no task in its grace period is the last to fail its check. -/
theorem watchdog_sound_iff (P : Platform) (w0 w w' : Monitor) (bs : List Block) (sp cycles : Word)
    (m : Memory) (hinit : WatchInitial P w0)
    (hrun : Run (WatchStep P) w0 (bs.flatMap Block.events) w)
    (hpass : Run (WatchStep P) w (Block.pass sp cycles m).events w') :
    (∀ y, PassTerminates P w sp cycles m y → Justified w.hist y) ↔
      ∀ y ∈ monitored, InGrace w y →
        ∃ z ∈ later y, Flags w.sys.kernel w.sys.kernel.tickCount z := by
  have hw : Clocks w := clocks_run hinit hrun
  constructor
  · rintro hsound y hy ⟨hlive, hnone, hrecent, hcounter⟩
    by_contra hno
    push Not at hno
    have hflags : Flags w.sys.kernel w.sys.kernel.tickCount y := by
      rw [flags_iff hw hy, hnone]
      exact ⟨hlive, (checkFailed_none _).mpr hcounter⟩
    rcases hsound y ((passTerminates_iff hw hpass y).mpr ⟨hy, hflags, hno⟩) with
      ⟨c, hc, -⟩ | ⟨-, hlong⟩
    · rw [hnone] at hc
      cases hc
    · omega
  · intro hgrace y hterm
    obtain ⟨hy, hflags, hno⟩ := (passTerminates_iff hw hpass y).mp hterm
    obtain ⟨hlive, hfail⟩ := (flags_iff hw hy).mp hflags
    cases hc : w.hist.checkin y with
    | some c =>
      rw [hc] at hfail
      exact justified_of_checkin hw hc hfail
    | none =>
      rw [hc] at hfail
      refine Or.inr ⟨hc, ?_⟩
      by_contra hle
      obtain ⟨z, hz, hzflags⟩ := hgrace y hy
        ⟨hlive, hc, by omega, (checkFailed_none _).mp hfail⟩
      exact hno z hz hzflags

/-! ## A restart late after boot -/

/-- A system call with its frame at `0x3FC82400`. -/
def call (h : Hart) (id a0 a1 a2 : Word) : Block :=
  .trap h ⟨ECALL_UMODE, 0x3FC82400, 0⟩ (syscallFrame 0x3FC82400 id a0 a1 a2)

/-- A load access fault of the running task. -/
def fault (h : Hart) : Block := .trap h ⟨5, 0x3FC82400, 0⟩ fun _ => 0

def timerTrap : Trap := ⟨TIMER_INTERRUPT, 0x3FC82400, 0⟩

def timerBlocks (w : Monitor) (h : Hart) : ℕ → List Block
  | 0 => []
  | n + 1 => timerBlocks w h n ++ [.tick h, .timer h timerTrap w.sys.kernel.mem]

theorem timerBlocks_events (w : Monitor) (h : Hart) (n : ℕ) :
    (timerBlocks w h n).flatMap Block.events = w.timerEvents h timerTrap n := by
  induction n with
  | zero => rfl
  | succ n ih =>
    rw [timerBlocks, List.flatMap_append, ih]
    rfl

/-- Task B and Task C fault, and the Watchdog sleeps for 100 ticks. -/
def crash : List Block := [fault 1, fault 1, call 0 2 100 0 0]

def pass : Block := .pass 0x3FC82400 0 fun _ => 0

/-- The Watchdog wakes, Task A and HSM Task check in and leave the core to it, and after its pass it
sleeps again. -/
def recovery : List Block :=
  [.tick 0, .timer 0 timerTrap fun _ => 0, call 0 5 0 0 0, call 0 1 0 0 0, call 0 5 0 0 0,
    call 0 7 0 0x3FC81000 12, pass, call 0 2 100 0 0]

/-- The Watchdog wakes and Task A leaves the core to it. -/
def wake : List Block := [.tick 0, .timer 0 timerTrap fun _ => 0, call 0 1 0 0 0]

def after (bs : List Block) (w : Monitor) : Option Monitor :=
  (bs.flatMap Block.events).foldlM (Monitor.next packedPlatform) w

instance (w : Monitor) (y : TaskId) : Decidable (InGrace w y) := by
  unfold InGrace Live
  infer_instance

theorem run_of_after {w w' : Monitor} {bs : List Block} (hafter : after bs w = some w') :
    Run (WatchStep packedPlatform) w (bs.flatMap Block.events) w' := Run.of_foldlM hafter

/-- A run goes on with `n` timer interrupts on core 1 and `bs`. -/
theorem run_of_idle {w w1 w2 : Monitor} {as bs : List Block} {n : ℕ}
    (hrun : Run (WatchStep packedPlatform) w (as.flatMap Block.events) w1) (hs : w1.Steady 1 n)
    (hafter : after bs (w1.idle 1 n) = some w2) :
    Run (WatchStep packedPlatform) w ((as ++ timerBlocks w1 1 n ++ bs).flatMap Block.events) w2 := by
  rw [List.flatMap_append, List.flatMap_append, timerBlocks_events]
  exact (hrun.append (idle_run timerTrap hs)).append (run_of_after hafter)

/-- The Watchdog wakes after 1001 ticks without a check-in. -/
def silence : List Block :=
  [.tick 0, .timer 0 timerTrap fun _ => 0, call 0 1 0 0 0, call 0 7 0 0x3FC81000 12]

/-- The termination of HSM Task 1001 ticks after boot is due. -/
theorem watchdog_sound_iff_hsm :
    ∃ (bs : List Block) (w w' : Monitor),
      Run (WatchStep packedPlatform) bootMonitor (bs.flatMap Block.events) w ∧
      Run (WatchStep packedPlatform) w pass.events w' ∧
      PassTerminates packedPlatform w 0x3FC82400 0 (fun _ => 0) hsmTask ∧
      Justified w.hist hsmTask := by
  have heval : ((after crash bootMonitor).bind fun w1 => (after silence (w1.idle 1 1000)).bind
      fun w => (after [pass] w).map fun _ => decide (w1.Steady 1 1000 ∧
        Flags w.sys.kernel w.sys.kernel.tickCount hsmTask ∧ ∀ y ∈ monitored, ¬ InGrace w y)) =
      some true := by
    decide +kernel
  simp only [Option.bind_eq_some_iff, Option.map_eq_some_iff, decide_eq_true_eq] at heval
  obtain ⟨w1, hw1, w, hw, w', hw', h1, hflags, hgrace⟩ := heval
  have hrun := run_of_idle (run_of_after hw1) h1 hw
  have hpass : Run (WatchStep packedPlatform) w pass.events w' := by
    have hfold := run_of_after hw'
    rwa [List.flatMap_singleton] at hfold
  have hlast : later hsmTask = [] := by decide
  have hterm : PassTerminates packedPlatform w 0x3FC82400 0 (fun _ => 0) hsmTask :=
    (passTerminates_iff (clocks_run bootMonitor_initial hrun) hpass hsmTask).mpr
      ⟨by decide, hflags, by simp [hlast]⟩
  refine ⟨_, w, w', hrun, hpass, hterm, ?_⟩
  exact (watchdog_sound_iff _ _ w w' _ _ _ _ bootMonitor_initial hrun hpass).mpr
    (fun y hy hin => absurd hin (hgrace y hy)) hsmTask hterm

/-- Task C is restarted 1001 ticks after boot and terminated 100 ticks later, before it has run. -/
theorem restarted_task_terminated :
    (∃ (bs : List Block) (w w' : Monitor),
      Run (WatchStep packedPlatform) bootMonitor (bs.flatMap Block.events) w ∧
      Run (WatchStep packedPlatform) w pass.events w' ∧
      PassTerminates packedPlatform w 0x3FC82400 0 (fun _ => 0) taskC ∧
      w.hist.checkin taskC = none ∧ w.hist.started taskC = 1001 ∧ w.hist.now = 1101) ∧
    ¬ ∀ P w0 w w' (bs : List Block) sp cycles m, WatchInitial P w0 →
      Run (WatchStep P) w0 (bs.flatMap Block.events) w →
      Run (WatchStep P) w (Block.pass sp cycles m).events w' →
      ∀ y, PassTerminates P w sp cycles m y → Justified w.hist y := by
  have heval : ((after crash bootMonitor).bind fun w1 => (after recovery (w1.idle 1 1000)).bind
      fun w2 => (after wake (w2.idle 1 99)).bind fun w => (after [pass] w).map fun _ =>
        (decide (w1.Steady 1 1000 ∧ w2.Steady 1 99 ∧
          Flags w.sys.kernel w.sys.kernel.tickCount taskC ∧
          ∀ z ∈ later taskC, ¬ Flags w.sys.kernel w.sys.kernel.tickCount z),
          w.hist.checkin taskC, w.hist.started taskC, w.hist.now)) =
      some (true, none, 1001, 1101) := by
    decide +kernel
  simp only [Option.bind_eq_some_iff, Option.map_eq_some_iff, Prod.mk.injEq, decide_eq_true_eq]
    at heval
  obtain ⟨w1, hw1, w2, hw2, w, hw, w', hw', ⟨h1, h2, hflags, hlast⟩, hcheck, hstarted, hnow⟩ := heval
  have hrun := run_of_idle (run_of_idle (run_of_after hw1) h1 hw2) h2 hw
  have hpass : Run (WatchStep packedPlatform) w pass.events w' := by
    have hfold := run_of_after hw'
    rwa [List.flatMap_singleton] at hfold
  have hterm : PassTerminates packedPlatform w 0x3FC82400 0 (fun _ => 0) taskC :=
    (passTerminates_iff (clocks_run bootMonitor_initial hrun) hpass taskC).mpr
      ⟨by decide, hflags, hlast⟩
  refine ⟨⟨_, w, w', hrun, hpass, hterm, hcheck, hstarted, hnow⟩, fun hall => ?_⟩
  rcases hall _ _ w w' _ _ _ _ bootMonitor_initial hrun hpass taskC hterm with
    ⟨c, hc, -⟩ | ⟨-, hlong⟩
  · rw [hcheck] at hc
    cases hc
  · rw [hstarted, hnow] at hlong
    omega

end Cerberus.Watchdog
