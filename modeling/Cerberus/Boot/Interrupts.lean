import Cerberus.Boot.Handshake

/-! # The interrupts that are enabled

`init_timer` sets the timer bit of `mie` and nothing else does, so the software interrupt by which a
handler signals the other core is never taken: the pending bit stays set, and a task made `Ready` on the
other core waits for a timer interrupt or a yield there. The timer of each core counts in `TICK_COUNT`,
which therefore runs at the sum of the two rates. -/
namespace Cerberus.Boot
open Kernel Scheduler Sync Memory Transition Mutex
set_option autoImplicit false

/-! ## The software interrupt -/

section Software
variable {B : Board} {m m' : Machine}

theorem fault_of_copyFault {P : Platform} {h : Hart} {t : Trap} {k kf : Kernel} {cause : Word}
    (hf : trapHandler P h t k = .error (.copyFault cause kf)) : cause = 5#32 ∨ cause = 7#32 := by
  have hadds := trap_adds P h t k
  rw [hf] at hadds
  exact hadds.2

/-- The machine takes no software interrupt. -/
theorem BootInv.not_software (hinv : BootInv B m) {ev : Event} (hstep : MachineStep B m (.task ev) m') :
    ∀ t ∈ ev.traps, t.mcause ≠ SOFTWARE_INTERRUPT := by
  cases machineStep_cases hstep with
  | @task _ s huser hraised hs =>
    have hdisabled : ∀ {cause : Word}, eventCause ev = some cause → cause ≠ SOFTWARE_INTERRUPT := by
      rintro cause hcause rfl
      have henabled := (hraised.2 hcause).1
      rw [hinv.soft] at henabled
      cases henabled
    have hkernel := stepKernel_of_step hs
    generalize s.kernel = k' at hkernel
    intro t ht
    cases hkernel with
    | trap hok =>
      obtain rfl := List.mem_singleton.mp ht
      exact hdisabled rfl
    | nested hf hok =>
      rcases List.mem_cons.mp ht with rfl | ht
      · exact hdisabled rfl
      · obtain rfl := List.mem_singleton.mp ht
        rcases fault_of_copyFault hf with hfault | hfault <;> rw [hfault] <;> decide
    | _ => cases ht

theorem irq_boot {h : Hart} (hstep : MachineStep B m (.boot h) m') :
    irqState m'.kernel = irqState m.kernel ∧ m'.mtime = m.mtime := by
  cases machineStep_cases hstep with
  | halts hmode htodo hx => exact ⟨rfl, rfl⟩
  | continues hmode htodo hx => exact ⟨(exec_frame hx).irq, (exec_frame hx).mtime⟩

theorem BootInv.msip_step (hinv : BootInv B m) {e : MachineEvent} (hstep : MachineStep B m e m') {h : Hart}
    (hpending : m.kernel.msip h = true) : m'.kernel.msip h = true := by
  cases e with
  | boot h0 =>
    have hmsip := congrArg Prod.snd (irq_boot hstep).1
    exact (congrFun hmsip h).trans hpending
  | task ev =>
    have hsoft := hinv.not_software hstep
    cases machineStep_cases hstep with
    | task huser hraised hs =>
      exact step_preserves (I := fun k => k.msip h = true) (fun _ _ hk hc => hc.msip hsoft hk) hpending hs
  | _ =>
    cases machineStep_cases hstep
    exact hpending

end Software

/-- In every run from power-on no software interrupt is taken, and a pending bit that a handler has set
stays set for the rest of the run. -/
theorem software_interrupt_never_taken (B : Board) (m0 m1 m : Machine) (es1 es2 : List MachineEvent)
    (hon : PoweredOn m0) (hrun1 : Run (MachineStep B) m0 es1 m1) (hrun2 : Run (MachineStep B) m1 es2 m) :
    (∀ ev, .task ev ∈ es1 → ∀ t ∈ ev.traps, t.mcause ≠ SOFTWARE_INTERRUPT) ∧
      ∀ h, m1.kernel.msip h = true → m.kernel.msip h = true := by
  have hinv1 := bootInv_run hon hrun1
  refine ⟨fun ev hev => ?_, fun h hpending => ?_⟩
  · exact hrun1.forall_label (I := BootInv B)
      (Q := fun e => ∀ ev, e = .task ev → ∀ t ∈ ev.traps, t.mcause ≠ SOFTWARE_INTERRUPT)
      (fun _ _ _ hu hstep => bootInv_step hu hstep)
      (fun u e u' hu hstep ev he => hu.not_software (he ▸ hstep)) (bootInv_poweredOn hon) _ hev ev rfl
  · exact (hrun2.invariant (I := fun u => BootInv B u ∧ u.kernel.msip h = true)
      (fun u e u' hu hstep => ⟨bootInv_step hu.1 hstep, hu.1.msip_step hstep hu.2⟩) ⟨hinv1, hpending⟩).2

/-- Task B waits on endpoint 0 and Task A sends from the other core. -/
def signalled : List MachineEvent :=
  bootBoth ++ [.task (syscall 1 7 0 0x3FC82500 8), .task (syscall 0 1 0 0 0),
    .task (syscall 0 6 1 0x3FC82600 8)]

def timerOn (h : Hart) : MachineEvent := .task (.trap h ⟨TIMER_INTERRUPT, 0x3FC82400, 0⟩ fun _ => 0)

/-- The signal to core 1 is still pending after the timer interrupt by which Task B gets to run. -/
theorem software_interrupt_still_pending : ∃ m1 m, Run (MachineStep packedBoard) powerOn signalled m1 ∧
    m1.kernel.msip 1 = true ∧ Run (MachineStep packedBoard) m1 [.elapse 40000, timerOn 1] m ∧
    m.kernel.msip 1 = true := by
  obtain ⟨m1, hrun1, h1⟩ := machineRun_of_eval packedBoard powerOn signalled
    (fun m => (m.kernel.msip 1, (Machine.next packedBoard m (.elapse 40000)).bind fun m =>
      (Machine.next packedBoard m (timerOn 1)).map fun _ => ())) (true, some ()) (by decide +kernel)
  obtain ⟨hpending, hnext⟩ := Prod.mk.inj h1
  obtain ⟨m2, hm2, hnext⟩ := Option.bind_eq_some_iff.mp hnext
  obtain ⟨m, hm, -⟩ := Option.map_eq_some_iff.mp hnext
  have hrun2 : Run (MachineStep packedBoard) m1 [.elapse 40000, timerOn 1] m := ⟨m2, hm2, m, hm, rfl⟩
  exact ⟨m1, m, hrun1, hpending, hrun2, (software_interrupt_never_taken packedBoard powerOn m1 m signalled _
    powerOn_poweredOn hrun1 hrun2).2 1 hpending⟩

/-! ## The timer -/

def MachineEvent.ticksOn (h : Hart) : MachineEvent → Bool
  | .task ev => ev.hart = h ∧ eventCause ev = some TIMER_INTERRUPT
  | _ => false

/-- The timer interrupts that the tasks of `h` were interrupted by. -/
def timerTraps (h : Hart) (es : List MachineEvent) : ℕ := es.countP (MachineEvent.ticksOn h)

theorem not_timer_of_copyFault {P : Platform} {h : Hart} {t : Trap} {k kf : Kernel} {cause : Word}
    (hf : trapHandler P h t k = .error (.copyFault cause kf)) : t.mcause ≠ TIMER_INTERRUPT := by
  intro htimer
  rw [trapHandler, if_pos htimer] at hf
  unfold timerInterrupt withSchedLock at hf
  dsimp only at hf
  split at hf
  · cases hf
  · cases hf

theorem tickCount_trap {P : Platform} {h : Hart} {t : Trap} {k : Kernel} :
    (∀ sp k', trapHandler P h t k = .ok (sp, k') → k'.tickCount = (entered h t k).tickCount) ∧
      ∀ cause kf, trapHandler P h t k = .error (.copyFault cause kf) →
        kf.tickCount = (entered h t k).tickCount :=
  trap_preserves (I := fun u => u.tickCount = (entered h t k).tickCount)
    (fun _ _ hk hu => hu.tickCount.trans hk) rfl

theorem tickCount_entered (h : Hart) (t : Trap) (k : Kernel) : (entered h t k).tickCount =
    k.tickCount + if t.mcause = TIMER_INTERRUPT then 1#32 else 0#32 := by
  unfold entered
  split
  · rfl
  · split <;> exact (BitVec.add_zero _).symm

/-- Every step counts the timer interrupts in it. -/
theorem tickCount_step {P : Platform} {s s' : System} {ev : Event} (hstep : Step P s ev s') :
    s'.kernel.tickCount =
      s.kernel.tickCount + if eventCause ev = some TIMER_INTERRUPT then 1#32 else 0#32 := by
  have hkernel := stepKernel_of_step hstep
  have hnone : s.kernel.tickCount = s.kernel.tickCount + 0#32 := (BitVec.add_zero _).symm
  generalize s'.kernel = k' at hkernel ⊢
  cases hkernel with
  | trap hok =>
    rw [tickCount_trap.1 _ _ hok, tickCount_entered]
    simp only [eventCause, Option.some.injEq]
    rfl
  | @nested h t t' m m' kf k' sp hf hok =>
    have hfault : t'.mcause ≠ TIMER_INTERRUPT := by
      rcases fault_of_copyFault hf with hc | hc <;> rw [hc] <;> decide
    have hcall := not_timer_of_copyFault hf
    have hkf : kf.tickCount = s.kernel.tickCount := by
      rw [tickCount_trap.2 _ _ hf, tickCount_entered, if_neg hcall, BitVec.add_zero]
      rfl
    rw [tickCount_trap.1 _ _ hok, tickCount_entered, if_neg hfault, BitVec.add_zero]
    simp only [eventCause, Option.some.injEq, if_neg hcall, BitVec.add_zero]
    exact hkf
  | lock => exact hnone
  | restartTaskC =>
    refine Eq.trans ?_ hnone
    unfold restartTaskC
    split <;> rfl
  | restartHsm =>
    refine Eq.trans ?_ hnone
    unfold restartHsm
    split <;> rfl
  | unlock => exact hnone

/-- After `n` timer interrupts on `h` since time `t0` the next one is not due before `n` more intervals
have passed. -/
def Paced (t0 : ℕ) (h : Hart) (n : ℕ) (m : Machine) : Prop :=
  n = 0 ∨ (m.cores h).mode = .user ∧ t0 + n * TIMER_INTERVAL ≤ (m.cores h).mtimecmp ∧
    (m.cores h).mtimecmp ≤ m.mtime + TIMER_INTERVAL

section Pace
variable {B : Board} {m m' : Machine} {h : Hart} {t0 n : ℕ}

theorem Paced.of_core (hp : Paced t0 h n m) (hcore : m'.cores h = m.cores h) (hle : m.mtime ≤ m'.mtime) :
    Paced t0 h n m' := by
  refine hp.imp_right fun ⟨huser, hlow, hhigh⟩ => ?_
  rw [hcore]
  exact ⟨huser, hlow, by omega⟩

/-- A hart in U-mode makes no steps of `kmain`. -/
theorem Paced.boot (hp : Paced t0 h n m) {h0 : Hart} (hstep : MachineStep B m (.boot h0) m') :
    Paced t0 h n m' := by
  refine hp.elim Or.inl fun hp' => ?_
  have hne : (m.cores h0).mode = .kmain → h ≠ h0 := by
    rintro hmode rfl
    exact absurd (hmode.symm.trans hp'.1) (by decide)
  refine hp.of_core ?_ (irq_boot hstep).2.ge
  cases machineStep_cases hstep with
  | halts hmode htodo hx => exact Function.update_of_ne (hne hmode) _ _
  | continues hmode htodo hx =>
    exact ((exec_frame hx).others h (hne hmode)).trans (Function.update_of_ne (hne hmode) _ _)

theorem Paced.task (hp : Paced t0 h n m) (ht0 : t0 ≤ m.mtime) {ev : Event}
    (hstep : MachineStep B m (.task ev) m') :
    Paced t0 h (n + if MachineEvent.ticksOn h (.task ev) = true then 1 else 0) m' := by
  cases machineStep_cases hstep with
  | task huser hraised hs =>
    by_cases hticks : ev.hart = h ∧ eventCause ev = some TIMER_INTERRUPT
    · obtain ⟨rfl, hcause⟩ := hticks
      have hdue := (hraised.1 hcause).2
      have hcore : m.rearm ev ev.hart =
          { m.cores ev.hart with mtimecmp := m.mtime + TIMER_INTERVAL } := by
        rw [Machine.rearm, if_pos hcause, Function.update_self]
      rw [if_pos (by simp [MachineEvent.ticksOn, hcause])]
      refine Or.inr ?_
      simp only [hcore]
      refine ⟨huser, ?_, le_refl _⟩
      have hlow : t0 + n * TIMER_INTERVAL ≤ m.mtime := by
        rcases hp with rfl | ⟨-, hlow, -⟩ <;> omega
      rw [Nat.add_mul]
      omega
    · have hnot : MachineEvent.ticksOn h (.task ev) = false := by
        simpa [MachineEvent.ticksOn] using hticks
      rw [hnot]
      refine hp.of_core ?_ (le_refl _)
      show m.rearm ev h = m.cores h
      unfold Machine.rearm
      split
      · have hne : h ≠ ev.hart := fun he => hticks ⟨he.symm, ‹_›⟩
        exact Function.update_of_ne hne _ _
      · rfl

theorem Paced.step (hp : Paced t0 h n m) (ht0 : t0 ≤ m.mtime) {e : MachineEvent}
    (hstep : MachineStep B m e m') :
    Paced t0 h (n + if MachineEvent.ticksOn h e = true then 1 else 0) m' := by
  cases e with
  | boot h0 => exact hp.boot hstep
  | bootTimer h0 =>
    cases machineStep_cases hstep with
    | lost hmode =>
      refine hp.elim Or.inl fun hp' => hp.of_core ?_ (le_refl _)
      refine Function.update_of_ne ?_ _ _
      rintro rfl
      exact absurd (hmode.symm.trans hp'.1) (by decide)
  | elapse k =>
    cases machineStep_cases hstep
    exact hp.of_core rfl (Nat.le_add_right _ _)
  | task ev => exact hp.task ht0 hstep

/-- `TICK_COUNT` counts the timer interrupts of both harts, and the clock never runs back. -/
theorem tickCount_machineStep {e : MachineEvent} (hstep : MachineStep B m e m') :
    m.mtime ≤ m'.mtime ∧ m'.kernel.tickCount = m.kernel.tickCount +
      BitVec.ofNat 32 ((if MachineEvent.ticksOn 0 e = true then 1 else 0) +
        if MachineEvent.ticksOn 1 e = true then 1 else 0) := by
  have hnone : m.kernel.tickCount = m.kernel.tickCount + BitVec.ofNat 32 (0 + 0) :=
    (BitVec.add_zero _).symm
  cases e with
  | boot h0 => exact ⟨(irq_boot hstep).2.ge, (congrArg Prod.fst (irq_boot hstep).1).trans hnone⟩
  | bootTimer h0 =>
    cases machineStep_cases hstep
    exact ⟨le_refl _, hnone⟩
  | elapse k =>
    cases machineStep_cases hstep
    exact ⟨Nat.le_add_right _ _, hnone⟩
  | task ev =>
    cases machineStep_cases hstep with
    | @task _ s huser hraised hs =>
      refine ⟨le_refl _, ?_⟩
      have htick : s.kernel.tickCount = _ := tickCount_step hs
      show s.kernel.tickCount = _
      rw [htick]
      congr 1
      have hhart : ev.hart = 0 ∨ ev.hart = 1 := by
        generalize ev.hart = h
        revert h
        decide
      by_cases hcause : eventCause ev = some TIMER_INTERRUPT
      · rcases hhart with hh | hh <;> simp [MachineEvent.ticksOn, hcause, hh]
      · simp [MachineEvent.ticksOn, hcause]

/-- What a run adds. -/
theorem pace_run {es : List MachineEvent} (hp : Paced t0 h n m) (ht0 : t0 ≤ m.mtime)
    (hrun : Run (MachineStep B) m es m') : Paced t0 h (n + timerTraps h es) m' := by
  induction es generalizing m n with
  | nil =>
    have hm : m = m' := hrun
    exact hm ▸ hp
  | cons e es ih =>
    obtain ⟨m1, hstep, hrest⟩ := hrun
    have hle := (tickCount_machineStep hstep).1
    have hcount : n + timerTraps h (e :: es) =
        n + (if MachineEvent.ticksOn h e = true then 1 else 0) + timerTraps h es := by
      rw [timerTraps, timerTraps, List.countP_cons]
      omega
    rw [hcount]
    exact ih (hp.step ht0 hstep) (ht0.trans hle) hrest

theorem tickCount_run {es : List MachineEvent} (hrun : Run (MachineStep B) m es m') :
    m.mtime ≤ m'.mtime ∧
      m'.kernel.tickCount = m.kernel.tickCount + BitVec.ofNat 32 (timerTraps 0 es + timerTraps 1 es) := by
  induction es generalizing m with
  | nil =>
    have hm : m = m' := hrun
    subst hm
    exact ⟨le_refl _, (BitVec.add_zero _).symm⟩
  | cons e es ih =>
    obtain ⟨m1, hstep, hrest⟩ := hrun
    obtain ⟨hle, htick⟩ := tickCount_machineStep hstep
    obtain ⟨hle1, htick1⟩ := ih hrest
    refine ⟨hle.trans hle1, ?_⟩
    rw [htick1, htick, BitVec.add_assoc, ← BitVec.ofNat_add]
    congr 2
    simp only [timerTraps, List.countP_cons]
    omega

theorem timerTraps_le {es : List MachineEvent} (hrun : Run (MachineStep B) m es m') (h : Hart) :
    timerTraps h es * TIMER_INTERVAL ≤ m'.mtime - m.mtime + TIMER_INTERVAL := by
  have hle := (tickCount_run hrun).1
  have hp : Paced m.mtime h (0 + timerTraps h es) m' := pace_run (Or.inl rfl) (le_refl _) hrun
  rw [Nat.zero_add] at hp
  rcases hp with hzero | ⟨-, hlow, hhigh⟩
  · rw [hzero]
    omega
  · omega

theorem both_timers_le {es : List MachineEvent} (hrun : Run (MachineStep B) m es m') :
    (timerTraps 0 es + timerTraps 1 es) * TIMER_INTERVAL ≤ 2 * (m'.mtime - m.mtime + TIMER_INTERVAL) := by
  have h0 := timerTraps_le hrun 0
  have h1 := timerTraps_le hrun 1
  rw [Nat.add_mul]
  omega

end Pace

/-- Between any two points of a run the timer of a hart interrupts it at most once for each interval
that passes on the clock, and once more; `TICK_COUNT` advances by the interrupts of both harts, so by up
to twice that. -/
theorem tick_rate (B : Board) (m m' : Machine) (es : List MachineEvent)
    (hrun : Run (MachineStep B) m es m') :
    (∀ h, timerTraps h es * TIMER_INTERVAL ≤ m'.mtime - m.mtime + TIMER_INTERVAL) ∧
      ∃ n, m'.kernel.tickCount = m.kernel.tickCount + BitVec.ofNat 32 n ∧
        n * TIMER_INTERVAL ≤ 2 * (m'.mtime - m.mtime + TIMER_INTERVAL) :=
  ⟨fun h => timerTraps_le hrun h, _, (tickCount_run hrun).2, both_timers_le hrun⟩

/-- Both timers go off once in the first interval after boot. -/
theorem tick_rate_first : ∃ m m', Run (MachineStep packedBoard) m [.elapse 40000, timerOn 0, timerOn 1] m' ∧
    (∀ h, timerTraps h [.elapse 40000, timerOn 0, timerOn 1] * TIMER_INTERVAL ≤
      m'.mtime - m.mtime + TIMER_INTERVAL) ∧
    ∃ n, m'.kernel.tickCount = m.kernel.tickCount + BitVec.ofNat 32 n ∧
      n * TIMER_INTERVAL ≤ 2 * (m'.mtime - m.mtime + TIMER_INTERVAL) := by
  obtain ⟨m', hrun, -⟩ := machineRun_of_eval packedBoard powerOn
    (bootBoth ++ [.elapse 40000, timerOn 0, timerOn 1]) (fun _ => ()) () (by decide +kernel)
  obtain ⟨m, -, htail⟩ := hrun.split
  exact ⟨m, m', htail, tick_rate packedBoard m m' _ htail⟩

end Cerberus.Boot
