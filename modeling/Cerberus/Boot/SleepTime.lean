import Cerberus.Boot.Interrupts
import Cerberus.Boot.Refinement
import Cerberus.Containment.StoppedTask
import Cerberus.Watchdog.Sleep

/-! # How long a sleep lasts

`sleep_ticks` counts in `TICK_COUNT`, which the timers of both harts advance. A sleep of `n` ticks can
therefore be over after half as many timer intervals, and no sooner. -/
namespace Cerberus.Boot
open Kernel Scheduler Sync Memory Transition Watchdog Containment
set_option autoImplicit false

/-! ## A step of the system -/

section Asleep
variable {v v' : View} {h : Hart} {e : Effect} {x : TaskId} {b : Word}

/-- The scan wakes nobody before the wake tick. -/
theorem state_wake_early {now : Word} (hst : v.state x = some (.blocked b)) (hearly : ¬ b ≤ now) :
    (v.wake h now).state x = some (.blocked b) := by
  unfold View.wake
  dsimp only
  rw [hst]
  split
  · rw [Option.map_some, wakeState, if_neg hearly]
  · rfl

theorem asleep_effect (hst : v.state x = some (.blocked b)) (hstep : EffectStep h e v v')
    (hspares : (∃ now, e = .tick now ∧ (x.1 = h → ¬ b ≤ now)) ∨ SparesTask h v x e) :
    v'.state x = some (.blocked b) := by
  have happly : (e.apply h v).state x = some (.blocked b) := by
    by_cases hs : SparesTask h v x e
    · rw [state_apply_of_spares hstep.valid (Or.inl hst) hs]
      exact hst
    · obtain ⟨now, rfl, hearly⟩ := hspares.resolve_right hs
      have hown : x.1 = h := not_not.mp hs
      exact state_wake_early hst (hearly hown)
  rcases hstep.leads.cases with rfl | ⟨_, -, hr⟩
  · exact happly
  · exact (asleep_of_resched hr).1 happly

theorem tick_of_effect {k : Kernel} {ev : Event} {now : Word} (hev : ev.effect k = some (h, .tick now)) :
    ev.hart = h ∧ eventCause ev = some TIMER_INTERRUPT ∧ now = k.tickCount + 1#32 := by
  cases ev with
  | trap h' t m =>
    obtain ⟨rfl, he⟩ := Prod.mk.inj (Option.some.inj hev)
    by_cases htimer : t.mcause = TIMER_INTERRUPT
    · rw [effect, if_pos htimer] at he
      exact ⟨rfl, congrArg some htimer, (Effect.tick.inj he).symm⟩
    · exact absurd he (effect_ne_tick htimer now)
  | _ => cases hev

/-- A task sleeps on, or the timer of its hart has reached its wake tick. -/
theorem asleep_step {P : Platform} {s s' : System} {ev : Event} (hs : SysInv s) (hstep : Step P s ev s')
    (hst : (view s.kernel).state x = some (.blocked b))
    (hspares : ∀ h e, ev.effect s.kernel = some (h, e) →
      (∃ now, e = .tick now) ∨ SparesTask h (view s.kernel) x e) :
    (view s'.kernel).state x = some (.blocked b) ∨
      (ev.hart = x.1 ∧ eventCause ev = some TIMER_INTERRUPT ∧ b ≤ s.kernel.tickCount + 1#32) := by
  by_cases hdue : ev.hart = x.1 ∧ eventCause ev = some TIMER_INTERRUPT ∧ b ≤ s.kernel.tickCount + 1#32
  · exact Or.inr hdue
  left
  have hcases := (step_cases hs hstep).1
  generalize view s'.kernel = v' at hcases
  cases hcases with
  | @effect h e hev heff =>
    refine asleep_effect hst heff ((hspares h e hev).imp_left ?_)
    rintro ⟨now, rfl⟩
    refine ⟨now, rfl, fun hown hle => hdue ?_⟩
    obtain ⟨hhart, hcause, hnow⟩ := tick_of_effect hev
    exact ⟨hhart.trans hown.symm, hcause, hnow ▸ hle⟩
  | restart hev hnow hterm hv =>
    subst hv
    rw [View.state_setState, if_neg]
    · exact hst
    · rintro rfl
      cases hst.symm.trans hterm
  | skip hev hnow hv =>
    subst hv
    exact hst

end Asleep

/-! ## The machine -/

/-- The effect leaves a sleeping task alone; the scan of a timer interrupt may wake it. -/
def SparesSleeper (x : TaskId) (m : Machine) : MachineEvent → Prop
  | .task ev => ∀ h e, ev.effect m.kernel = some (h, e) →
      (∃ now, e = .tick now) ∨ SparesTask h (view m.kernel) x e
  | _ => True

/-- Both harts run tasks. -/
structure Up (m : Machine) : Prop where
  sys : SysInv m.system
  user : ∀ h, (m.cores h).mode = .user

section Machines
variable {B : Board} {m m' : Machine} {e : MachineEvent} {x : TaskId} {b : Word}

theorem up_of_boot {m0 : Machine} {es : List MachineEvent} (hon : PoweredOn m0)
    (hrun : Run (fun m e m' => MachineStep B m e m' ∧ FirstTasksLive m') m0 es m)
    (huser : ∀ h, (m.cores h).mode = .user) : Up m := by
  obtain ⟨_, s, -, hs, -⟩ := matches_run hon hrun
  have hsystem : s = m.system := (hs.eq_started (huser 0)).trans (started_of_user huser B.platform)
  exact ⟨hsystem ▸ hs.sys, huser⟩

/-- No hart comes back to `kmain`. -/
theorem up_step (m : Machine) (e : MachineEvent) (m' : Machine) (hup : Up m) (hstep : MachineStep B m e m') :
    Up m' := by
  have hkmain : ∀ h, (m.cores h).mode ≠ .kmain := fun h hk => by cases hk.symm.trans (hup.user h)
  cases machineStep_cases hstep with
  | halts hmode => exact absurd hmode (hkmain _)
  | continues hmode => exact absurd hmode (hkmain _)
  | lost hmode => exact absurd hmode (hkmain _)
  | elapse n => exact ⟨hup.sys, hup.user⟩
  | @task ev s huser hraised hs =>
    refine ⟨sysInv_step _ _ _ hup.sys hs, fun h => ?_⟩
    obtain ⟨t, ht⟩ := rearm_core m ev h
    show (m.rearm ev h).mode = .user
    rw [ht]
    exact hup.user h

theorem asleep_machineStep (hup : Up m) (hstep : MachineStep B m e m') (hspares : SparesSleeper x m e)
    (hst : (view m.kernel).state x = some (.blocked b)) : (view m'.kernel).state x = some (.blocked b) ∨
      (MachineEvent.ticksOn x.1 e = true ∧ b ≤ m.kernel.tickCount + 1#32) := by
  have hkmain : ∀ h, (m.cores h).mode ≠ .kmain := fun h hk => by cases hk.symm.trans (hup.user h)
  cases machineStep_cases hstep with
  | halts hmode => exact absurd hmode (hkmain _)
  | continues hmode => exact absurd hmode (hkmain _)
  | lost hmode => exact absurd hmode (hkmain _)
  | elapse n => exact Or.inl hst
  | task huser hraised hs =>
    refine (asleep_step hup.sys hs hst hspares).imp_right ?_
    rintro ⟨hhart, hcause, hle⟩
    exact ⟨by simp [MachineEvent.ticksOn, hhart, hcause], hle⟩

/-- The call puts its caller to sleep at once. -/
theorem asleep_of_call {h : Hart} {t : Trap} {mem : Memory} {c : SleepCall} (hup : Up m)
    (hcall : CallsSleep t (m.kernel.setMem mem)) (hc : c = sleepCall h t (m.kernel.setMem mem))
    (hstep : MachineStep B m (.task (.trap h t mem)) m') :
    (view m'.kernel).state c.task = some (.blocked (c.tick + c.ticks)) ∧
      m'.kernel.tickCount = c.tick + BitVec.ofNat 32 0 ∧ m'.mtime = m.mtime := by
  have hnot : t.mcause ≠ TIMER_INTERRUPT := by
    rw [hcall.1]
    decide
  cases machineStep_cases hstep with
  | @task _ s huser hraised hs =>
    subst hc
    refine ⟨?_, ?_, rfl⟩
    · have hcases := (step_cases hup.sys hs).1
      have heff : Event.effect m.kernel (.trap h t mem) = some (h, .block (.blocked
          (m.kernel.tickCount + (m.kernel.setMem mem).readFrame t.userSp 6))) := by
        unfold Event.effect
        dsimp only
        rw [effect_of_ecall hcall.1, ecallEffect]
        simp only [hcall.2]
        rfl
      show (view s.kernel).state (h, m.kernel.current h) = some (.blocked
        (m.kernel.tickCount + (m.kernel.setMem mem).readFrame t.userSp 6))
      obtain ⟨st, hst⟩ := Option.isSome_iff_exists.mp (hup.sys.shape.running h)
      have hresched : View.Resched h false _ (view s.kernel) := (effectStep_of_view hcases heff).leads
      refine (hresched.state_iff (by simp) (by simp)).mpr ?_
      rw [show ((h, m.kernel.current h) : TaskId) = (view m.kernel).running h from rfl, Effect.apply,
        View.state_setState, if_pos rfl, hst]
      rfl
    · have htick : s.kernel.tickCount = _ := tickCount_step hs
      show s.kernel.tickCount = _
      rw [htick, if_neg]
      · rfl
      · exact fun he => hnot (Option.some.inj he)

/-- Without a wrap-around the wake tick is not reached before it is counted. -/
theorem ticks_le_of_due {tick ticks : Word} {k : ℕ} (hwrap : tick.toNat + ticks.toNat < 2 ^ 32)
    (hdue : tick + ticks ≤ tick + BitVec.ofNat 32 k + 1#32) : ticks.toNat ≤ k + 1 := by
  have hle : (tick + ticks).toNat ≤ (tick + BitVec.ofNat 32 k + 1#32).toNat := hdue
  have hwake : (tick + ticks).toNat = tick.toNat + ticks.toNat := by
    rw [BitVec.toNat_add, Nat.mod_eq_of_lt hwrap]
  have hnow : (tick + BitVec.ofNat 32 k + 1#32).toNat ≤ tick.toNat + k + 1 := by
    simp only [BitVec.toNat_add, BitVec.toNat_ofNat]
    omega
  omega

/-- In a run that counts from `tick + k`, the task sleeps on or all its ticks are counted. -/
theorem asleep_run {tick ticks : Word} {k : ℕ} {es : List MachineEvent}
    (hwrap : tick.toNat + ticks.toNat < 2 ^ 32) (hup : Up m)
    (hcount : m.kernel.tickCount = tick + BitVec.ofNat 32 k)
    (hst : (view m.kernel).state x = some (.blocked (tick + ticks)))
    (hrun : Run (Guarded (MachineStep B) (SparesSleeper x)) m es m') :
    (view m'.kernel).state x = some (.blocked (tick + ticks)) ∨
      ticks.toNat ≤ k + (timerTraps 0 es + timerTraps 1 es) := by
  induction es generalizing m k with
  | nil =>
    have hm : m = m' := hrun
    exact Or.inl (hm ▸ hst)
  | cons e es ih =>
    obtain ⟨m1, ⟨hstep, hspares⟩, hrest⟩ := hrun
    have hcons : timerTraps 0 (e :: es) + timerTraps 1 (e :: es) =
        ((if MachineEvent.ticksOn 0 e = true then 1 else 0) +
          if MachineEvent.ticksOn 1 e = true then 1 else 0) + (timerTraps 0 es + timerTraps 1 es) := by
      simp only [timerTraps, List.countP_cons]
      omega
    rw [hcons, ← Nat.add_assoc]
    rcases asleep_machineStep hup hstep hspares hst with hst1 | ⟨hticks, hdue⟩
    · refine ih (up_step m e m1 hup hstep) ?_ hst1 hrest
      rw [(tickCount_machineStep hstep).2, hcount, BitVec.add_assoc, ← BitVec.ofNat_add]
    · right
      rw [hcount] at hdue
      have hle := ticks_le_of_due hwrap hdue
      rcases hart_cases x.1 with hx | hx
      · rw [hx] at hticks
        rw [if_pos hticks]
        omega
      · rw [hx] at hticks
        rw [if_pos hticks]
        omega

end Machines

end Cerberus.Boot
