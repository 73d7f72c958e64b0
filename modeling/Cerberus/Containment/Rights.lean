import Cerberus.Kernel.Primitive
import Cerberus.Memory.Isolation

/-! # The rights of the running tasks

`reprogram_pmp_stack` is called where the running partition changes and nowhere else. Along every run
the PMP registers of a hart are those of the task it is running, so that what U-mode code may do with an
address depends on the name of that task alone, and not on what ran before it or on the other hart. -/
namespace Cerberus.Containment
open Kernel Scheduler Sync Memory Transition
set_option autoImplicit false

/-- The name of the task in the current slot of `h`. -/
def runningName (k : Kernel) (h : Hart) : Option String :=
  (statics (k.scheds h) (k.current h)).map Static.name

theorem runningName_eq_view (k : Kernel) (h : Hart) :
    runningName k h = ((view k).static ((view k).running h)).map Static.name := rfl

/-- The PMP registers of every hart are those of the task it runs. -/
def PmpFollows (P : Platform) (k : Kernel) : Prop :=
  ∀ h, ∃ name, runningName k h = some name ∧ Programmed P.layout name (k.pmp h)

section Updates
variable {P : Platform} {h : Hart} {k k' : Kernel}

theorem PmpFollows.congr (hk : PmpFollows P k) (hname : ∀ h, runningName k' h = runningName k h)
    (hpmp : k'.pmp = k.pmp) : PmpFollows P k' := by
  intro h
  obtain ⟨name, hn, hp⟩ := hk h
  exact ⟨name, (hname h).trans hn, hpmp ▸ hp⟩

theorem runningName_setSched {s : BitMapScheduler} (hcur : s.currentPartitionIdx = k.current h)
    (hs : ∀ j, statics s j = statics (k.scheds h) j) (h' : Hart) :
    runningName (k.setSched h s) h' = runningName k h' := by
  by_cases hh : h' = h
  · subst hh
    simp only [runningName, Kernel.current, Kernel.setSched, Function.update_self, hs]
    rw [hcur, Kernel.current]
  · simp [runningName, Kernel.current, Kernel.setSched, hh]

theorem pmpFollows_switchTask (hk : PmpFollows P k) (cycles : Word) (isTick : Bool) (sp : Word) :
    PmpFollows P (switchTask P h cycles isTick sp k).2 := by
  have hreg : ((k.scheds h).taskTable (k.scheds h).currentPartitionIdx).isSome := by
    obtain ⟨name, hn, -⟩ := hk h
    obtain ⟨s, hs, -⟩ := Option.map_eq_some_iff.mp hn
    obtain ⟨tcb, htcb, -⟩ := Option.map_eq_some_iff.mp hs
    exact Option.isSome_iff_exists.mpr ⟨tcb, htcb⟩
  rcases BitMapScheduler.schedule_cases (b := isTick) hreg with
    ⟨r, hsched, -⟩ | ⟨n, tcb, -, -, htcb, hsched⟩
  · simp only [switchTask, hsched]
    exact hk.congr (runningName_setSched rfl fun _ => rfl) rfl
  · simp only [switchTask, hsched, BitMapScheduler.swapTo_currentPartitionIdx, htcb]
    have hnew : statics ((((k.scheds h).spendTick isTick).swapTo n).setSavedSp
        (k.scheds h).currentPartitionIdx sp) n = some (static tcb) := by
      rw [statics_setSavedSp, statics, htcb]
      rfl
    intro h'
    by_cases hh : h' = h
    · subst hh
      obtain ⟨name, -, hp⟩ := hk h'
      refine ⟨tcb.name, ?_, ?_⟩
      · simp only [runningName, Kernel.current, Kernel.setSched, Kernel.setPmp, Function.update_self,
          BitMapScheduler.setSavedSp_currentPartitionIdx, BitMapScheduler.swapTo_currentPartitionIdx, hnew]
        rfl
      · simp only [Kernel.setPmp, Function.update_self]
        exact programmed_reprogramPmpStack hp.booted tcb.name
    · obtain ⟨name, hn, hp⟩ := hk h'
      refine ⟨name, ?_, ?_⟩
      · simpa [runningName, Kernel.current, Kernel.setSched, Kernel.setPmp, hh, Kernel.logTelemetry] using hn
      · simpa [Kernel.setPmp, Kernel.setSched, Kernel.logTelemetry, hh] using hp

theorem PmpFollows.update (hk : PmpFollows P k) (hu : Update P h k k') : PmpFollows P k' := by
  cases hu with
  | state x st =>
    refine hk.congr (runningName_setSched rfl fun j => statics_setState _ _ _ _) rfl
  | wake now => exact hk.congr (runningName_setSched rfl fun j => statics_wakeSleepers _ _ _) rfl
  | switch cycles isTick sp => exact pmpFollows_switchTask hk cycles isTick sp
  | _ => exact hk.congr (fun _ => rfl) rfl

/-- A restart leaves the running slots and the registered names as they are. -/
theorem PmpFollows.change {ev : Event} (hk : PmpFollows P k) (hc : Change P ev k k') : PmpFollows P k' := by
  refine hc.rule hk (fun _ _ hk hu => hk.update hu) (fun _ _ hk => hk.congr (fun _ => rfl) rfl)
    (fun _ _ hk => hk.congr (fun _ => rfl) rfl) (fun _ _ hk => hk.congr (fun _ => rfl) rfl)
    fun st h i u hu => hu.congr (fun h' => ?_) rfl
  rw [runningName_eq_view, runningName_eq_view, view_restart]
  rfl

end Updates

/-! ## Every run -/

theorem pmpFollows_initial {P : Platform} {s : System} (hs : Initial P s) : PmpFollows P s.kernel := by
  obtain ⟨m, r, hreset, hboot, -⟩ := hs
  obtain ⟨k, hk, hview, -, -, hpmp⟩ := boot_view P m r
  rw [hk] at hboot
  rw [← Option.some.inj hboot]
  intro h
  refine ⟨if h = 0 then watchdogSpec.name else taskBSpec.name, ?_, ?_⟩
  · rw [runningName_eq_view, hview]
    fin_cases h <;> rfl
  · rw [hpmp]
    exact programmed_reprogramPmpStack (booted_initMemoryProtection (hreset h)) _

theorem pmpFollows_run {P : Platform} {s s' : System} {es : List Event} (hs : Initial P s)
    (hrun : Run (Step P) s es s') : PmpFollows P s'.kernel :=
  hrun.invariant (I := fun s => PmpFollows P s.kernel)
    (fun _ _ _ hu hstep => step_preserves (fun _ _ hk hc => hk.change hc) hu hstep) (pmpFollows_initial hs)

theorem not_hidden_iff (L : StackLayout) (name : String) (a : Word) :
    ¬ Hidden L name a ↔
      ∀ st : StackTask, st = .watchdog ∨ st = .taskA → L.InStack st a → name = st.name := by
  constructor
  · rintro hn st (rfl | rfl) ha
    · by_contra hne
      exact hn (Or.inl ⟨ha, hne⟩)
    · by_contra hne
      exact hn (Or.inr ⟨ha, hne⟩)
  · rintro hall (⟨ha, hne⟩ | ⟨ha, hne⟩)
    · exact hne (hall .watchdog (Or.inl rfl) ha)
    · exact hne (hall .taskA (Or.inr rfl) ha)

/-- What U-mode code on a hart may do in any reachable state: read and execute flash, read and write
SRAM, except the stacks of the Watchdog and of Task A when another task runs. -/
theorem rights_follow_schedule (P : Platform) (s s' : System) (es : List Event) (hs : Initial P s)
    (hrun : Run (Step P) s es s') (h : Hart) :
    ∃ tcb, (s'.kernel.scheds h).taskTable (s'.kernel.current h) = some tcb ∧
      ∀ acc a, uModeMay (s'.kernel.pmp h) acc a = true ↔
        (InFlash a ∧ acc ≠ .write) ∨
          (InSram a ∧ (∀ st : StackTask, st = .watchdog ∨ st = .taskA → P.layout.InStack st a →
            tcb.name = st.name) ∧ acc ≠ .execute) := by
  obtain ⟨name, hname, hp⟩ := pmpFollows_run hs hrun h
  obtain ⟨s, hs, rfl⟩ := Option.map_eq_some_iff.mp hname
  obtain ⟨tcb, htcb, rfl⟩ := Option.map_eq_some_iff.mp hs
  refine ⟨tcb, htcb, fun acc a => ?_⟩
  rw [← not_hidden_iff]
  exact hp.uModeMay_iff acc a

/-- After a yield of the Watchdog, Task A may write its own stack and not read the Watchdog's. -/
theorem rights_after_yield : ∃ s', Run (Step packedPlatform) bootSystem [syscall 0 1 0 0 0] s' ∧
    uModeMay (s'.kernel.pmp 0) .write 0x3FC80400 = true ∧
    ¬ uModeMay (s'.kernel.pmp 0) .read 0x3FC80000 = true := by
  obtain ⟨s', hrun, hname⟩ := run_of_eval packedPlatform bootSystem [syscall 0 1 0 0 0]
    (fun s => runningName s.kernel 0) (some "Task A") (by decide +kernel)
  obtain ⟨tcb, htcb, hrights⟩ := rights_follow_schedule packedPlatform bootSystem s' _
    bootSystem_initial hrun 0
  have hA : tcb.name = "Task A" := by
    simpa [runningName, statics, htcb, static] using hname
  refine ⟨s', hrun, (hrights _ _).mpr (Or.inr ⟨by decide, ?_, by decide⟩), fun hread => ?_⟩
  · rintro st (rfl | rfl) hst
    · exact absurd hst (by decide)
    · exact hA
  · rcases (hrights _ _).mp hread with ⟨hf, -⟩ | ⟨-, hall, -⟩
    · exact absurd hf (by decide)
    · have hw := hall .watchdog (Or.inl rfl) (by decide)
      rw [hA] at hw
      exact absurd hw (by decide)

end Cerberus.Containment
