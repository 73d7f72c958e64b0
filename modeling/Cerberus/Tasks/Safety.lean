import Cerberus.Mutex.Exclusion
import Cerberus.Tasks.Programs
import Cerberus.Watchdog.Sleep

/-! # What the programs rely on

Two facts about the kernel carry the programs: a task that runs can go on, unless another core has
terminated it, and a task between its lock and its unlock owns the mutex, unless it cannot go on. -/
namespace Cerberus.Tasks
open Kernel Scheduler Sync Memory Transition Signing Watchdog Mutex Containment
set_option autoImplicit false

/-! ## Tasks that run -/

/-- If the task runs, it can go on. -/
def Live (v : View) (x : TaskId) : Prop := v.running x.1 = x → Runnable (v.state x)

section Live
variable {v v' : View} {h : Hart} {e : Effect} {x : TaskId}

theorem runnable_ready (st? : Option TaskState) (hst : st?.isSome) :
    Runnable (st?.map fun _ => TaskState.ready) := by
  obtain ⟨st, rfl⟩ := Option.isSome_iff_exists.mp hst
  exact Or.inr rfl

theorem isSome_of_runnable {st? : Option TaskState} (hst : Runnable st?) : st?.isSome := by
  rcases hst with rfl | rfl
  · rfl
  · rfl

theorem runnable_release (i : Fin 8) (hx : Runnable (v.state x)) : Runnable ((v.release i).state x) := by
  refine View.release_rule (I := fun u => Runnable (u.state x)) hx (fun _ _ _ => hx) fun m w _ _ => ?_
  rw [View.state_setState]
  split
  · rename_i hw
    refine runnable_ready _ ?_
    rw [View.setMutex_state, ← hw]
    exact isSome_of_runnable hx
  · exact hx

/-- A task stops being runnable by its own call or by its termination. -/
theorem runnable_apply (hx : Runnable (v.state x)) (hcaller : (∃ st, e = .block st) ∨ (∃ i, e = .wait i) →
    x ≠ v.running h) (hkill : e ≠ .kill x) : Runnable ((e.apply h v).state x) := by
  cases e with
  | none => exact hx
  | tick now =>
    simp only [Effect.apply, View.wake]
    split
    · rcases hx with hx | hx
      · rw [hx]
        exact Or.inl rfl
      · rw [hx]
        exact Or.inr rfl
    · exact hx
  | resched => exact hx
  | block st =>
    simp only [Effect.apply]
    rw [View.state_setState, if_neg (hcaller (Or.inl ⟨st, rfl⟩))]
    exact hx
  | grant i =>
    simp only [Effect.apply]
    split
    · exact hx
    · exact hx
  | wait i =>
    simp only [Effect.apply]
    split
    · exact hx
    · rw [View.setMutex_state, View.state_setState, if_neg (hcaller (Or.inr ⟨i, rfl⟩))]
      exact hx
  | release i => exact runnable_release i hx
  | transfer y =>
    simp only [Effect.apply]
    rw [View.state_setState]
    split
    · rename_i hxy
      exact runnable_ready _ (hxy ▸ isSome_of_runnable hx)
    · exact hx
  | kill y =>
    have hne : x ≠ y := fun hxy => hkill (by rw [hxy])
    refine View.recoverAll_induction (I := fun u => Runnable (u.state x))
      (fun u i hu _ => runnable_release i hu) ?_
    rw [View.state_setState, if_neg hne]
    exact hx

theorem runnable_effect (hx : Runnable (v.state x)) (hstep : EffectStep h e v v')
    (hcaller : (∃ st, e = .block st) ∨ (∃ i, e = .wait i) → x ≠ v.running h) (hkill : e ≠ .kill x) :
    Runnable (v'.state x) := by
  have happly : Runnable ((e.apply h v).state x) := runnable_apply hx hcaller hkill
  rcases hstep.leads.cases with rfl | ⟨_, -, hr⟩
  · exact happly
  · exact runnable_of_resched hr happly

/-- A core with a task other than the idle one, when it looks for another task, finds one. -/
theorem running_of_switch (hv : v.BootShape) (hawake : Awake v) (hspares : SparesIdle h v e)
    (hstep : EffectStep h e v v') (hne : v.running h ≠ idleOf h)
    (hswitch : e.switches h v = some false) : v'.state (v'.running h) = some .running := by
  have hready : (e.apply h v).state (h, 31) = some .ready := by
    rw [show ((h, 31) : TaskId) = idleOf h from rfl, apply_idle hv hawake hstep.valid hspares]
    rcases hawake.idle h with hready | ⟨hrun, -⟩
    · exact hready
    · exact absurd hrun hne
  have hleads := hstep.leads
  unfold Effect.Leads at hleads
  rw [hswitch] at hleads
  rcases hleads with ⟨-, hnone⟩ | ⟨n, hn, rfl⟩
  · exact absurd hready (hnone rfl 31)
  · have hrun : ((e.apply h v).swap h n).running h = (h, n) := by
      simp [View.running, View.swap]
    rw [hrun, View.state_swap, if_pos rfl, hn]
    rfl

theorem Live.effect (hlive : Live v x) (hv : v.BootShape) (hawake : Awake v)
    (hspares : SparesIdle h v e) (hstep : EffectStep h e v v')
    (hkill : e = .kill x → x = v.running h ∨ v.running x.1 ≠ x) : Live v' x := by
  intro hrun'
  rcases running_of_leads hstep.leads x.1 with hsame | hrunning
  · have hrun : v.running x.1 = x := hsame.symm.trans hrun'
    have hx : Runnable (v.state x) := hlive hrun
    by_cases hblocks : x = v.running h ∧ ((∃ st, e = .block st) ∨ (∃ i, e = .wait i) ∨ e = .kill x)
    · -- the task gives up its core
      obtain ⟨hxh, hblocks⟩ := hblocks
      have hhart : x.1 = h := congrArg Prod.fst hxh
      have hne : v.running h ≠ idleOf h := by
        intro hidle
        rcases hspares.interrupts hidle with ⟨now, rfl⟩ | rfl
        · rcases hblocks with ⟨_, he⟩ | ⟨_, he⟩ | he <;> cases he
        · rcases hblocks with ⟨_, he⟩ | ⟨_, he⟩ | he <;> cases he
      have hswitch : e.switches h v = some false := by
        rcases hblocks with ⟨st, rfl⟩ | ⟨i, rfl⟩ | rfl
        · rfl
        · rfl
        · exact if_pos hxh
      have hgoes := running_of_switch hv hawake hspares hstep hne hswitch
      rw [← hhart, hrun'] at hgoes
      exact Or.inl hgoes
    · have hkilled : e ≠ .kill x := by
        intro he
        rcases hkill he with hxh | hno
        · exact hblocks ⟨hxh, Or.inr (Or.inr he)⟩
        · exact hno hrun
      refine runnable_effect hx hstep (fun hcall hxh => hblocks ⟨hxh, ?_⟩) hkilled
      rcases hcall with hb | hw
      · exact Or.inl hb
      · exact Or.inr (Or.inl hw)
  · rw [hrun'] at hrunning
    exact Or.inl hrunning

end Live

/-! ## Tasks between lock and unlock -/

/-- The task was terminated or waits for a mutex. -/
def Stuck (v : View) (x : TaskId) : Prop :=
  v.state x = some .terminated ∨ ∃ b, v.state x = some (.blockedOnMutex b)

section Stuck
variable {v v' : View} {h : Hart} {e : Effect} {x : TaskId}

theorem not_stuck_of_runnable (hx : Runnable (v.state x)) : ¬ Stuck v x := by
  rintro (hs | ⟨b, hs⟩)
  · rw [hs] at hx
    rcases hx with hx | hx <;> cases hx
  · rw [hs] at hx
    rcases hx with hx | hx <;> cases hx

theorem Stuck.congr (hs : Stuck v x) (hstate : v'.state x = v.state x) : Stuck v' x := by
  unfold Stuck
  rw [hstate]
  exact hs

theorem Stuck.resched {isTick : Bool} (hs : Stuck v x) (hr : View.Resched h isTick v v') : Stuck v' x := by
  rcases hs with hs | ⟨b, hs⟩
  · exact Or.inl ((hr.state_iff (by simp) (by simp)).mpr hs)
  · exact Or.inr ⟨b, (hr.state_iff (by simp) (by simp)).mpr hs⟩

theorem Stuck.leads (hs : Stuck (e.apply h v) x) (hl : e.Leads h v v') : Stuck v' x := by
  rcases hl.cases with rfl | ⟨_, -, hr⟩
  · exact hs
  · exact hs.resched hr

theorem heirOf_of_heir {target : Fin MAX_PARTITIONS} {i : Fin 8} (hh : v.Heir target i x) :
    heirOf v i = some x ∧ v.Owns target i := by
  obtain ⟨m, w, hm, ho, hl, hw⟩ := hh
  refine ⟨?_, m, hm, ho⟩
  rw [heirOf, hm, Option.bind_some, heir, hl, ← hw]
  rfl

theorem state_release_of_not_heir {i : Fin 8} (hx : heirOf v i ≠ some x) :
    (v.release i).state x = v.state x := by
  refine View.release_rule (I := fun u => u.state x = v.state x) rfl (fun _ _ _ => rfl) fun m w hm hl => ?_
  rw [View.state_setState, if_neg]
  · rfl
  · rintro rfl
    refine hx ?_
    rw [heirOf, hm, Option.bind_some, heir, hl]
    rfl

/-- The effect hands a mutex to the task. -/
def Handed (v : View) (e : Effect) (x : TaskId) : Prop :=
  ∃ i, heirOf v i = some x ∧ (e = .release i ∨ ∃ y, e = .kill y ∧ v.Owns y.2 i)

theorem Handed.holds (hh : Handed v e x) (hv : v.BootShape) (hstep : EffectStep h e v v') :
    Holds v' x 0 := by
  obtain ⟨i, hheir, he⟩ := hh
  obtain ⟨-, hholds⟩ := holds_of_handoff hv hstep hheir he
  obtain ⟨m, hm, -⟩ := Option.bind_eq_some_iff.mp hheir
  exact hv.mutexes i m hm ▸ hholds

theorem handed_of_heir {y : TaskId} {i : Fin 8} (hh : v.Heir y.2 i x) : Handed v (.kill y) x := by
  obtain ⟨hheir, howns⟩ := heirOf_of_heir hh
  exact ⟨i, hheir, Or.inr ⟨y, rfl, howns⟩⟩

/-- A task that does not run keeps its state, unless it is the partner of a transfer, terminated, handed a
mutex or woken from its sleep. -/
theorem state_apply_other (haway : x ≠ v.running h) (htransfer : e ≠ .transfer x) (hkill : e ≠ .kill x)
    (hhanded : ¬ Handed v e x) (hsleep : ∀ w, v.state x ≠ some (.blocked w)) :
    (e.apply h v).state x = v.state x := by
  cases e with
  | none => rfl
  | tick now =>
    simp only [Effect.apply, View.wake]
    split
    · cases hst : v.state x with
      | none => rfl
      | some st =>
        cases st with
        | blocked w => exact absurd hst (hsleep w)
        | _ => rfl
    · rfl
  | resched => rfl
  | block st =>
    simp only [Effect.apply]
    rw [View.state_setState, if_neg haway]
  | grant i =>
    simp only [Effect.apply]
    split <;> rfl
  | wait i =>
    simp only [Effect.apply]
    split
    · rfl
    · rw [View.setMutex_state, View.state_setState, if_neg haway]
  | release i => exact state_release_of_not_heir fun hheir => hhanded ⟨i, hheir, Or.inl rfl⟩
  | transfer y =>
    simp only [Effect.apply]
    rw [View.state_setState, if_neg fun hxy => htransfer (by rw [hxy])]
  | kill y =>
    have hstate : ((Effect.kill y).apply h v).state x = (v.setState y .terminated).state x :=
      View.state_recoverAll_of_not_heir (v := v.setState y .terminated)
        fun i hi => hhanded (handed_of_heir hi)
    rw [hstate, View.state_setState, if_neg fun hxy => hkill (by rw [hxy])]

/-- The context switch keeps the states of the tasks that cannot run. -/
theorem state_of_leads {st : TaskState} (hl : e.Leads h v v') (hst : (e.apply h v).state x = some st)
    (hready : st ≠ .ready) (hrun : st ≠ .running) : v'.state x = some st := by
  rcases hl.cases with rfl | ⟨_, -, hr⟩
  · exact hst
  · exact (hr.state_iff hready hrun).mpr hst

/-- The task waits as soon as it has called. -/
theorem waiting_of_wait (hv : v.BootShape) (hstep : EffectStep h (.wait 0) v v') :
    v'.state (v.running h) = some (.blockedOnMutex 0#8) := by
  obtain ⟨⟨m, hm, -⟩, -⟩ := hstep.valid
  obtain ⟨st, hst⟩ := Option.isSome_iff_exists.mp (hv.running h)
  refine state_of_leads hstep.leads ?_ (by simp) (by simp)
  simp only [Effect.apply, hm]
  rw [View.setMutex_state, View.state_setState, if_pos rfl, hst]
  rfl

/-- A terminated task stays terminated, unless a mutex is handed to it. -/
theorem terminated_of_kill (hstep : EffectStep h (.kill x) v v') (hhanded : ¬ Handed v (.kill x) x) :
    v'.state x = some .terminated :=
  state_of_leads hstep.leads
    ((Effect.kill_state_iff hstep.valid).mpr fun i hi => hhanded (handed_of_heir hi)) (by simp) (by simp)

/-- A task that cannot go on stays so until a mutex is handed to it. -/
theorem Stuck.effect (hs : Stuck v x) (hstep : EffectStep h e v v') (haway : x ≠ v.running h) :
    Stuck v' x ∨ Handed v e x := by
  by_cases hhanded : Handed v e x
  · exact Or.inr hhanded
  left
  by_cases hkill : e = .kill x
  · subst hkill
    exact Or.inl (terminated_of_kill hstep hhanded)
  · refine Stuck.leads (hs.congr (state_apply_other haway ?_ hkill hhanded ?_)) hstep.leads
    · rintro rfl
      obtain ⟨st, hst, hw⟩ := hstep.valid
      rcases hs with hs | ⟨b, hs⟩
      · rw [hst, Option.some.injEq] at hs
        exact (hs ▸ hw : WaitsForPartner .terminated)
      · rw [hst, Option.some.injEq] at hs
        exact (hs ▸ hw : WaitsForPartner (.blockedOnMutex b))
    · intro w hw
      rcases hs with hs | ⟨b, hs⟩
      · cases hw.symm.trans hs
      · cases hw.symm.trans hs

end Stuck

/-- The owner of the mutex stays its owner until it unlocks it or is terminated. -/
theorem owner_effect {v v' : View} {h : Hart} {e : Effect} {x : TaskId} (hx : Locker x)
    (hholds : Holds v x 0) (hv : v.BootShape) (hstep : EffectStep h e v v')
    (hrelease : ¬ (e = .release 0 ∧ x = v.running h)) : Stuck v' x ∨ Holds v' x 0 := by
  by_cases hkill : e = .kill x
  · subst hkill
    by_cases hhanded : Handed v (.kill x) x
    · exact Or.inr (hhanded.holds hv hstep)
    · exact Or.inl (Or.inl (terminated_of_kill hstep hhanded))
  · exact Or.inr (hholds.effect hv hstep hx hrelease hkill)

theorem isSome_setMutex {v : View} {i : Fin 8} {m : KernelMutex} (hm : v.mutexes i = some m)
    (m' : KernelMutex) (j : Fin 8) : ((v.setMutex i m').mutexes j).isSome = (v.mutexes j).isSome := by
  rw [View.mutexes_setMutex]
  split
  · rename_i hj
    rw [hj, hm]
    rfl
  · rfl

theorem isSome_mutexes_release (v : View) (i j : Fin 8) :
    ((v.release i).mutexes j).isSome = (v.mutexes j).isSome :=
  View.release_rule (I := fun u => (u.mutexes j).isSome = (v.mutexes j).isSome) rfl
    (fun _ hm _ => isSome_setMutex hm _ j) fun _ _ hm _ => isSome_setMutex hm _ j

theorem isSome_mutexes_apply (h : Hart) (v : View) (e : Effect) (j : Fin 8) :
    ((e.apply h v).mutexes j).isSome = (v.mutexes j).isSome := by
  cases e with
  | grant i =>
    simp only [Effect.apply]
    split
    · rfl
    · exact isSome_setMutex ‹_› _ j
  | wait i =>
    simp only [Effect.apply]
    split
    · rfl
    · rename_i m hm
      exact isSome_setMutex (v := v.setState (v.running h) (.blockedOnMutex (BitVec.ofNat 8 i.val))) hm _ j
  | release i => exact isSome_mutexes_release v i j
  | kill x =>
    exact View.recoverAll_induction (I := fun u => (u.mutexes j).isSome = (v.mutexes j).isSome)
      (fun u i hu _ => (isSome_mutexes_release u i j).trans hu) rfl
  | _ => rfl

/-! ## The effect of a step -/

/-- What a trap of the task running on `h` does to the kernel, and where it leaves the programs. -/
inductive Turn (σ : Fleet) (h : Hart) (x : TaskId) : Effect → (TaskId → Point) → Prop where
  | call {c : Call} {p : Point} {e : Effect}
      (hc : (c, p) ∈ (σ.point x).calls σ.sys.kernel.testCounter)
      (hserves : Serves (view σ.sys.kernel) x c e) :
      Turn σ h x e (Function.update σ.point x p)
  | copyFault {c : Call} {p : Point} {y : TaskId}
      (hc : (c, p) ∈ (σ.point x).calls σ.sys.kernel.testCounter)
      (hserves : Serves (view σ.sys.kernel) x c (.transfer y)) :
      Turn σ h x (.kill x) (Function.update σ.point x p)
  | interrupt {e : Effect} (he : (∃ now, e = .tick now) ∨ e = .resched) : Turn σ h x e σ.point
  | fault {e : Effect} (he : e = .none ∨ e = .kill x) (hidle : σ.point x ≠ .idle) : Turn σ h x e σ.point

theorem effect_of_not_ecall {k : Kernel} {h : Hart} {t : Trap} (hecall : t.mcause ≠ ECALL_UMODE) :
    (Interrupt t.mcause ∧ ((∃ now, effect k h t = .tick now) ∨ effect k h t = .resched)) ∨
      (¬ Interrupt t.mcause ∧ (effect k h t = .none ∨ effect k h t = .kill ((view k).running h))) := by
  by_cases hint : Interrupt t.mcause
  · exact Or.inl ⟨hint, effect_of_interrupt hint⟩
  · refine Or.inr ⟨hint, ?_⟩
    rw [Interrupt, not_or] at hint
    rw [effect, if_neg hint.1, if_neg hint.2, if_neg hecall]
    split
    · exact Or.inl rfl
    · exact Or.inr rfl

/-- Every task is at a point of its own program, the running tasks can go on, and a task between its lock
and its unlock owns mutex 0. Task B may be terminated while it runs. -/
structure FleetInv (σ : Fleet) : Prop where
  sys : SysInv σ.sys
  awake : Awake (view σ.sys.kernel)
  present : (σ.sys.kernel.mutexes 0).isSome
  task : ∀ x, (σ.point x).task = (entry x).task
  live : ∀ x, x ≠ taskB → Live (view σ.sys.kernel) x
  inside : ∀ x, (σ.point x).Critical → Stuck (view σ.sys.kernel) x ∨ Holds (view σ.sys.kernel) x 0

section Step
variable {P : Platform} {σ σ' : Fleet} {ev : Event} {h : Hart} {e : Effect} {x y : TaskId}
  {point : TaskId → Point} {s' : System}

theorem FleetInv.task_eq (hinv : FleetInv σ) {c : Call × Point} {testCounter : Word}
    (hc : c ∈ (σ.point x).calls testCounter) : (σ.point x).task = some x := by
  have htask := hinv.task x
  cases hy : (σ.point x).task with
  | some y =>
    rw [hy] at htask
    rw [eq_of_entry_task htask.symm]
  | none =>
    cases hp : σ.point x with
    | idle =>
      rw [hp] at hc
      cases hc
    | _ =>
      rw [hp] at hy
      cases hy

theorem entry_idle (h : Hart) : entry (idleOf h) = .idle := by
  revert h
  decide

theorem FleetInv.idle (hinv : FleetInv σ) (h : Hart) : σ.point (idleOf h) = .idle := by
  have htask := hinv.task (idleOf h)
  rw [entry_idle] at htask
  cases hp : σ.point (idleOf h) with
  | idle => rfl
  | _ =>
    rw [hp] at htask
    cases htask

theorem FleetInv.serves (hinv : FleetInv σ) {t : Trap} {m : Memory} {c : Call} {p : Point}
    (hecall : t.mcause = ECALL_UMODE) (hmade : c.Made t (σ.sys.kernel.setMem m))
    (hc : (c, p) ∈ (σ.point ((view σ.sys.kernel).running h)).calls σ.sys.kernel.testCounter) :
    Serves (view σ.sys.kernel) ((view σ.sys.kernel).running h) c (effect (σ.sys.kernel.setMem m) h t) :=
  serves_of_made (k := σ.sys.kernel.setMem m) hinv.sys.shape hinv.present hecall hmade
    (entitled_of_call (hinv.task_eq hc) _ hc)

theorem FleetInv.turn (hinv : FleetInv σ) (hmoves : Moves σ ev point) (hstep : Step P σ.sys ev s')
    (hev : ev.effect σ.sys.kernel = some (h, e)) :
    Turn σ h ((view σ.sys.kernel).running h) e point := by
  have hcases := stepKernel_of_step hstep
  generalize s'.kernel = k' at hcases
  cases hcases with
  | @trap h' t m sp k' hok =>
    obtain ⟨rfl, rfl⟩ := Prod.mk.inj (Option.some.inj hev)
    cases hmoves with
    | call hfirst hecall hmade hc =>
      obtain ⟨rfl, rfl, rfl⟩ : _ ∧ _ ∧ _ := by simpa using (Option.some.inj hfirst)
      exact .call hc (hinv.serves hecall hmade hc)
    | other hfirst hecall hidle =>
      obtain ⟨rfl, rfl, rfl⟩ : _ ∧ _ ∧ _ := by simpa using (Option.some.inj hfirst)
      rcases effect_of_not_ecall (k := σ.sys.kernel.setMem m) (h := h') hecall with
        ⟨-, he⟩ | ⟨hno, he⟩
      · exact .interrupt he
      · exact .fault he fun hp => hno (hidle hp)
    | pass hfirst => cases hfirst
    | restart hfirst => cases hfirst
  | @nested h' t t' m m' kf k' sp hf hok =>
    obtain ⟨rfl, rfl⟩ := Prod.mk.inj (Option.some.inj hev)
    obtain ⟨y, hy⟩ := transfer_of_copyFault (hinv.sys.sound m) hf
    cases hmoves with
    | call hfirst hecall hmade hc =>
      obtain ⟨rfl, rfl, rfl⟩ : _ ∧ _ ∧ _ := by simpa using (Option.some.inj hfirst)
      exact .copyFault hc (hy ▸ hinv.serves hecall hmade hc)
    | other hfirst hecall hidle =>
      obtain ⟨rfl, rfl, rfl⟩ : _ ∧ _ ∧ _ := by simpa using (Option.some.inj hfirst)
      have hcases := effect_of_not_ecall (k := σ.sys.kernel.setMem m) (h := h') hecall
      rw [hy] at hcases
      rcases hcases with ⟨-, ⟨_, he⟩ | he⟩ | ⟨-, he | he⟩ <;> cases he
    | pass hfirst => cases hfirst
    | restart hfirst => cases hfirst
  | _ => cases hev

/-- `sys_terminate_task` is a call of `watchdog_task`, which terminates the tasks it monitors. -/
theorem terminate_of_call {p q : Point} {prio testCounter : Word} {y : TaskId}
    (hc : (.sysTerminateTask prio, q) ∈ p.calls testCounter) (hy : registered prio = some y) :
    p.task = some watchdog ∧ y ∈ monitored := by
  have hprio : p = .watchdogCheck ∧ (prio = 1 ∨ prio = 2 ∨ prio = 3 ∨ prio = 4) := by
    cases p with
    | watchdogCheck =>
      simp only [Point.calls, List.mem_cons, Prod.mk.injEq, Call.sysTerminateTask.injEq, List.not_mem_nil,
        or_false] at hc
      exact ⟨rfl, hc.imp And.left (Or.imp And.left (Or.imp And.left And.left))⟩
    | bCheckin loops =>
      simp only [Point.calls] at hc
      split at hc <;> simp at hc
    | cStart =>
      simp only [Point.calls] at hc
      split at hc
      · simp at hc
      · split at hc <;> simp at hc
    | _ => simp [Point.calls] at hc
  obtain ⟨rfl, hprio⟩ := hprio
  refine ⟨rfl, ?_⟩
  rcases hprio with rfl | rfl | rfl | rfl
  all_goals
    rw [← Option.some.inj hy]
    decide

/-- The task an effect terminates: the running one, or one the Watchdog monitors. -/
theorem Turn.kill (hturn : Turn σ h x (.kill y) point) (hinv : FleetInv σ) :
    y = x ∨ (x = watchdog ∧ y ∈ monitored) := by
  cases hturn with
  | @call c p _ hc hserves =>
    cases hserves with
    | terminate hy =>
      obtain ⟨htask, hmem⟩ := terminate_of_call hc hy
      exact Or.inr ⟨Option.some.inj ((hinv.task_eq hc).symm.trans htask), hmem⟩
  | copyFault => exact Or.inl rfl
  | interrupt he =>
    rcases he with ⟨_, he⟩ | he <;> cases he
  | fault he =>
    rcases he with he | he
    · cases he
    · exact Or.inl (Effect.kill.inj he)

theorem Turn.sparesIdle (hturn : Turn σ h ((view σ.sys.kernel).running h) e point) (hinv : FleetInv σ) :
    SparesIdle h (view σ.sys.kernel) e := by
  have hcalls : ∀ c : Call × Point, (view σ.sys.kernel).running h = idleOf h →
      c ∉ (σ.point ((view σ.sys.kernel).running h)).calls σ.sys.kernel.testCounter := by
    intro c hrun hc
    rw [hrun, hinv.idle h] at hc
    cases hc
  refine ⟨fun hrun => ?_, fun y hy hidx => ?_⟩
  · cases hturn with
    | call hc => exact absurd hc (hcalls _ hrun)
    | copyFault hc => exact absurd hc (hcalls _ hrun)
    | interrupt he => exact he
    | fault _ hidle => exact absurd (hrun ▸ hinv.idle h) hidle
  · subst hy
    rcases hturn.kill hinv with rfl | ⟨-, hmem⟩
    · have hrun : (view σ.sys.kernel).running h = idleOf h := Prod.ext rfl hidx
      cases hturn with
      | call hc => exact hcalls _ hrun hc
      | copyFault hc => exact hcalls _ hrun hc
      | interrupt he => rcases he with ⟨_, he⟩ | he <;> cases he
      | fault _ hidle => exact hidle (hrun ▸ hinv.idle h)
    · revert hidx
      fin_cases hmem <;> decide

/-- A running task, other than Task B, is terminated by its own core only. -/
theorem Turn.spares (hturn : Turn σ h ((view σ.sys.kernel).running h) (.kill x) point) (hinv : FleetInv σ)
    (hguard : x = taskC → x.1 = h ∨ (view σ.sys.kernel).running x.1 ≠ x) (hx : x ≠ taskB) :
    x = (view σ.sys.kernel).running h ∨ (view σ.sys.kernel).running x.1 ≠ x := by
  rcases hturn.kill hinv with hxr | ⟨hrun, hmem⟩
  · exact Or.inl hxr
  · refine Or.inr ?_
    have hh : h = 0 := congrArg Prod.fst hrun
    subst hh
    simp only [monitored, List.mem_cons, List.not_mem_nil, or_false] at hmem
    rcases hmem with rfl | rfl | rfl | rfl
    · rw [show taskA.1 = 0 from rfl, hrun]
      decide
    · exact absurd rfl hx
    · rcases hguard rfl with hh | hno
      · cases hh
      · exact hno
    · rw [show hsmTask.1 = 0 from rfl, hrun]
      decide

theorem critical_of_call {q : Point} {testCounter : Word} : ∀ c ∈ q.calls testCounter, c.2.Critical →
    c.1 = .lockMutex 0 ∨ (q.Critical ∧ c.1 = .yieldNow) := by
  cases q with
  | bRecv loops => simp [Point.calls, Point.Critical]
  | bCheckin loops =>
    simp only [Point.calls]
    split <;> simp [Point.Critical]
  | bYield loops => simp [Point.calls, Point.Critical]
  | cStart =>
    simp only [Point.calls]
    split
    · simp
    · split <;> simp [Point.Critical]
  | _ =>
    simp only [Point.calls]
    decide

theorem entry_not_critical (x : TaskId) : ¬ (entry x).Critical := by
  unfold entry
  split
  · decide
  split
  · decide
  split
  · decide
  split
  · decide
  split <;> decide

theorem pass_not_critical {p q : Point} (hp : q.pass ev = some p) : ¬ p.Critical := by
  unfold Point.pass at hp
  split at hp
  · rw [← Option.some.inj hp]
    decide
  · rw [← Option.some.inj hp]
    decide
  · rw [← Option.some.inj hp]
    decide
  · rw [← Option.some.inj hp]
    decide
  · rw [← Option.some.inj hp]
    decide
  · cases hp

theorem FleetInv.locker (hinv : FleetInv σ) (hx : (σ.point x).Critical) : Locker x := by
  have htask := hinv.task x
  rcases hx with hp | hp | hp
  · rw [hp] at htask
    exact Or.inl (eq_of_entry_task htask.symm)
  · rw [hp] at htask
    exact Or.inr (eq_of_entry_task htask.symm)
  · rw [hp] at htask
    exact Or.inr (eq_of_entry_task htask.symm)

/-- A running task between its lock and its unlock owns the mutex. -/
theorem FleetInv.holds (hinv : FleetInv σ) (hx : (σ.point x).Critical)
    (hrun : (view σ.sys.kernel).running x.1 = x) : Holds (view σ.sys.kernel) x 0 := by
  have hb : x ≠ taskB := by
    rintro rfl
    rcases hinv.locker hx with h | h <;> cases h
  exact (hinv.inside x hx).resolve_left (not_stuck_of_runnable (hinv.live x hb hrun))

theorem Turn.point_of_ne (hturn : Turn σ h y e point) (hne : x ≠ y) : point x = σ.point x := by
  cases hturn with
  | call => exact Function.update_of_ne hne _ _
  | copyFault => exact Function.update_of_ne hne _ _
  | interrupt => rfl
  | fault => rfl

/-- A task that unlocks is past its unlock afterwards. -/
theorem Turn.inside {v' : View} (hturn : Turn σ h ((view σ.sys.kernel).running h) e point)
    (hinv : FleetInv σ) (hstep : EffectStep h e (view σ.sys.kernel) v') (hx : (point x).Critical) :
    Stuck v' x ∨ Holds v' x 0 := by
  have hshape := hinv.sys.shape
  by_cases hrun : x = (view σ.sys.kernel).running h
  · subst hrun
    have howner : (σ.point ((view σ.sys.kernel).running h)).Critical → e ≠ .release 0 →
        Stuck v' ((view σ.sys.kernel).running h) ∨ Holds v' ((view σ.sys.kernel).running h) 0 :=
      fun hp hrelease => owner_effect (hinv.locker hp) (hinv.holds hp rfl) hshape hstep
        fun hno => hrelease hno.1
    cases hturn with
    | @call c p _ hc hserves =>
      rw [Function.update_self] at hx
      rcases critical_of_call _ hc hx with rfl | ⟨hp, rfl⟩
      · cases hserves with
        | grant => exact Or.inr (holds_of_grant hshape hstep).2
        | wait => exact Or.inl (Or.inr ⟨0#8, waiting_of_wait hshape hstep⟩)
      · cases hserves with
        | yieldNow => exact howner hp Effect.noConfusion
    | @copyFault c p y hc hserves =>
      rw [Function.update_self] at hx
      rcases critical_of_call _ hc hx with rfl | ⟨-, rfl⟩
      · cases hserves
      · cases hserves
    | interrupt he =>
      refine howner hx ?_
      rcases he with ⟨_, rfl⟩ | rfl <;> exact Effect.noConfusion
    | fault he =>
      refine howner hx ?_
      rcases he with rfl | rfl <;> exact Effect.noConfusion
  · rw [hturn.point_of_ne hrun] at hx
    rcases hinv.inside x hx with hstuck | hholds
    · exact (hstuck.effect hstep hrun).imp id fun hhanded => hhanded.holds hshape hstep
    · exact owner_effect (hinv.locker hx) hholds hshape hstep fun hno => hrun hno.2

theorem Turn.task (hturn : Turn σ h y e point) (hinv : FleetInv σ) (x : TaskId) :
    (point x).task = (entry x).task := by
  have hupdate : ∀ c p, (c, p) ∈ (σ.point y).calls σ.sys.kernel.testCounter →
      (Function.update σ.point y p x).task = (entry x).task := by
    intro c p hc
    by_cases hxy : x = y
    · rw [hxy, Function.update_self]
      exact (Point.task_of_call _ hc).trans (hinv.task y)
    · rw [Function.update_of_ne hxy]
      exact hinv.task x
  cases hturn with
  | call hc => exact hupdate _ _ hc
  | copyFault hc => exact hupdate _ _ hc
  | interrupt => exact hinv.task x
  | fault => exact hinv.task x

theorem pass_task {p q : Point} (hp : q.pass ev = some p) : p.task = q.task := by
  unfold Point.pass at hp
  split at hp
  · exact (Option.some.inj hp) ▸ rfl
  · exact (Option.some.inj hp) ▸ rfl
  · exact (Option.some.inj hp) ▸ rfl
  · exact (Option.some.inj hp) ▸ rfl
  · exact (Option.some.inj hp) ▸ rfl
  · cases hp

/-- A step of the Watchdog moves it on, and the task it restarts to its start. -/
theorem Moves.of_watchdog (hmoves : Moves σ ev point) (hev : ev.effect σ.sys.kernel = none) :
    ∃ p, (σ.point watchdog).pass ev = some p ∧ ∀ x,
      (ev.restartsNow σ.sys.kernel = some x ∧ point x = entry x) ∨
        (ev.restartsNow σ.sys.kernel ≠ some x ∧ ((x = watchdog ∧ point x = p) ∨ point x = σ.point x)) := by
  have hfirst : firstTrap ev = none := by
    cases ev <;> first | rfl | cases hev
  have hown : ∀ p x, (x = watchdog ∧ Function.update σ.point watchdog p x = p) ∨
      Function.update σ.point watchdog p x = σ.point x := by
    intro p x
    by_cases hx : x = watchdog
    · exact Or.inl ⟨hx, by rw [hx, Function.update_self]⟩
    · exact Or.inr (Function.update_of_ne hx _ _)
  cases hmoves with
  | call h => cases hfirst.symm.trans h
  | other h => cases hfirst.symm.trans h
  | @pass p _ hp hnow =>
    refine ⟨p, hp, fun x => Or.inr ⟨?_, hown p x⟩⟩
    rw [hnow]
    exact fun hx => by cases hx
  | @restart p y _ hp hnow =>
    refine ⟨p, hp, fun x => ?_⟩
    rw [hnow]
    by_cases hxy : x = y
    · rw [hxy, Function.update_self]
      exact Or.inl ⟨rfl, rfl⟩
    · rw [Function.update_of_ne hxy]
      exact Or.inr ⟨fun hyx => hxy (Option.some.inj hyx).symm, hown p x⟩

theorem FleetInv.effect (hinv : FleetInv σ) (hguard : SparesRunning σ ev) (hsys : SysInv σ'.sys)
    (hawake : Awake (view σ'.sys.kernel)) (hev : ev.effect σ.sys.kernel = some (h, e))
    (hturn : Turn σ h ((view σ.sys.kernel).running h) e σ'.point)
    (hstep : EffectStep h e (view σ.sys.kernel) (view σ'.sys.kernel)) : FleetInv σ' where
  sys := hsys
  awake := hawake
  present := by
    show ((view σ'.sys.kernel).mutexes 0).isSome
    rw [hstep.leads.mutexes, isSome_mutexes_apply]
    exact hinv.present
  task := fun x => hturn.task hinv x
  live := fun x hx => by
    refine (hinv.live x hx).effect hinv.sys.shape hinv.awake (hturn.sparesIdle hinv) hstep fun he => ?_
    subst he
    unfold SparesRunning at hguard
    rw [hev] at hguard
    exact hturn.spares hinv hguard hx
  inside := fun x hx => hturn.inside hinv hstep hx

theorem FleetInv.pass (hinv : FleetInv σ) (hsys : SysInv σ'.sys)
    (hawake : Awake (view σ'.sys.kernel)) (hev : ev.effect σ.sys.kernel = none)
    (hmoves : Moves σ ev σ'.point) (hview : StepView σ.sys.kernel ev (view σ'.sys.kernel)) :
    FleetInv σ' := by
  obtain ⟨p, hpass, hpoints⟩ := hmoves.of_watchdog hev
  obtain ⟨hmutexes, hstate, hready⟩ := hview.keeps hev
  have hrunning : ∀ h, (view σ'.sys.kernel).running h = (view σ.sys.kernel).running h := fun h => by
    rw [View.running, hview.current hev]
    rfl
  have hlive : ∀ x, Live (view σ.sys.kernel) x → Live (view σ'.sys.kernel) x := by
    intro x hx hrun
    by_cases hnow : ev.restartsNow σ.sys.kernel = some x
    · exact Or.inr (hready x hnow)
    · rw [hstate x hnow]
      exact hx ((hrunning x.1).symm.trans hrun)
  refine ⟨hsys, hawake, ?_, fun x => ?_, fun x hx => hlive x (hinv.live x hx), fun x hx => ?_⟩
  · show ((view σ'.sys.kernel).mutexes 0).isSome
    rw [hmutexes]
    exact hinv.present
  · rcases hpoints x with ⟨-, hx⟩ | ⟨-, ⟨rfl, hx⟩ | hx⟩
    · rw [hx]
    · rw [hx, pass_task hpass]
      exact hinv.task watchdog
    · rw [hx]
      exact hinv.task x
  · rcases hpoints x with ⟨-, hp⟩ | ⟨hno, ⟨rfl, hp⟩ | hp⟩
    · exact absurd (hp ▸ hx) (entry_not_critical x)
    · exact absurd (hp ▸ hx) (pass_not_critical hpass)
    · rcases hinv.inside x (hp ▸ hx) with hstuck | hholds
      · exact Or.inl (hstuck.congr (hstate x hno))
      · exact Or.inr (hholds.congr hmutexes)

theorem fleetInv_step (σ : Fleet) (ev : Event) (σ' : Fleet) (hinv : FleetInv σ)
    (hstep : Guarded (FleetStep P) SparesRunning σ ev σ') : FleetInv σ' := by
  obtain ⟨hstep, hguard⟩ := hstep
  obtain ⟨hmoves, hsys⟩ := hstep.cases
  have hview := (step_cases hinv.sys hsys).1
  have hsys' : SysInv σ'.sys := sysInv_step _ _ _ hinv.sys hsys
  have hawake : Awake (view σ'.sys.kernel) := awake_step hinv.sys.shape hinv.awake
    (fun h e hev => (hinv.turn hmoves hsys hev).sparesIdle hinv) hview
  cases hev : ev.effect σ.sys.kernel with
  | none => exact hinv.pass hsys' hawake hev hmoves hview
  | some he =>
    exact hinv.effect hguard hsys' hawake hev (hinv.turn hmoves hsys hev) (effectStep_of_view hview hev)

end Step

theorem fleetInv_initial {P : Platform} {σ : Fleet} (hσ : FleetInitial P σ) : FleetInv σ := by
  obtain ⟨hs, hpoint⟩ := hσ
  have hview := (initial_view hs).1
  refine ⟨sysInv_initial hs, hview ▸ awake_boot, ?_, fun x => by rw [hpoint], fun x _ => ?_, fun x hx => ?_⟩
  · show ((view σ.sys.kernel).mutexes 0).isSome
    rw [hview]
    rfl
  · rw [hview]
    intro hrun
    obtain ⟨st, hst⟩ := Option.isSome_iff_exists.mp (bootView_shape.running x.1)
    rw [hrun] at hst
    obtain ⟨_, -, hboot⟩ := Option.map_eq_some_iff.mp hst
    show Runnable (bootView.state x)
    rw [hst, ← hboot]
    split
    · exact Or.inl rfl
    · exact Or.inr rfl
  · rw [hpoint] at hx
    exact absurd hx (entry_not_critical x)

theorem fleetInv_run {P : Platform} {σ0 σ : Fleet} {es : List Event} (hσ0 : FleetInitial P σ0)
    (hrun : Run (Guarded (FleetStep P) SparesRunning) σ0 es σ) : FleetInv σ :=
  hrun.invariant fleetInv_step (fleetInv_initial hσ0)

/-! ## Panics -/

section Panics
variable {P : Platform} {σ : Fleet} {h : Hart} {t : Trap} {m : Memory}

/-- `unlock_mutex` is called between lock and unlock only. -/
theorem critical_of_unlock {q : Point} {testCounter : Word} : ∀ c ∈ q.calls testCounter,
    ∀ idx, c.1 = .unlockMutex idx → q.Critical := by
  cases q with
  | bRecv loops => simp [Point.calls]
  | bCheckin loops =>
    simp only [Point.calls]
    split <;> simp
  | bYield loops => simp [Point.calls]
  | cStart =>
    simp only [Point.calls]
    split
    · simp
    · split <;> simp
  | _ => simp [Point.calls, Point.Critical]

/-- The programs unlock a mutex as its owner. -/
theorem FleetInv.unlockOwned (hinv : FleetInv σ) (hprog : (σ.afterTrap h t m).isSome) :
    UnlockOwned (σ.sys.kernel.setMem m) h t := by
  obtain ⟨point, hpoint⟩ := Option.isSome_iff_exists.mp hprog
  rw [unlockOwned_iff (hinv.sys.sound m)]
  intro i he
  have hmoves : Moves σ (.trap h t m) point := moves_of_afterTrap rfl hpoint
  cases hmoves with
  | call hfirst hecall hmade hc =>
    obtain ⟨rfl, rfl, rfl⟩ : _ ∧ _ ∧ _ := by simpa using (Option.some.inj hfirst)
    have hserves := hinv.serves hecall hmade hc
    rw [he] at hserves
    cases hserves with
    | unlock idx =>
      obtain ⟨mu, hmu, -, ho⟩ := hinv.holds (critical_of_unlock _ hc idx rfl) rfl
      exact ⟨mu, hmu, ho⟩
  | other hfirst hecall =>
    obtain ⟨rfl, rfl, rfl⟩ : _ ∧ _ ∧ _ := by simpa using (Option.some.inj hfirst)
    exact absurd (effect_eq_release.mp he).1 hecall
  | pass hfirst => cases hfirst
  | restart hfirst => cases hfirst

end Panics

/-- The programs never stop a core. In every run of them in which the Watchdog does not terminate Task C
while core 1 runs it, the handler of their next trap does not panic, and neither does the trap of a copy
that faults; it returns unless it has to wait for the Watchdog's pass or its copy faults. -/
theorem tasks_never_panic (P : Platform) (σ0 σ : Fleet) (es : List Event) (hσ0 : FleetInitial P σ0)
    (hrun : Run (Guarded (FleetStep P) SparesRunning) σ0 es σ) (h : Hart) (t : Trap) (m : Memory)
    (hcause : HandledCause t.mcause) (hprog : (σ.afterTrap h t m).isSome) :
    ¬ Panics (trapHandler P h t (σ.sys.kernel.setMem m)) ∧
      (Completes P h t (σ.sys.kernel.setMem m) ↔ LockAvailable (σ.sys.kernel.setMem m) h t ∧
        PlanPermitted P (σ.sys.kernel.setMem m) h (transferPlan (σ.sys.kernel.setMem m) h t)) ∧
      ∀ t' m' kf, trapHandler P h t (σ.sys.kernel.setMem m) = .error (.copyFault t'.mcause kf) →
        ¬ Panics (trapHandler P h t' (kf.setMem m')) := by
  have hinv := fleetInv_run hσ0 hrun
  have hsound := hinv.sys.sound m
  have howned := hinv.unlockOwned hprog
  obtain ⟨hcompletes, hpanics⟩ := completes_iff (P := P) hsound (h := h) (t := t)
  refine ⟨?_, ?_, fun t' m' kf hf => ?_⟩
  · rw [hpanics]
    rintro (hno | ⟨-, hno⟩)
    · exact hno hcause
    · exact hno howned
  · rw [hcompletes]
    exact ⟨fun ⟨_, _, hlock, hplan⟩ => ⟨hlock, hplan⟩, fun ⟨hlock, hplan⟩ => ⟨hcause, howned, hlock, hplan⟩⟩
  · obtain ⟨hfault, hview, hmutex, -, -⟩ := of_copyFault hsound hf
    have hkf : Sound (kf.setMem m') := hsound.congr hview (hmutex ▸ hsound.mutexLock)
    rw [(completes_iff (P := P) hkf).2]
    rintro (hno | ⟨-, hno⟩)
    · refine hno ?_
      rcases hfault with hc | hc <;> rw [hc] <;> decide
    · refine hno fun hecall => ?_
      rcases hfault with hc | hc <;> rw [hc] at hecall <;> cases hecall

def bootFleet : Fleet := ⟨bootSystem, entry⟩

theorem bootFleet_initial : FleetInitial packedPlatform bootFleet := ⟨bootSystem_initial, rfl⟩

theorem fleetRun_of_eval {α : Type} (P : Platform) (σ : Fleet) (es : List Event) (f : Fleet → α) (a : α)
    (heval : (es.foldlM (fun σ ev => if SparesRunning σ ev then σ.next P ev else none) σ).map f = some a) :
    ∃ σ', Run (Guarded (FleetStep P) SparesRunning) σ es σ' ∧ f σ' = a := by
  obtain ⟨σ', hσ', hf⟩ := Option.map_eq_some_iff.mp heval
  exact ⟨σ', Run.of_foldlM_guarded SparesRunning hσ', hf⟩

def timerTrap (h : Hart) : Event := .trap h ⟨TIMER_INTERRUPT, 0x3FC81800, 0⟩ fun _ => 0

/-- Task C locks, Task A waits, and Task C comes back from its yield when the idle task has used up its
time. -/
def contendedTasks : List Event :=
  [syscall 1 7 0 0 8, syscall 1 3 0 0 0, syscall 0 2 100 0 0, syscall 0 5 0 0 0, syscall 0 3 0 0 0,
    syscall 1 1 0 0 0] ++ List.replicate 100 (timerTrap 1)

/-- Task C unlocks the mutex that Task A waits for. -/
theorem tasks_never_panic_unlock : ∃ σ,
    Run (Guarded (FleetStep packedPlatform) SparesRunning) bootFleet contendedTasks σ ∧
      σ.point taskC = .cUnlock ∧ (view σ.sys.kernel).state taskA = some (.blockedOnMutex 0) ∧
      ¬ Panics (trapHandler packedPlatform 1 ⟨ECALL_UMODE, 0x3FC82400, 0⟩
        (σ.sys.kernel.setMem (syscallFrame 0x3FC82400 4 0 0 0))) := by
  obtain ⟨σ, hrun, heval⟩ := fleetRun_of_eval packedPlatform bootFleet contendedTasks
    (fun σ => (σ.point taskC, (view σ.sys.kernel).state taskA,
      (σ.afterTrap 1 ⟨ECALL_UMODE, 0x3FC82400, 0⟩ (syscallFrame 0x3FC82400 4 0 0 0)).isSome))
    (.cUnlock, some (.blockedOnMutex 0), true) (by decide +kernel)
  obtain ⟨hc, heval⟩ := Prod.mk.inj heval
  obtain ⟨ha, hprog⟩ := Prod.mk.inj heval
  exact ⟨σ, hrun, hc, ha, (tasks_never_panic packedPlatform bootFleet σ _ bootFleet_initial hrun 1 _ _
    (by decide) hprog).1⟩

/-! ## Calls -/

/-- Every call of the programs is granted: in every run of them, the next trap of a task that is an
`ecall` is one of its calls and has the effect of that call on the task's own resource. -/
theorem tasks_never_refused (P : Platform) (σ0 σ : Fleet) (es : List Event) (hσ0 : FleetInitial P σ0)
    (hrun : Run (Guarded (FleetStep P) SparesRunning) σ0 es σ) (h : Hart) (t : Trap) (m : Memory)
    (hecall : t.mcause = ECALL_UMODE) (hprog : (σ.afterTrap h t m).isSome) :
    ∃ c p, (c, p) ∈ (σ.point ((view σ.sys.kernel).running h)).calls σ.sys.kernel.testCounter ∧
      c.Made t (σ.sys.kernel.setMem m) ∧
      Serves (view σ.sys.kernel) ((view σ.sys.kernel).running h) c (effect (σ.sys.kernel.setMem m) h t) := by
  have hinv := fleetInv_run hσ0 hrun
  obtain ⟨point, hpoint⟩ := Option.isSome_iff_exists.mp hprog
  have hmoves : Moves σ (.trap h t m) point := moves_of_afterTrap rfl hpoint
  cases hmoves with
  | call hfirst _ hmade hc =>
    obtain ⟨rfl, rfl, rfl⟩ : _ ∧ _ ∧ _ := by simpa using (Option.some.inj hfirst)
    exact ⟨_, _, hc, hmade, hinv.serves hecall hmade hc⟩
  | other hfirst hno =>
    obtain ⟨rfl, rfl, rfl⟩ : _ ∧ _ ∧ _ := by simpa using (Option.some.inj hfirst)
    exact absurd hecall hno
  | pass hfirst => cases hfirst
  | restart hfirst => cases hfirst

/-- The first `lock_mutex` of Task A. -/
theorem tasks_never_refused_lock : ∃ σ,
    Run (Guarded (FleetStep packedPlatform) SparesRunning) bootFleet
      [syscall 0 2 100 0 0, syscall 0 5 0 0 0] σ ∧
      (view σ.sys.kernel).running 0 = taskA ∧
      ∃ c p, (c, p) ∈ (σ.point ((view σ.sys.kernel).running 0)).calls σ.sys.kernel.testCounter ∧
        c.Made ⟨ECALL_UMODE, 0x3FC82400, 0⟩ (σ.sys.kernel.setMem (syscallFrame 0x3FC82400 3 0 0 0)) ∧
        Serves (view σ.sys.kernel) ((view σ.sys.kernel).running 0) c (effect (σ.sys.kernel.setMem
          (syscallFrame 0x3FC82400 3 0 0 0)) 0 ⟨ECALL_UMODE, 0x3FC82400, 0⟩) := by
  obtain ⟨σ, hrun, heval⟩ := fleetRun_of_eval packedPlatform bootFleet
    [syscall 0 2 100 0 0, syscall 0 5 0 0 0]
    (fun σ => ((view σ.sys.kernel).running 0,
      (σ.afterTrap 0 ⟨ECALL_UMODE, 0x3FC82400, 0⟩ (syscallFrame 0x3FC82400 3 0 0 0)).isSome))
    (taskA, true) (by decide +kernel)
  obtain ⟨ha, hprog⟩ := Prod.mk.inj heval
  exact ⟨σ, hrun, ha, tasks_never_refused packedPlatform bootFleet σ _ bootFleet_initial hrun 0 _ _ rfl hprog⟩

/-! ## Mutual exclusion of the programs -/

/-- The task is between its lock and its unlock and can run. -/
def InSection (σ : Fleet) (x : TaskId) : Prop :=
  (σ.point x).Critical ∧ Runnable ((view σ.sys.kernel).state x)

theorem FleetInv.holds_of_inSection {σ : Fleet} {x : TaskId} (hinv : FleetInv σ) (hx : InSection σ x) :
    Locker x ∧ Holds (view σ.sys.kernel) x 0 :=
  ⟨hinv.locker hx.1, (hinv.inside x hx.1).resolve_left (not_stuck_of_runnable hx.2)⟩

/-- In every state of every run of the programs, at most one task is between its lock and its unlock of
mutex 0 and can run, and it is the recorded owner. -/
theorem sections_exclusive (P : Platform) (σ0 σ : Fleet) (es : List Event) (hσ0 : FleetInitial P σ0)
    (hrun : Run (Guarded (FleetStep P) SparesRunning) σ0 es σ) :
    (∀ x, InSection σ x → (view σ.sys.kernel).Owns x.2 0) ∧
      ∀ x y, InSection σ x → InSection σ y → x = y := by
  have hinv := fleetInv_run hσ0 hrun
  refine ⟨fun x hx => ?_, fun x y hx hy => ?_⟩
  · obtain ⟨-, m, hm, -, ho⟩ := hinv.holds_of_inSection hx
    exact ⟨m, hm, ho⟩
  · obtain ⟨hlx, hholdsx⟩ := hinv.holds_of_inSection hx
    obtain ⟨hly, hholdsy⟩ := hinv.holds_of_inSection hy
    exact hholdsx.unique hinv.sys.shape hlx hly hholdsy

/-- Task C is inside, and Task A is past its call but waits. -/
theorem sections_exclusive_contended : ∃ σ,
    Run (Guarded (FleetStep packedPlatform) SparesRunning) bootFleet contendedTasks σ ∧
      (σ.point taskA).Critical ∧ InSection σ taskC ∧ ∀ x, InSection σ x → x = taskC := by
  obtain ⟨σ, hrun, heval⟩ := fleetRun_of_eval packedPlatform bootFleet contendedTasks
    (fun σ => (σ.point taskA, σ.point taskC, (view σ.sys.kernel).state taskC))
    (.aUnlock, .cUnlock, some .running) (by decide +kernel)
  obtain ⟨ha, heval⟩ := Prod.mk.inj heval
  obtain ⟨hc, hst⟩ := Prod.mk.inj heval
  have hin : InSection σ taskC := ⟨by rw [hc]; decide, Or.inl hst⟩
  exact ⟨σ, hrun, by rw [ha]; decide, hin, fun x hx =>
    (sections_exclusive packedPlatform bootFleet σ _ bootFleet_initial hrun).2 x taskC hx hin⟩

end Cerberus.Tasks
