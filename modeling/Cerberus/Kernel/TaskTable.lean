import Cerberus.Kernel.Reachable

/-! # The task tables

What the two task tables keep over every run: at most one task of a hart is `Running`, and every slot
the trap handler unwraps holds a task. -/
namespace Cerberus.Kernel
open Scheduler Sync Memory Transition
set_option autoImplicit false

/-! ## One running task for each hart -/

/-- Every `Running` task is the current one of its hart. -/
def OneRunning (v : View) : Prop := ∀ x, v.state x = some .running → x = v.running x.1

/-- No task starts to run. -/
def NoneStarts (v v' : View) : Prop :=
  v'.current = v.current ∧ ∀ x, v'.state x = some .running → v.state x = some .running

theorem NoneStarts.trans {v1 v2 v3 : View} (h1 : NoneStarts v1 v2) (h2 : NoneStarts v2 v3) :
    NoneStarts v1 v3 := ⟨h2.1.trans h1.1, fun x hx => h1.2 x (h2.2 x hx)⟩

theorem noneStarts_setState {v : View} (x : TaskId) {st : TaskState} (hst : st ≠ .running) :
    NoneStarts v (v.setState x st) :=
  ⟨rfl, fun _ hy => View.state_of_setState hst hy⟩

theorem noneStarts_release (v : View) (i : Fin 8) : NoneStarts v (v.release i) :=
  ⟨(View.SameShape.release v i).current, fun _ hx => View.state_of_release (by simp) hx⟩

theorem noneStarts_wake (v : View) (h : Hart) (now : Word) : NoneStarts v (v.wake h now) :=
  ⟨rfl, fun _ hx => View.state_of_wake (by simp) hx⟩

theorem noneStarts_apply {h : Hart} {v : View} {e : Effect} (hvalid : e.Valid h v) :
    NoneStarts v (e.apply h v) := by
  cases e with
  | none => exact ⟨rfl, fun _ hx => hx⟩
  | tick now => exact noneStarts_wake v h now
  | resched => exact ⟨rfl, fun _ hx => hx⟩
  | block st => exact noneStarts_setState _ fun hst => by subst hst; exact hvalid.elim
  | grant i =>
    obtain ⟨⟨m, hm, -⟩, -⟩ := hvalid
    simp only [Effect.apply, hm]
    exact ⟨rfl, fun _ hx => hx⟩
  | wait i =>
    obtain ⟨⟨m, hm, -⟩, -⟩ := hvalid
    simp only [Effect.apply, hm]
    exact noneStarts_setState (v := v) _ (by simp)
  | release i => exact noneStarts_release v i
  | transfer x => exact noneStarts_setState _ (by simp)
  | kill x =>
    refine View.recoverAll_induction (I := NoneStarts v) ?_ (noneStarts_setState _ (by simp))
    exact fun u i hu _ => hu.trans (noneStarts_release u i)

theorem OneRunning.congr {v v' : View} (hv : OneRunning v) (hs : NoneStarts v v') :
    OneRunning v' := by
  intro x hx
  rw [View.running, hs.1]
  exact hv x (hs.2 x hx)

theorem OneRunning.swap {v : View} (hv : OneRunning v) (h : Hart) (n : Fin MAX_PARTITIONS) :
    OneRunning (v.swap h n) := by
  intro x hx
  rw [View.state_swap] at hx
  by_cases hxn : x = (h, n)
  · subst hxn
    simp [View.running, View.swap]
  · rw [if_neg hxn] at hx
    by_cases hold : x = v.running h ∧ v.state x = some .running
    · rw [if_pos hold] at hx
      cases hx
    · -- a task that runs besides the two is on the other hart
      rw [if_neg hold] at hx
      have hcur := hv x hx
      have hne : x.1 ≠ h := fun hh => hold ⟨hh ▸ hcur, hx⟩
      have hrun : (v.swap h n).running x.1 = v.running x.1 := by
        simp [View.running, View.swap, hne]
      exact hcur.trans hrun.symm

theorem OneRunning.step {s : System} {ev : Event} {v' : View} (hv : OneRunning (view s.kernel))
    (hstep : StepView s.kernel ev v') : OneRunning v' := by
  cases hstep with
  | effect _ hstep =>
    have happly := hv.congr (noneStarts_apply hstep.valid)
    rcases hstep.leads.cases with rfl | ⟨_, -, ⟨rfl, -⟩ | ⟨n, -, rfl⟩⟩
    · exact happly
    · exact happly
    · exact happly.swap _ n
  | restart _ _ _ hv' =>
    rw [hv']
    exact hv.congr (noneStarts_setState _ (by simp))
  | skip _ _ hv' =>
    rw [hv']
    exact hv

theorem oneRunning_bootView : OneRunning bootView := by
  intro x hx
  obtain ⟨_, -, hst⟩ := Option.map_eq_some_iff.mp hx
  split at hst
  · rename_i hfirst
    rcases hfirst with rfl | rfl <;> rfl
  · cases hst

theorem trap_finds_slots (P : Platform) {k : Kernel} (hk : Sound k) (h : Hart) (t : Trap) :
    trapHandler P h t k ≠ .error .unwrapNone ∧ trapHandler P h t k ≠ .error .indexOutOfBounds := by
  by_cases hc : HandledCause t.mcause
  · have hr := trap_result (P := P) (h := h) hk hc
    generalize trapHandler P h t k = o at hr
    cases hr with
    | runs _ _ hr => cases hr <;> exact ⟨by simp, by simp⟩
    | spins _ _ => exact ⟨by simp, by simp⟩
    | lockFree _ _ _ _ _ _ => exact ⟨by simp, by simp⟩
  · rw [trap_unhandled hc]
    exact ⟨by simp, by simp⟩

/-- The trap that a copy fault raises finds its slots too. -/
theorem nested_finds_slots (P : Platform) {k : Kernel} (hk : Sound k) {h : Hart} {t : Trap}
    {cause : Word} {kf : Kernel} (hf : trapHandler P h t k = .error (.copyFault cause kf)) (t' : Trap)
    (m' : Memory) : trapHandler P h t' (kf.setMem m') ≠ .error .unwrapNone ∧
      trapHandler P h t' (kf.setMem m') ≠ .error .indexOutOfBounds := by
  obtain ⟨-, hview, hmutex, -, -⟩ := of_copyFault hk hf
  have hkf : Sound (kf.setMem m') := hk.congr hview (hmutex ▸ hk.mutexLock)
  exact trap_finds_slots P hkf h t'

end Cerberus.Kernel
