import Cerberus.Tasks.Safety

/-! # A lost request

The Watchdog restarts HSM Task from its start. The request it was serving is gone, and Task A, which
waits for the reply, is its only client: the two wait for each other. -/
namespace Cerberus.Tasks
open Kernel Scheduler Sync Memory Transition Signing Watchdog Mutex Ipc
set_option autoImplicit false

/-! ## Waiter bits of Task A -/

def NoBit (v : View) (x : TaskId) : Prop := ∀ i m, v.mutexes i = some m → ¬ BitSet.Mem m.waitersBitmap x.2

section Bits
variable {v v' : View} {h : Hart} {e : Effect} {x : TaskId}

theorem NoBit.setMutex (hn : NoBit v x) (i : Fin 8) {m : KernelMutex}
    (hm : ¬ BitSet.Mem m.waitersBitmap x.2) : NoBit (v.setMutex i m) x :=
  fun _ _ hj => View.setMutex_rule hm (fun j mj _ => hn j mj) hj

theorem NoBit.release (hn : NoBit v x) (i : Fin 8) : NoBit (v.release i) x :=
  View.release_rule (I := fun u => NoBit u x) hn (fun m hm _ => hn.setMutex i (hn i m hm))
    fun m _ hm _ => hn.setMutex i fun hw => hn i m hm (BitSet.mem_erase.mp hw).1

/-- Bits are set by the task itself, when it waits. -/
theorem NoBit.apply (hn : NoBit v x) (hv : v.BootShape) (hx : Locker x) (hvalid : e.Valid h v)
    (hwait : ∀ i, e = .wait i → v.running h ≠ x) : NoBit (e.apply h v) x := by
  cases e with
  | grant i =>
    obtain ⟨⟨m, hm, -⟩, -⟩ := hvalid
    simp only [Effect.apply, hm]
    exact hn.setMutex i (hn i m hm)
  | wait i =>
    obtain ⟨⟨m, hm, -⟩, -⟩ := hvalid
    simp only [Effect.apply, hm]
    refine NoBit.setMutex (v := v.setState (v.running h) _) hn i fun hw => ?_
    rcases BitSet.mem_insert.mp hw with hw | hcur
    · exact hn i m hm hw
    · exact hwait i rfl (eq_of_locker_index hv hx (hv.running h) hcur.symm)
  | release i => exact hn.release i
  | kill y =>
    exact View.recoverAll_induction (I := fun u => NoBit u x) (fun u i hu _ => hu.release i) hn
  | _ => exact hn

theorem NoBit.leads (hn : NoBit (e.apply h v) x) (hl : e.Leads h v v') : NoBit v' x := by
  unfold NoBit
  rw [hl.mutexes]
  exact hn

/-- The task a mutex is handed to does not wait for it any more. -/
theorem noBit_of_handed (hh : Handed v e x) (hv : v.BootShape) (hl : e.Leads h v v') : NoBit v' x := by
  obtain ⟨i, hheir, he⟩ := hh
  obtain ⟨m, hm, hl'⟩ := Option.bind_eq_some_iff.mp hheir
  obtain ⟨w, hw, rfl⟩ := Option.map_eq_some_iff.mp hl'
  obtain rfl := hv.mutexes i m hm
  have hreleased : ∀ u : View, u.mutexes = v.mutexes → NoBit (u.release 0) (waiterTask w) := by
    intro u hu j mj hj
    rcases View.release_cases (hu ▸ hm : u.mutexes 0 = some m) with ⟨hno, -⟩ | ⟨w', hw', hr⟩
    · rw [hno] at hw
      cases hw
    · obtain rfl := Option.some.inj (hw.symm.trans hw')
      rw [hr, View.setState_mutexes, View.mutexes_setMutex] at hj
      split at hj
      · rw [← Option.some.inj hj]
        exact fun hmem => (BitSet.mem_erase.mp hmem).2 rfl
      · rename_i hne
        rw [hu] at hj
        exact absurd (hv.mutexes j mj hj) hne
  refine NoBit.leads ?_ hl
  rcases he with rfl | ⟨y, rfl, howns⟩
  · exact hreleased v rfl
  · rw [apply_kill_of_owns hv h howns]
    exact hreleased _ rfl

/-- A task whose bit is set cannot go on. -/
def Queued (v : View) (x : TaskId) : Prop := NoBit v x ∨ Stuck v x

theorem Queued.effect (hq : Queued v x) (hv : v.BootShape) (hx : Locker x) (hlive : Live v x)
    (hstep : EffectStep h e v v') : Queued v' x := by
  rcases hq with hn | hs
  · by_cases hwait : ∃ i, e = .wait i ∧ v.running h = x
    · obtain ⟨i, rfl, rfl⟩ := hwait
      refine Or.inr (Stuck.leads (Or.inr ⟨BitVec.ofNat 8 i.val, ?_⟩) hstep.leads)
      obtain ⟨⟨m, hm, -⟩, -⟩ := hstep.valid
      obtain ⟨st, hst⟩ := Option.isSome_iff_exists.mp (hv.running h)
      simp only [Effect.apply, hm]
      rw [View.setMutex_state, View.state_setState, if_pos rfl, hst]
      rfl
    · exact Or.inl ((hn.apply hv hx hstep.valid fun i he hrun => hwait ⟨i, he, hrun⟩).leads hstep.leads)
  · have haway : x ≠ v.running h := by
      rintro rfl
      exact not_stuck_of_runnable (hlive rfl) hs
    rcases hs.effect hstep haway with hs | hhanded
    · exact Or.inr hs
    · exact Or.inl (noBit_of_handed hhanded hv hstep.leads)

end Bits

/-! ## Client and server -/

theorem sender_of_entitled {x : TaskId} {capIdx : Word} {e : Byte}
    (he : entitled x capIdx sendRight = some e) : (x = taskA ∧ (e = 0 ∨ e = 2)) ∨ (x = hsmTask ∧ e = 3) := by
  obtain ⟨st, hst, hcap⟩ := Option.bind_eq_some_iff.mp he
  split at hcap
  · rename_i hc
    have hall := bootStatic_senders x ⟨capIdx.toNat, hc⟩
    rw [hst, Option.bind_some, hcap] at hall
    exact of_decide_eq_true hall
  · cases hcap

/-- Task A waits for a reply. -/
def AwaitsReply (v : View) : Prop :=
  ∃ bufAddr maxLen, v.state taskA = some (.blockedOnIpcRecv 3 bufAddr maxLen)

/-- HSM Task has not got a request since its start: it has not called `sys_recv` yet, or its call blocks,
or it was terminated. -/
inductive Unasked (σ : Fleet) : Prop where
  | starts (hp : σ.point hsmTask = .hsmCheckin ∨ σ.point hsmTask = .hsmRecv)
      (hst : ∀ st, (view σ.sys.kernel).state hsmTask = some st → ¬ WaitsForPartner st)
  | listens (hp : σ.point hsmTask = .hsmReply) (hst : (view σ.sys.kernel).state hsmTask = some .terminated ∨
      ∃ bufAddr maxLen, (view σ.sys.kernel).state hsmTask = some (.blockedOnIpcRecv 2 bufAddr maxLen))

structure Stranded (σ : Fleet) : Prop where
  client : (AwaitsReply (view σ.sys.kernel) ∧ NoBit (view σ.sys.kernel) taskA ∧
    (view σ.sys.kernel).running 0 ≠ taskA) ∨ Dead (view σ.sys.kernel) taskA
  server : Unasked σ

namespace Stranded
variable {P : Platform} {σ σ' : Fleet} {ev : Event} {h : Hart} {e : Effect} {x y : TaskId}
  {point : TaskId → Point} {s' : System}

theorem away (hs : Stranded σ) : (view σ.sys.kernel).running 0 ≠ taskA := by
  rcases hs.client with ⟨-, -, haway⟩ | hdead
  · exact haway
  · exact hdead.stopped

theorem running_ne (hs : Stranded σ) (h : Hart) : (view σ.sys.kernel).running h ≠ taskA := by
  intro hrun
  obtain rfl : h = 0 := congrArg Prod.fst hrun
  exact hs.away hrun

theorem client_not_sending (hs : Stranded σ) (e : Byte) (a l : Word) :
    (view σ.sys.kernel).state taskA ≠ some (.blockedOnIpcSend e a l) := by
  intro hst
  rcases hs.client with ⟨⟨b, n, hrecv⟩, -⟩ | hdead
  · cases hst.symm.trans hrecv
  · cases hst.symm.trans hdead.terminated

theorem server_not_sending (hs : Stranded σ) (e : Byte) (a l : Word) :
    (view σ.sys.kernel).state hsmTask ≠ some (.blockedOnIpcSend e a l) := by
  intro hst
  cases hs.server with
  | starts _ hno => exact hno _ hst trivial
  | listens _ hst' =>
    rcases hst' with hterm | ⟨b, n, hrecv⟩
    · cases hst.symm.trans hterm
    · cases hst.symm.trans hrecv

/-- When HSM Task runs, it is on its way to `sys_recv`. -/
theorem server_runs (hs : Stranded σ) (hinv : FleetInv σ) (hrun : (view σ.sys.kernel).running 0 = hsmTask) :
    (σ.point hsmTask = .hsmCheckin ∨ σ.point hsmTask = .hsmRecv) ∧
      ∀ st, (view σ.sys.kernel).state hsmTask = some st → ¬ WaitsForPartner st := by
  cases hs.server with
  | starts hp hst => exact ⟨hp, hst⟩
  | listens _ hst =>
    have hlive : Runnable ((view σ.sys.kernel).state hsmTask) := hinv.live hsmTask (by decide) hrun
    rcases hst with hterm | ⟨b, n, hrecv⟩
    · exact absurd (Or.inl hterm) (not_stuck_of_runnable hlive)
    · rw [hrecv] at hlive
      rcases hlive with hl | hl <;> cases hl

/-- The only clients of the endpoints are Task A and HSM Task. -/
theorem no_transfer (hs : Stranded σ) (hinv : FleetInv σ) (hipc : IpcInv (view σ.sys.kernel)) {c : Call}
    {p : Point} (hc : (c, p) ∈ (σ.point ((view σ.sys.kernel).running h)).calls σ.sys.kernel.testCounter) :
    ¬ Serves (view σ.sys.kernel) ((view σ.sys.kernel).running h) c (.transfer y) := by
  intro hserves
  cases hserves with
  | sends he hy =>
    rcases sender_of_entitled he with ⟨hrun, -⟩ | ⟨hrun, -⟩
    · exact hs.running_ne h hrun
    · obtain rfl : h = 0 := congrArg Prod.fst hrun
      rw [hrun] at hc
      rcases (hs.server_runs hinv hrun).1 with hp | hp
      · rw [hp] at hc
        simp [Point.calls] at hc
      · rw [hp] at hc
        simp [Point.calls] at hc
  | receives he hy =>
    rcases senders hinv.sys.shape (hipc.senders _ _ _ _ hy) with ⟨rfl, -⟩ | ⟨rfl, -⟩
    · exact hs.client_not_sending _ _ _ hy
    · exact hs.server_not_sending _ _ _ hy

theorem turn_not_transfer (hs : Stranded σ) (hinv : FleetInv σ) (hipc : IpcInv (view σ.sys.kernel))
    (hturn : Turn σ h ((view σ.sys.kernel).running h) e point) (y : TaskId) : e ≠ .transfer y := by
  rintro rfl
  cases hturn with
  | call hc hserves => exact hs.no_transfer hinv hipc hc hserves
  | interrupt he => rcases he with ⟨_, he⟩ | he <;> cases he
  | fault he => rcases he with he | he <;> cases he

theorem client_effect (hs : Stranded σ) (hinv : FleetInv σ) (htransfer : e ≠ .transfer taskA) {v' : View}
    (hstep : EffectStep h e (view σ.sys.kernel) v') :
    (AwaitsReply v' ∧ NoBit v' taskA ∧ v'.running 0 ≠ taskA) ∨ Dead v' taskA := by
  have hlocker : Locker taskA := Or.inl rfl
  rcases hs.client with ⟨⟨b, n, hst⟩, hbit, haway⟩ | hdead
  · have hrun : taskA ≠ (view σ.sys.kernel).running h := (hs.running_ne h).symm
    have hbit' : NoBit v' taskA :=
      (hbit.apply hinv.sys.shape hlocker hstep.valid fun _ _ he => hrun he.symm).leads hstep.leads
    have hhanded : ¬ Handed (view σ.sys.kernel) e taskA := by
      rintro ⟨i, hheir, -⟩
      obtain ⟨m, hm, hl⟩ := Option.bind_eq_some_iff.mp hheir
      obtain ⟨w, hw, hwx⟩ := Option.map_eq_some_iff.mp hl
      refine hbit i m hm ?_
      rw [← hwx]
      exact BitSet.mem_of_least hw
    have haway' : ∀ st, v'.state taskA = some st → st ≠ .running → v'.running 0 ≠ taskA := by
      intro st hst' hne hrun'
      rcases running_of_leads hstep.leads 0 with hsame | hrunning
      · exact haway (hsame.symm.trans hrun')
      · rw [hrun', hst'] at hrunning
        exact hne (Option.some.inj hrunning)
    by_cases hkill : e = .kill taskA
    · subst hkill
      have hterm := terminated_of_kill hstep hhanded
      exact Or.inr ⟨⟨hterm, hbit'⟩, haway' _ hterm (by simp)⟩
    · have hsame := state_apply_other hrun htransfer hkill hhanded
        (fun w hw => by cases hst.symm.trans hw)
      have hst' := state_of_leads hstep.leads (hsame.trans hst) (by simp) (by simp)
      exact Or.inl ⟨⟨b, n, hst'⟩, hbit', haway' _ hst' (by simp)⟩
  · exact Or.inr (hdead.effect hinv.sys.shape hlocker hstep)

/-- HSM Task waits for no mutex. -/
theorem server_not_handed (hinv : FleetInv σ) : ¬ Handed (view σ.sys.kernel) e hsmTask := by
  rintro ⟨i, hheir, -⟩
  obtain ⟨m, hm, hl⟩ := Option.bind_eq_some_iff.mp hheir
  obtain ⟨w, hw, hwx⟩ := Option.map_eq_some_iff.mp hl
  have hlocker := hinv.sys.shape.waiters i m hm w (BitSet.mem_of_least hw)
  rw [hwx] at hlocker
  rcases hlocker with hl | hl <;> cases hl

theorem server_effect (hs : Stranded σ) (hinv : FleetInv σ) (hipc : IpcInv (view σ.sys.kernel))
    (hview : StepView σ.sys.kernel ev (view σ'.sys.kernel)) (hev : ev.effect σ.sys.kernel = some (h, e))
    (hturn : Turn σ h ((view σ.sys.kernel).running h) e σ'.point)
    (hstep : EffectStep h e (view σ.sys.kernel) (view σ'.sys.kernel)) : Unasked σ' := by
  have hquiet : (∀ st, (view σ.sys.kernel).state hsmTask = some st → ¬ WaitsForPartner st) →
      (∀ st, e = .block st → WaitsForPartner st → (view σ.sys.kernel).running h ≠ hsmTask) →
      ∀ st, (view σ'.sys.kernel).state hsmTask = some st → ¬ WaitsForPartner st := by
    intro hold hblock st hst hw
    rcases waits_of_step hview hw hst with hst' | ⟨h', hev', hrun⟩
    · exact hold st hst' hw
    · obtain ⟨rfl, rfl⟩ := Prod.mk.inj (Option.some.inj (hev.symm.trans hev'))
      exact hblock st rfl hw hrun.symm
  by_cases hrun : (view σ.sys.kernel).running h = hsmTask
  · obtain rfl : h = 0 := congrArg Prod.fst hrun
    obtain ⟨hp, hst⟩ := hs.server_runs hinv hrun
    have hnone := fun c p y (hc : (c, p) ∈ _) =>
      hs.no_transfer (h := 0) (c := c) (p := p) (y := y) hinv hipc hc
    rw [hrun] at hturn hnone
    generalize hpoint : σ'.point = point at hturn
    cases hturn with
    | @call c p _ hc hserves =>
      have hp' : σ'.point hsmTask = p := by rw [hpoint, Function.update_self]
      rcases hp with hp | hp
      · rw [hp] at hc
        obtain ⟨rfl, rfl⟩ : c = .watchdogCheckin ∧ p = .hsmRecv := by simpa [Point.calls] using hc
        cases hserves
        exact .starts (Or.inr hp') (hquiet hst fun st he => by cases he)
      · have hc' := hc
        rw [hp] at hc
        obtain ⟨rfl, rfl⟩ : c = .sysRecv 0 ∧ p = .hsmReply := by simpa [Point.calls] using hc
        cases hserves with
        | receives he hy => exact absurd (.receives he hy) (hnone _ _ _ hc')
        | @recvWaits _ ep a l he =>
          obtain rfl : (2 : Byte) = ep := Option.some.inj ((show entitled hsmTask 0 recvRight = some 2 by
            decide).symm.trans he)
          refine .listens hp' (Or.inr ⟨a, l, state_of_leads hstep.leads ?_ (by simp) (by simp)⟩)
          obtain ⟨st, hst'⟩ := Option.isSome_iff_exists.mp (hinv.sys.shape.running 0)
          simp only [Effect.apply]
          rw [View.state_setState, hrun, if_pos rfl, ← hrun, hst']
          rfl
    | copyFault hc hserves => exact absurd hserves (hnone _ _ _ hc)
    | interrupt he =>
      refine .starts (hpoint ▸ hp) (hquiet hst fun st hb => ?_)
      rcases he with ⟨_, rfl⟩ | rfl <;> cases hb
    | fault he =>
      refine .starts (hpoint ▸ hp) (hquiet hst fun st hb => ?_)
      rcases he with rfl | rfl <;> cases hb
  · have hsame : σ'.point hsmTask = σ.point hsmTask := hturn.point_of_ne (Ne.symm hrun)
    cases hs.server with
    | starts hp hst => exact .starts (hsame.symm ▸ hp) (hquiet hst fun _ _ _ => hrun)
    | listens hp hst =>
      refine .listens (hsame.trans hp) ?_
      by_cases hkill : e = .kill hsmTask
      · subst hkill
        exact Or.inl (terminated_of_kill hstep (server_not_handed hinv))
      · have hsleep : ∀ w, (view σ.sys.kernel).state hsmTask ≠ some (.blocked w) := by
          intro w hw
          rcases hst with hst | ⟨b, n, hst⟩
          · cases hw.symm.trans hst
          · cases hw.symm.trans hst
        have happly := state_apply_other (Ne.symm hrun) (hs.turn_not_transfer hinv hipc hturn hsmTask) hkill
          (server_not_handed hinv) hsleep
        rcases hst with hst | ⟨b, n, hst⟩
        · exact Or.inl (state_of_leads hstep.leads (happly.trans hst) (by simp) (by simp))
        · exact Or.inr ⟨b, n, state_of_leads hstep.leads (happly.trans hst) (by simp) (by simp)⟩

theorem effect (hs : Stranded σ) (hinv : FleetInv σ) (hipc : IpcInv (view σ.sys.kernel))
    (hview : StepView σ.sys.kernel ev (view σ'.sys.kernel)) (hev : ev.effect σ.sys.kernel = some (h, e))
    (hturn : Turn σ h ((view σ.sys.kernel).running h) e σ'.point)
    (hstep : EffectStep h e (view σ.sys.kernel) (view σ'.sys.kernel)) : Stranded σ' where
  client := hs.client_effect hinv (hs.turn_not_transfer hinv hipc hturn taskA) hstep
  server := hs.server_effect hinv hipc hview hev hturn hstep

/-- A step of the Watchdog leaves Task A alone; at best it restarts HSM Task. -/
theorem pass (hs : Stranded σ) (hinv : FleetInv σ) (hev : ev.effect σ.sys.kernel = none)
    (hmoves : Moves σ ev σ'.point) (hview : StepView σ.sys.kernel ev (view σ'.sys.kernel)) :
    Stranded σ' := by
  obtain ⟨p, -, hpoints⟩ := hmoves.of_watchdog hev
  have hno : ev.restartsNow σ.sys.kernel ≠ some taskA := by
    intro hnow
    rcases (restartsNow_cases hnow).1 with ⟨-, he⟩ | ⟨-, he⟩ <;> cases he
  obtain ⟨hmutexes, hstate, hready⟩ := hview.keeps hev
  have hrunning : ∀ h, (view σ'.sys.kernel).running h = (view σ.sys.kernel).running h := fun h => by
    rw [View.running, hview.current hev]
    rfl
  refine ⟨?_, ?_⟩
  · rcases hs.client with ⟨⟨b, n, hst⟩, hbit, haway⟩ | hdead
    · refine Or.inl ⟨⟨b, n, (hstate _ hno).trans hst⟩, ?_, ?_⟩
      · unfold NoBit
        rw [hmutexes]
        exact hbit
      · rw [hrunning]
        exact haway
    · exact Or.inr (hdead.step (Or.inl rfl) rfl hinv.sys hno hview)
  · rcases hpoints hsmTask with ⟨hnow, hp⟩ | ⟨hnot, ⟨hw, -⟩ | hp⟩
    · refine .starts (Or.inl hp) fun st hst hw => ?_
      rw [hready _ hnow, Option.some.injEq] at hst
      exact (hst ▸ hw : WaitsForPartner .ready)
    · cases hw
    · have hst' := hstate _ hnot
      cases hs.server with
      | starts hp' hst => exact .starts (hp.symm ▸ hp') (hst' ▸ hst)
      | listens hp' hst => exact .listens (hp.trans hp') (hst' ▸ hst)

end Stranded

/-! ## Runs -/

section Runs
variable {P : Platform} {σ σ' : Fleet} {ev : Event}

/-- The invariant of every run that the stranding needs. -/
structure ClientInv (σ : Fleet) : Prop where
  fleet : FleetInv σ
  ipc : IpcInv (view σ.sys.kernel)
  queued : Queued (view σ.sys.kernel) taskA

theorem clientInv_initial (hσ : FleetInitial P σ) : ClientInv σ := by
  have hview := (initial_view hσ.1).1
  refine ⟨fleetInv_initial hσ, hview ▸ ipcInv_boot, Or.inl fun i m hm => ?_⟩
  rw [hview] at hm
  rw [(bootView_mutexes hm).2]
  exact BitSet.not_mem_zero _

theorem clientInv_step (σ : Fleet) (ev : Event) (σ' : Fleet) (hinv : ClientInv σ)
    (hstep : Guarded (FleetStep P) SparesRunning σ ev σ') : ClientInv σ' := by
  obtain ⟨hmoves, hsys⟩ := hstep.1.cases
  have hview := (step_cases hinv.fleet.sys hsys).1
  refine ⟨fleetInv_step σ ev σ' hinv.fleet hstep, ipcInv_step _ _ _ hinv.fleet.sys hinv.ipc hview, ?_⟩
  cases hev : ev.effect σ.sys.kernel with
  | some he =>
    exact hinv.queued.effect hinv.fleet.sys.shape (Or.inl rfl) (hinv.fleet.live taskA (by decide))
      (effectStep_of_view hview hev)
  | none =>
    obtain ⟨hmutexes, hstate, -⟩ := hview.keeps hev
    have hno : ev.restartsNow σ.sys.kernel ≠ some taskA := by
      intro hnow
      rcases (restartsNow_cases hnow).1 with ⟨-, he⟩ | ⟨-, he⟩ <;> cases he
    rcases hinv.queued with hn | hs
    · left
      unfold NoBit
      rw [hmutexes]
      exact hn
    · exact Or.inr (hs.congr (hstate taskA hno))

theorem stranded_step (σ : Fleet) (ev : Event) (σ' : Fleet) (hinv : ClientInv σ ∧ Stranded σ)
    (hstep : Guarded (FleetStep P) SparesRunning σ ev σ') : ClientInv σ' ∧ Stranded σ' := by
  refine ⟨clientInv_step σ ev σ' hinv.1 hstep, ?_⟩
  obtain ⟨hmoves, hsys⟩ := hstep.1.cases
  have hview := (step_cases hinv.1.fleet.sys hsys).1
  cases hev : ev.effect σ.sys.kernel with
  | none => exact hinv.2.pass hinv.1.fleet hev hmoves hview
  | some he =>
    exact hinv.2.effect hinv.1.fleet hinv.1.ipc hview hev (hinv.1.fleet.turn hmoves hsys hev)
      (effectStep_of_view hview hev)

/-- The restart of HSM Task strands a client that waits for its reply. -/
theorem stranded_of_restart (hinv : ClientInv σ) (hstep : FleetStep P σ ev σ')
    (hwaits : AwaitsReply (view σ.sys.kernel)) (hnow : ev.restartsNow σ.sys.kernel = some hsmTask) :
    Stranded σ' := by
  obtain ⟨hmoves, hsys⟩ := hstep.cases
  have hview := (step_cases hinv.fleet.sys hsys).1
  obtain ⟨rfl, hterm⟩ : ev = .watchdogRestartHsm ∧ (view σ.sys.kernel).state hsmTask = some .terminated := by
    obtain ⟨hcases, hterm⟩ := restartsNow_cases hnow
    rcases hcases with ⟨-, he⟩ | ⟨he, -⟩
    · cases he
    · exact ⟨he, hterm⟩
  have hv : view σ'.sys.kernel = (view σ.sys.kernel).setState hsmTask .ready := by
    cases hview with
    | effect hev => cases hev
    | restart _ hnow' _ hv =>
      obtain rfl := Option.some.inj (hnow.symm.trans hnow')
      exact hv
    | skip _ hno => cases hnow.symm.trans hno
  have hruns : (view σ.sys.kernel).current 0 = 0 := by
    have hkernel := stepKernel_of_step hsys
    generalize σ'.sys.kernel = k' at hkernel
    cases hkernel with
    | restartHsm hruns => exact hruns
  obtain ⟨b, n, hst⟩ := hwaits
  have hbit : NoBit (view σ.sys.kernel) taskA := by
    refine hinv.queued.resolve_right fun hs => ?_
    rcases hs with hs | ⟨_, hs⟩
    · cases hst.symm.trans hs
    · cases hst.symm.trans hs
  obtain ⟨p, -, hpoints⟩ := hmoves.of_watchdog rfl
  constructor
  · rw [hv]
    refine Or.inl ⟨⟨b, n, ?_⟩, hbit, ?_⟩
    · rw [View.state_setState, if_neg (by decide)]
      exact hst
    · intro hrun
      have hcur : (view σ.sys.kernel).current 0 = 1 := congrArg Prod.snd hrun
      rw [hruns] at hcur
      cases hcur
  · rcases hpoints hsmTask with ⟨-, hp⟩ | ⟨hno, -⟩
    · refine .starts (Or.inl hp) fun st hst' hw => ?_
      rw [hv, View.state_setState, if_pos rfl, hterm, Option.map_some, Option.some.injEq] at hst'
      exact (hst' ▸ hw : WaitsForPartner .ready)
    · exact absurd hnow hno

end Runs

/-- If the Watchdog restarts HSM Task while Task A waits for a reply, then Task A never runs again in any
continuation of the run: it waits until it is terminated, and nothing restarts it. -/
theorem client_stranded (P : Platform) (σ0 σ1 σ2 σ : Fleet) (es fs : List Event) (ev : Event)
    (hσ0 : FleetInitial P σ0) (hrun1 : Run (Guarded (FleetStep P) SparesRunning) σ0 es σ1)
    (hstep : Guarded (FleetStep P) SparesRunning σ1 ev σ2) (hwaits : AwaitsReply (view σ1.sys.kernel))
    (hnow : ev.restartsNow σ1.sys.kernel = some hsmTask)
    (hrun2 : Run (Guarded (FleetStep P) SparesRunning) σ2 fs σ) :
    (view σ.sys.kernel).running 0 ≠ taskA ∧
      (AwaitsReply (view σ.sys.kernel) ∨ (view σ.sys.kernel).state taskA = some .terminated) := by
  have hinv1 : ClientInv σ1 := hrun1.invariant clientInv_step (clientInv_initial hσ0)
  have hinv2 : ClientInv σ2 ∧ Stranded σ2 :=
    ⟨clientInv_step σ1 ev σ2 hinv1 hstep, stranded_of_restart hinv1 hstep.1 hwaits hnow⟩
  have hs : Stranded σ := (hrun2.invariant stranded_step hinv2).2
  refine ⟨hs.away, ?_⟩
  rcases hs.client with ⟨hwaits, -⟩ | hdead
  · exact Or.inl hwaits
  · exact Or.inr hdead.terminated

/-- HSM Task gets the request of Task A, which waits for the reply, and faults. The idle task uses up its
time, and the Watchdog wakes. -/
def lostRequest : List Event :=
  [syscall 0 2 100 0 0, syscall 0 5 0 0 0, syscall 0 3 0 0 0, syscall 0 4 0 0 0, syscall 0 5 0 0 0,
    syscall 0 7 0 0x3FC81200 12, syscall 0 6 2 0x3FC80400 12, syscall 0 7 3 0x3FC80500 8,
    .trap 0 ⟨5#32, 0x3FC82400, 0⟩ fun _ => 0] ++ List.replicate 100 (timerTrap 0) ++
    [.watchdogLock, .watchdogRestartTaskC]

/-- The Watchdog sleeps again, and HSM Task comes back to `sys_recv`. -/
def afterRestart : List Event :=
  [.watchdogUnlock, syscall 0 2 100 0 0, syscall 0 5 0 0 0, syscall 0 7 0 0x3FC81200 12]

/-- Both wait, and the idle task runs. -/
theorem client_stranded_restart : ∃ σ1 σ2 σ,
    Run (Guarded (FleetStep packedPlatform) SparesRunning) bootFleet lostRequest σ1 ∧
      AwaitsReply (view σ1.sys.kernel) ∧
      FleetStep packedPlatform σ1 .watchdogRestartHsm σ2 ∧
      Run (Guarded (FleetStep packedPlatform) SparesRunning) σ2 afterRestart σ ∧
      (view σ.sys.kernel).running 0 = idleOf 0 ∧
      (view σ.sys.kernel).state hsmTask = some (.blockedOnIpcRecv 2 0x3FC81200 12) ∧
      (AwaitsReply (view σ.sys.kernel) ∨ (view σ.sys.kernel).state taskA = some .terminated) := by
  have heval : ((lostRequest.foldlM (fun σ ev => if SparesRunning σ ev then σ.next packedPlatform ev
      else none) bootFleet).bind fun σ1 => ((Event.watchdogRestartHsm :: afterRestart).foldlM (fun σ ev =>
        if SparesRunning σ ev then σ.next packedPlatform ev else none) σ1).map fun σ =>
          ((view σ1.sys.kernel).state taskA, Event.watchdogRestartHsm.restartsNow σ1.sys.kernel,
            (view σ.sys.kernel).running 0, (view σ.sys.kernel).state hsmTask)) =
      some (some (.blockedOnIpcRecv 3 0x3FC80500 8), some hsmTask, idleOf 0,
        some (.blockedOnIpcRecv 2 0x3FC81200 12)) := by
    decide +kernel
  obtain ⟨σ1, hσ1, hrest⟩ := Option.bind_eq_some_iff.mp heval
  obtain ⟨σ, hσ, heval⟩ := Option.map_eq_some_iff.mp hrest
  obtain ⟨hwaits, heval⟩ := Prod.mk.inj heval
  obtain ⟨hnow, heval⟩ := Prod.mk.inj heval
  obtain ⟨hidle, hserver⟩ := Prod.mk.inj heval
  have hrun1 : Run (Guarded (FleetStep packedPlatform) SparesRunning) bootFleet lostRequest σ1 :=
    Run.of_foldlM_guarded SparesRunning hσ1
  obtain ⟨σ2, hstep, hrun2⟩ : Run (Guarded (FleetStep packedPlatform) SparesRunning) σ1
    (.watchdogRestartHsm :: afterRestart) σ := Run.of_foldlM_guarded SparesRunning hσ
  exact ⟨σ1, σ2, σ, hrun1, ⟨_, _, hwaits⟩, hstep.1, hrun2, hidle, hserver, (client_stranded packedPlatform
    bootFleet σ1 σ2 σ _ _ _ bootFleet_initial hrun1 hstep ⟨_, _, hwaits⟩ hnow hrun2).2⟩

end Cerberus.Tasks
