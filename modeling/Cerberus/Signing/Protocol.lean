import Cerberus.Signing.Hsm

/-! # The signing protocol

Every tag Task A receives is the tag of the last request it sent. The invariant has three parts: a task
that waits for a partner has left its core, since the idle task is always there to take it; what a
waiting task recorded is apart from its saved frame and on its own side of the stack of HSM Task; and
the bytes HSM Task counts on at each point of its loop are the last request, or its tag. -/
namespace Cerberus.Signing
open Kernel Scheduler Sync Memory Transition Watchdog Ipc
set_option autoImplicit false

/-! ## A waiting task does not run -/

def idleOf (h : Hart) : TaskId := (h, 31)

/-- The running tasks do not wait for a partner, and the idle tasks run or are `Ready`. -/
structure Awake (v : View) : Prop where
  running : ∀ h st, v.state (v.running h) = some st → ¬ WaitsForPartner st
  idle : ∀ h, v.state (idleOf h) = some .ready ∨
    (v.running h = idleOf h ∧ v.state (idleOf h) = some .running)

section Awake
variable {v v' : View} {h : Hart} {e : Effect}

theorem idle_not_locker (h : Hart) : ¬ Locker (idleOf h) := by
  fin_cases h <;> decide

theorem release_idle (hv : v.BootShape) (i : Fin 8) (h : Hart) :
    (v.release i).state (idleOf h) = v.state (idleOf h) := by
  refine View.release_rule (I := fun u => u.state (idleOf h) = v.state (idleOf h)) rfl
    (fun _ _ _ => rfl) fun m w hm hl => ?_
  rw [View.state_setState, if_neg]
  · rfl
  · intro he
    have hw := hv.waiters i m hm w (BitSet.mem_of_least hl)
    exact idle_not_locker h (he ▸ hw)

/-- What an effect must not do for the idle tasks to stay: be a call or a fault of one, or terminate
one. -/
structure SparesIdle (h : Hart) (v : View) (e : Effect) : Prop where
  interrupts : v.running h = idleOf h → (∃ now, e = .tick now) ∨ e = .resched
  kills : ∀ x, e = .kill x → x.2 ≠ 31

theorem apply_idle (hv : v.BootShape) (hawake : Awake v) (hvalid : e.Valid h v)
    (hspares : SparesIdle h v e) (h' : Hart) :
    (e.apply h v).state (idleOf h') = v.state (idleOf h') := by
  have hset : ∀ (u : View) (st : TaskState), v.running h ≠ idleOf h →
      (u.setState (v.running h) st).state (idleOf h') = u.state (idleOf h') := by
    intro u st hrun
    rw [View.state_setState, if_neg]
    intro he
    obtain rfl : h' = h := congrArg Prod.fst he
    exact hrun he.symm
  have hcalls : ∀ {e' : Effect}, e = e' → (∀ now, e' ≠ .tick now) → e' ≠ .resched →
      v.running h ≠ idleOf h := by
    rintro _ rfl htick hresched hrun
    rcases hspares.interrupts hrun with ⟨now, he⟩ | he
    · exact htick now he
    · exact hresched he
  cases e with
  | none => rfl
  | tick now =>
    simp only [Effect.apply, View.wake]
    split
    · rcases hawake.idle h' with hst | ⟨-, hst⟩
      · rw [hst]
        rfl
      · rw [hst]
        rfl
    · rfl
  | resched => rfl
  | block st =>
    exact hset v st (hcalls rfl (fun _ he => by cases he) fun he => by cases he)
  | grant i =>
    obtain ⟨⟨m, hm, -⟩, -⟩ := hvalid
    simp only [Effect.apply, hm]
    rfl
  | wait i =>
    obtain ⟨⟨m, hm, -⟩, -⟩ := hvalid
    simp only [Effect.apply, hm]
    exact hset v _ (hcalls rfl (fun _ he => by cases he) fun he => by cases he)
  | release i => exact release_idle hv i h'
  | transfer y =>
    obtain ⟨st, hst, hw⟩ := hvalid
    simp only [Effect.apply]
    rw [View.state_setState, if_neg]
    rintro rfl
    rcases hawake.idle h' with hst' | ⟨-, hst'⟩
    · rw [hst, Option.some.injEq] at hst'
      exact (hst' ▸ hw).elim
    · rw [hst, Option.some.injEq] at hst'
      exact (hst' ▸ hw).elim
  | kill x =>
    have hx : idleOf h' ≠ x := fun he => hspares.kills x rfl (he ▸ rfl)
    have hinit : (v.setState x .terminated).state (idleOf h') = v.state (idleOf h') := by
      rw [View.state_setState, if_neg hx]
    refine (View.recoverAll_induction
      (I := fun u => u.BootShape ∧ u.state (idleOf h') = v.state (idleOf h')) ?_
      ⟨hv.setState x fun b hb => (by cases hb), hinit⟩).2
    exact fun u i hu _ => ⟨hu.1.release i, (release_idle hu.1 i h').trans hu.2⟩

/-- The core keeps its task, or it runs another one, which is `Running`. -/
theorem running_of_leads (hl : e.Leads h v v') (h' : Hart) :
    v'.running h' = v.running h' ∨ v'.state (v'.running h') = some .running := by
  have hcur := congrFun (Effect.apply_shape h v e).current h'
  rcases hl.cases with rfl | ⟨_, -, ⟨rfl, -⟩ | ⟨n, hn, rfl⟩⟩
  · exact Or.inl (by rw [View.running, View.running, hcur])
  · exact Or.inl (by rw [View.running, View.running, hcur])
  · by_cases hh : h' = h
    · subst hh
      have hrun : ((e.apply h' v).swap h' n).running h' = (h', n) := by
        simp [View.running, View.swap]
      rw [hrun, View.state_swap, if_pos rfl, hn]
      exact Or.inr rfl
    · refine Or.inl ?_
      have hsame : ((e.apply h v).swap h n).running h' = (e.apply h v).running h' := by
        simp [View.running, View.swap, hh]
      rw [hsame, View.running, View.running, hcur]

theorem idle_of_leads (hawake : Awake v)
    (happly : ∀ h', (e.apply h v).state (idleOf h') = v.state (idleOf h')) (hl : e.Leads h v v')
    (h' : Hart) : v'.state (idleOf h') = some .ready ∨
      (v'.running h' = idleOf h' ∧ v'.state (idleOf h') = some .running) := by
  have hcur : (e.apply h v).running h' = v.running h' := by
    rw [View.running, View.running, (Effect.apply_shape h v e).current]
  have hidle : (e.apply h v).state (idleOf h') = some .ready ∨
      ((e.apply h v).running h' = idleOf h' ∧
        (e.apply h v).state (idleOf h') = some .running) := by
    rw [happly, hcur]
    exact hawake.idle h'
  rcases hl.cases with rfl | ⟨_, -, ⟨rfl, -⟩ | ⟨n, hn, rfl⟩⟩
  · exact hidle
  · exact hidle
  · rw [View.state_swap]
    by_cases hn' : idleOf h' = (h, n)
    · refine Or.inr ⟨?_, ?_⟩
      · obtain rfl : h' = h := congrArg Prod.fst hn'
        rw [hn']
        simp [View.running, View.swap]
      · rw [if_pos hn', hn', hn]
        rfl
    · rw [if_neg hn']
      split
      · exact Or.inl rfl
      · rename_i hnot
        rcases hidle with hready | ⟨hrun, hst⟩
        · exact Or.inl hready
        · refine Or.inr ⟨?_, hst⟩
          have hh : h' ≠ h := by
            rintro rfl
            exact hnot ⟨hrun.symm, hst⟩
          rw [← hrun]
          simp [View.running, View.swap, hh]

/-- A caller that blocks leaves its core to the idle task at least. -/
theorem blocked_leaves {k : Kernel} {ev : Event} {st : TaskState} (hv : (view k).BootShape)
    (hawake : Awake (view k)) (hev : ev.effect k = some (h, .block st)) (hw : WaitsForPartner st)
    (hspares : SparesIdle h (view k) (.block st)) (hstep : StepView k ev v') :
    v'.running h ≠ (view k).running h := by
  have hne : idleOf h ≠ (view k).running h := by
    intro he
    rcases hspares.interrupts he.symm with ⟨now, hb⟩ | hb
    · cases hb
    · cases hb
  have hready : (view k).state (h, 31) = some .ready := by
    rcases hawake.idle h with hready | ⟨hrun, -⟩
    · exact hready
    · exact absurd hrun.symm hne
  cases hstep with
  | effect hev' hstep' =>
    obtain ⟨rfl, rfl⟩ := Prod.mk.inj (Option.some.inj (hev.symm.trans hev'))
    exact (block_leads (hv.running h) hw hne hready hstep'.leads).2.1
  | restart hev' =>
    cases ev with
    | watchdogRestartTaskC => cases hev
    | watchdogRestartHsm => cases hev
    | _ => cases hev'
  | skip hev' =>
    rw [hev] at hev'
    cases hev'

theorem awake_step {k : Kernel} {ev : Event} (hv : (view k).BootShape) (hawake : Awake (view k))
    (hspares : ∀ h e, ev.effect k = some (h, e) → SparesIdle h (view k) e)
    (hstep : StepView k ev v') : Awake v' := by
  have hkept : ∀ h, v'.running h = (view k).running h ∨ v'.state (v'.running h) = some .running := by
    intro h
    cases hstep with
    | effect _ hstep' => exact running_of_leads hstep'.leads h
    | restart _ _ _ hv' =>
      rw [hv']
      exact Or.inl rfl
    | skip _ _ hv' =>
      rw [hv']
      exact Or.inl rfl
  constructor
  · intro h st hst hw
    rcases hkept h with hsame | hrunning
    · rcases waits_of_step hstep hw hst with hold | ⟨h', hev, hrun⟩
      · rw [hsame] at hold
        exact hawake.running h st hold hw
      · obtain rfl : h = h' := congrArg Prod.fst (hsame.symm.trans hrun)
        exact blocked_leaves hv hawake hev hw (hspares h _ hev) hstep hsame
    · rw [hst, Option.some.injEq] at hrunning
      rw [hrunning] at hw
      exact hw
  · intro h
    cases hstep with
    | effect hev hstep' =>
      exact idle_of_leads hawake (apply_idle hv hawake hstep'.valid (hspares _ _ hev)) hstep'.leads h
    | @restart x hev _ _ hv' =>
      have hx : idleOf h ≠ x := by
        rintro rfl
        cases ev <;> cases hev
      rw [hv']
      show ((view k).setState x .ready).state (idleOf h) = some .ready ∨ _ ∧ _
      rw [View.state_setState, if_neg hx]
      exact hawake.idle h
    | skip _ _ hv' =>
      rw [hv']
      exact hawake.idle h

end Awake

theorem awake_boot : Awake bootView where
  running := fun h st hst hw => by
    fin_cases h
    · rw [← Option.some.inj hst] at hw
      exact hw
    · rw [← Option.some.inj hst] at hw
      exact hw
  idle := fun h => by
    fin_cases h
    · exact Or.inl rfl
    · exact Or.inl rfl

/-! ## What the programs do -/

section Honest
variable {P : Platform} {B : Build} {σ : Session} {ev : Event} {s' : System}

theorem index_of_findTask {k : Kernel} {targetPrio : Word} {x : TaskId}
    (hf : findTask k targetPrio = some x) : x.2.val = targetPrio.toNat := by
  unfold findTask at hf
  split at hf
  · split at hf
    · rw [← Option.some.inj hf]
    · split at hf
      · rw [← Option.some.inj hf]
      · cases hf
  · cases hf

theorem effect_of_interrupt {k : Kernel} {h : Hart} {t : Trap}
    (ht : t.mcause = TIMER_INTERRUPT ∨ t.mcause = SOFTWARE_INTERRUPT) :
    (∃ now, effect k h t = .tick now) ∨ effect k h t = .resched := by
  unfold effect
  rcases ht with ht | ht
  · rw [if_pos ht]
    exact Or.inl ⟨_, rfl⟩
  · rw [if_neg (by rw [ht]; decide), if_pos ht]
    exact Or.inr rfl

/-- A task is terminated by syscall 8 or by its own fault. -/
theorem kill_cases {k : Kernel} {h : Hart} {t : Trap} {x : TaskId} (heff : effect k h t = .kill x) :
    (t.mcause = ECALL_UMODE ∧ (k.readFrame t.userSp 13).toNat = 8 ∧
      findTask k (k.readFrame t.userSp 6) = some x) ∨ x = (h, k.current h) := by
  by_cases hecall : t.mcause = ECALL_UMODE
  · have hcases := ecall_cases (k := k) (h := h) hecall
    rw [heff] at hcases
    cases hcases with
    | kill hid hf => exact Or.inl ⟨hecall, hid, hf⟩
  · refine Or.inr ?_
    unfold effect at heff
    rw [if_neg hecall] at heff
    split at heff
    · cases heff
    · split at heff
      · cases heff
      · split at heff
        · cases heff
        · exact (Effect.kill.inj heff).symm

theorem Honest.sparesIdle (hg : Honest P B σ ev) (hs : SysInv σ.sys) (hstep : Step P σ.sys ev s')
    (h : Hart) (e : Effect) (hev : ev.effect σ.sys.kernel = some (h, e)) :
    SparesIdle h (view σ.sys.kernel) e := by
  have hcases := stepKernel_of_step hstep
  generalize s'.kernel = k' at hcases
  cases hcases with
  | @trap h' t m sp _ hok =>
    obtain ⟨rfl, rfl⟩ := Prod.mk.inj (Option.some.inj hev)
    have hprog := hg.programs h' t m rfl
    have hidle : (view σ.sys.kernel).running h' = idleOf h' → (∃ now, effect _ h' t = .tick now) ∨
        effect (σ.sys.kernel.setMem m) h' t = .resched := fun hrun =>
      effect_of_interrupt (hprog.idle (congrArg Prod.snd hrun))
    refine ⟨hidle, fun x hx hidx => ?_⟩
    rcases kill_cases hx with ⟨hecall, hid, hf⟩ | rfl
    · refine hprog.terminate hecall hid ?_
      rw [← index_of_findTask hf, hidx]
      rfl
    · have hrun : (view σ.sys.kernel).running h' = idleOf h' := Prod.ext rfl hidx
      rcases hidle hrun with ⟨now, he⟩ | he
      · rw [hx] at he
        cases he
      · rw [hx] at he
        cases he
  | @nested h' t t' m m' kf _ sp hf hok =>
    obtain ⟨rfl, rfl⟩ := Prod.mk.inj (Option.some.inj hev)
    have hprog := hg.programs h' t m rfl
    have hne : σ.sys.kernel.current h' ≠ 31 := by
      intro hcur
      obtain ⟨x, hx⟩ := transfer_of_copyFault (hs.sound m) hf
      rcases effect_of_interrupt (k := σ.sys.kernel.setMem m) (h := h') (hprog.idle hcur) with
        ⟨now, he⟩ | he
      · rw [hx] at he
        cases he
      · rw [hx] at he
        cases he
    exact ⟨fun hrun => absurd (congrArg Prod.snd hrun) hne, fun x hx => by
      rw [← Effect.kill.inj hx]
      exact hne⟩
  | _ => cases hev

end Honest

/-! ## Who uses the endpoints -/

theorem bootStatic_senders (x : TaskId) (c : Fin 8) :
    ((bootStatic x).bind fun s => sendRight (s.capabilities c)).all (fun e =>
      decide ((x = taskA ∧ (e = 0 ∨ e = 2)) ∨ (x = hsmTask ∧ e = 3))) = true := by
  obtain ⟨h, i⟩ := x
  revert h i c
  decide +kernel

theorem bootStatic_receivers (x : TaskId) (c : Fin 8) :
    ((bootStatic x).bind fun s => recvRight (s.capabilities c)).all (fun e =>
      decide ((x = (1, 2) ∧ e = 0) ∨ (x = hsmTask ∧ e = 2) ∨ (x = taskA ∧ e = 3))) = true := by
  obtain ⟨h, i⟩ := x
  revert h i c
  decide +kernel

section Rights
variable {v : View} {x : TaskId} {e : Byte}

theorem senders (hv : v.BootShape) (hmay : MaySend v x e) :
    (x = taskA ∧ (e = 0 ∨ e = 2)) ∨ (x = hsmTask ∧ e = 3) := by
  obtain ⟨st, c, canRecv, hst, hcap⟩ := hmay
  rw [hv.static] at hst
  have hall := bootStatic_senders x c
  rw [hst, Option.bind_some, sendRight_eq_some.mpr ⟨canRecv, hcap⟩] at hall
  exact of_decide_eq_true hall

theorem receivers (hv : v.BootShape) (hmay : MayRecv v x e) :
    (x = (1, 2) ∧ e = 0) ∨ (x = hsmTask ∧ e = 2) ∨ (x = taskA ∧ e = 3) := by
  obtain ⟨st, c, canSend, hst, hcap⟩ := hmay
  rw [hv.static] at hst
  have hall := bootStatic_receivers x c
  rw [hst, Option.bind_some, recvRight_eq_some.mpr ⟨canSend, hcap⟩] at hall
  exact of_decide_eq_true hall

end Rights

/-! ## What a waiting task has recorded -/

/-- The message or buffer of a task that waits for a partner: address and length. -/
def recorded : TaskState → Option (Word × Word)
  | .blockedOnIpcSend _ msgAddr msgLen => some (msgAddr, msgLen)
  | .blockedOnIpcRecv _ bufAddr maxLen => some (bufAddr, maxLen)
  | _ => none

theorem waits_of_recorded {st : TaskState} {r : Word × Word} (hr : recorded st = some r) :
    WaitsForPartner st := by
  cases st with
  | blockedOnIpcSend => trivial
  | blockedOnIpcRecv => trivial
  | _ => cases hr

/-- A message or buffer of `x` and its frame at `sp`: they are on the stack of HSM Task if `x` is HSM
Task and elsewhere if not, and do not overlap. -/
structure Sided (P : Platform) (x : TaskId) (a : Word) (n : ℕ) (sp : Word) : Prop where
  bytes : ∀ c, InRange a n c → (P.layout.InStack .hsm c ↔ x = hsmTask)
  frame : ∀ c, InRange sp 128 c → (P.layout.InStack .hsm c ↔ x = hsmTask)
  apart : ∀ c, InRange a n c → ¬ InRange sp 128 c

section Sided
variable {P : Platform} {x y : TaskId} {src dst spX spY : Word} {n n' : ℕ}

theorem Sided.mono (hx : Sided P x src n spX) (hn : n' ≤ n) : Sided P x src n' spX :=
  ⟨fun c hc => hx.bytes c (hc.mono hn), hx.frame, fun c hc => hx.apart c (hc.mono hn)⟩

/-- One of two tasks is HSM Task: nothing of the one overlaps anything of the other. -/
theorem Sided.disjoint (hx : Sided P x src n spX) (hy : Sided P y dst n spY)
    (hxy : x = hsmTask ↔ y ≠ hsmTask) :
    (∀ c, InRange src n c → ¬ InRange dst n c ∧ ¬ InRange spX 128 c ∧ ¬ InRange spY 128 c) ∧
    (∀ c, InRange dst n c → ¬ InRange spX 128 c ∧ ¬ InRange spY 128 c) ∧
    ∀ c, InRange spX 128 c → ¬ InRange spY 128 c := by
  have hcross : ∀ c, (P.layout.InStack .hsm c ↔ x = hsmTask) →
      ¬ (P.layout.InStack .hsm c ↔ y = hsmTask) := by
    intro c h1 h2
    tauto
  refine ⟨fun c hc => ⟨fun hd => ?_, hx.apart c hc, fun hf => ?_⟩,
    fun c hc => ⟨fun hf => ?_, hy.apart c hc⟩, fun c hf hf' => ?_⟩
  · exact hcross c (hx.bytes c hc) (hy.bytes c hd)
  · exact hcross c (hx.bytes c hc) (hy.frame c hf)
  · exact hcross c (hx.frame c hf) (hy.bytes c hc)
  · exact hcross c (hx.frame c hf) (hy.frame c hf')

end Sided

/-- What every session keeps about the kernel. -/
structure KernelInv (P : Platform) (s : System) : Prop where
  sys : SysInv s
  ipc : IpcInv (view s.kernel)
  awake : Awake (view s.kernel)
  waiting : ∀ x st r, (view s.kernel).state x = some st → recorded st = some r →
    ∃ sp, savedSpOf s.kernel x = some sp ∧ Sided P x r.1 r.2.toNat sp

section KernelInv
variable {P : Platform} {B : Build} {σ : Session} {ev : Event} {s' : System}

/-- The caller of a send or a receive. -/
theorem Honest.sided {h : Hart} {t : Trap} {m : Memory} (hg : Honest P B σ (.trap h t m))
    (hecall : t.mcause = ECALL_UMODE)
    (hid : ((σ.sys.kernel.setMem m).readFrame t.userSp 13).toNat = 6 ∨
      ((σ.sys.kernel.setMem m).readFrame t.userSp 13).toNat = 7) :
    Sided P ((view σ.sys.kernel).running h) ((σ.sys.kernel.setMem m).readFrame t.userSp 7)
      ((σ.sys.kernel.setMem m).readFrame t.userSp 8).toNat t.userSp := by
  have hprog := hg.programs h t m rfl
  have hbuf := hprog.buffer hecall hid
  exact ⟨fun c hc => (hbuf c hc).1, hprog.frame, fun c hc => (hbuf c hc).2⟩

theorem waiting_step (hinv : KernelInv P σ.sys) (hg : Honest P B σ ev) (hstep : Step P σ.sys ev s')
    (hawake : Awake (view s'.kernel)) {x : TaskId} {st : TaskState} {r : Word × Word}
    (hst : (view s'.kernel).state x = some st) (hr : recorded st = some r) :
    ∃ sp, savedSpOf s'.kernel x = some sp ∧ Sided P x r.1 r.2.toNat sp := by
  have hw := waits_of_recorded hr
  rcases waits_of_step (step_cases hinv.sys hstep).1 hw hst with hold | ⟨h, hev, rfl⟩
  · obtain ⟨sp, hsp, hsided⟩ := hinv.waiting x st r hold hr
    have haway : σ.sys.kernel.current x.1 ≠ x.2 := by
      intro hcur
      have hrun : (view σ.sys.kernel).running x.1 = x := Prod.ext rfl hcur
      exact hinv.awake.running x.1 st (hrun.symm ▸ hold) hw
    have hnot : ev.restartsNow σ.sys.kernel ≠ some x := by
      intro hnow
      rw [(restartsNow_cases hnow).2, Option.some.injEq] at hold
      exact (hold ▸ hw : WaitsForPartner .terminated)
    exact ⟨sp, ((contexts_of_step hinv.sys hstep).savedSp_eq haway hnot).trans hsp, hsided⟩
  · have hcases := stepKernel_of_step hstep
    generalize s'.kernel = k' at hcases hawake hst
    cases hcases with
    | @trap h' t m sp k' hok =>
      obtain ⟨rfl, heff⟩ := Prod.mk.inj (Option.some.inj hev)
      have hne : (view k').running h' ≠ (view σ.sys.kernel).running h' := by
        intro hsame
        exact hawake.running h' st (hsame.symm ▸ hst) hw
      have hsaved := resumes_savedSp (hinv.sys.sound m) hok hne
      refine ⟨t.userSp, hsaved, ?_⟩
      obtain ⟨hecall, ⟨hid, e, rfl⟩ | ⟨hid, e, rfl⟩⟩ := block_call hw heff
      · obtain rfl := Option.some.inj hr
        exact hg.sided hecall (Or.inl hid)
      · obtain rfl := Option.some.inj hr
        exact hg.sided hecall (Or.inr hid)
    | nested => cases (Prod.mk.inj (Option.some.inj hev)).2
    | _ => cases hev

theorem KernelInv.step (hinv : KernelInv P σ.sys) (hg : Honest P B σ ev)
    (hstep : Step P σ.sys ev s') : KernelInv P s' := by
  have hview := (step_cases hinv.sys hstep).1
  have hawake := awake_step hinv.sys.shape hinv.awake (hg.sparesIdle hinv.sys hstep) hview
  exact ⟨sysInv_step _ _ _ hinv.sys hstep, ipcInv_step _ _ _ hinv.sys hinv.ipc hview, hawake,
    fun x st r hst hr => waiting_step hinv hg hstep hawake hst hr⟩

theorem KernelInv.initial {s : System} (hs : Initial P s) : KernelInv P s := by
  have hview := (initial_view hs).1
  refine ⟨sysInv_initial hs, hview ▸ ipcInv_boot, hview ▸ awake_boot, fun x st r hst hr => ?_⟩
  rw [hview] at hst
  obtain ⟨_, -, hboot⟩ := Option.map_eq_some_iff.mp hst
  split at hboot
  · subst hboot
    cases hr
  · subst hboot
    cases hr

end KernelInv

/-! ## The bytes of a transfer -/

section Transfer
variable {P : Platform} {B : Build} {σ : Session} {h : Hart} {t : Trap} {m : Memory} {sp : Word}
  {k' : Kernel} {p : Plan}

/-- What arrives of a transfer between HSM Task and another task is the message: message, buffer and
the two frames do not overlap. -/
theorem bytes_of_transfer (hinv : KernelInv P σ.sys) (hg : Honest P B σ (.trap h t m))
    (hok : trapHandler P h t (σ.sys.kernel.setMem m) = .ok (sp, k'))
    (hp : transferPlan (σ.sys.kernel.setMem m) h t = some p)
    (hsides : p.sender = hsmTask ↔ p.receiver ≠ hsmTask) :
    k'.mem.bytes p.dst p.len.toNat = m.bytes p.src p.len.toNat := by
  obtain ⟨e, y, hecall, -, heff, hmeet⟩ := transferPlan_meeting (hinv.sys.sound m) hp
  obtain ⟨_, partner, mine, theirs, -, heff', -, htrap⟩ := trapHandler_eq_rendezvous P hp
  obtain rfl : y = partner := Effect.transfer.inj (heff.symm.trans heff')
  obtain ⟨m1, spY, hcopy, hspY, hmem⟩ := mem_of_rendezvous (htrap.symm.trans hok)
  have hspY' : savedSpOf σ.sys.kernel y = some spY := hspY
  rw [hmem]
  apply bytes_eq
  cases hmeet with
  | @sends maxLen hid hsender hmay hsrc hlen hst hmax =>
    obtain ⟨sp', hsp', hy⟩ := hinv.waiting p.receiver _ (p.dst, maxLen) hst rfl
    obtain rfl : spY = sp' := Option.some.inj (hspY'.symm.trans hsp')
    have hx := (hg.sided hecall (Or.inl hid)).mono hlen
    rw [← hsrc] at hx
    have hrun : (view σ.sys.kernel).running h = p.sender := hsender.symm
    rw [hrun] at hx
    obtain ⟨hs, hd, hf⟩ := hx.disjoint (hy.mono hmax) hsides
    exact (copied_results theirs mine p.len.isLt le_rfl (fun c hc => ⟨(hs c hc).1, (hs c hc).2.1⟩)
      (fun c hc => ⟨(hd c hc).2, (hd c hc).1⟩) (fun c hc hc' => hf c hc' hc) hcopy).1
  | @receives msgLen hid hreceiver hmay hdst hmax hst hlen =>
    obtain ⟨sp', hsp', hx⟩ := hinv.waiting p.sender _ (p.src, msgLen) hst rfl
    obtain rfl : spY = sp' := Option.some.inj (hspY'.symm.trans hsp')
    have hy := (hg.sided hecall (Or.inr hid)).mono hmax
    rw [← hdst] at hy
    have hrun : (view σ.sys.kernel).running h = p.receiver := hreceiver.symm
    rw [hrun] at hy
    obtain ⟨hs, hd, hf⟩ := (hx.mono hlen).disjoint hy hsides
    exact (copied_results theirs mine p.len.isLt le_rfl (fun c hc => ⟨(hs c hc).1, (hs c hc).2.2⟩)
      hd hf hcopy).1

/-- Both sides of a transfer have the right to it. -/
theorem rights_of_meeting {k : Kernel} (hipc : IpcInv (view k)) {e : Byte} {y : TaskId}
    (hmeet : Meeting k h t e p y) : MaySend (view k) p.sender e ∧ MayRecv (view k) p.receiver e := by
  cases hmeet with
  | sends _ hsender hmay _ _ hst _ =>
    rw [hsender]
    exact ⟨hmay, hipc.receivers _ _ _ _ hst⟩
  | receives _ hreceiver hmay _ _ hst _ =>
    rw [hreceiver]
    exact ⟨hipc.senders _ _ _ _ hst, hmay⟩

end Transfer

section Completed
variable {P : Platform} {B : Build} {σ : Session} {ev : Event} {s' : System} {e : Byte} {p : Plan}
  {m : Memory}

theorem completed_spec {k : Kernel} (hc : completed k ev = some (e, p, m)) :
    ∃ h t, ev = .trap h t m ∧ transferEndpoint (k.setMem m) h t = some e ∧
      transferPlan (k.setMem m) h t = some p := by
  cases ev with
  | trap h t m' =>
    obtain ⟨e', he, hp⟩ := Option.bind_eq_some_iff.mp hc
    obtain ⟨p', hp', heq⟩ := Option.map_eq_some_iff.mp hp
    obtain ⟨rfl, rfl, rfl⟩ : e' = e ∧ p' = p ∧ m' = m := by simpa using heq
    exact ⟨h, t, rfl, he, hp'⟩
  | _ => cases hc

/-- A completed transfer, with its two sides. -/
theorem completed_meeting (hinv : KernelInv P σ.sys)
    (hc : completed σ.sys.kernel ev = some (e, p, m)) :
    ∃ h t y, ev = .trap h t m ∧ transferPlan (σ.sys.kernel.setMem m) h t = some p ∧
      t.mcause = ECALL_UMODE ∧ effect (σ.sys.kernel.setMem m) h t = .transfer y ∧
      Meeting (σ.sys.kernel.setMem m) h t e p y := by
  obtain ⟨h, t, rfl, he, hp⟩ := completed_spec hc
  obtain ⟨e', y, hecall, he', heff, hmeet⟩ := transferPlan_meeting (hinv.sys.sound m) hp
  obtain rfl : e' = e := Option.some.inj (he'.symm.trans he)
  exact ⟨h, t, y, rfl, hp, hecall, heff, hmeet⟩

/-- Endpoint 2 carries messages from Task A to HSM Task, endpoint 3 from HSM Task to Task A, and HSM
Task takes part in no other transfer. -/
theorem completed_parties (hinv : KernelInv P σ.sys)
    (hc : completed σ.sys.kernel ev = some (e, p, m)) :
    (e = 2 ∧ p.sender = taskA ∧ p.receiver = hsmTask) ∨
    (e = 3 ∧ p.sender = hsmTask ∧ p.receiver = taskA) ∨
    (e ≠ 2 ∧ e ≠ 3 ∧ p.sender ≠ hsmTask ∧ p.receiver ≠ hsmTask) := by
  obtain ⟨h, t, y, -, -, -, -, hmeet⟩ := completed_meeting hinv hc
  obtain ⟨hsend, hrecv⟩ := rights_of_meeting (k := σ.sys.kernel.setMem m) hinv.ipc hmeet
  have hshape : (view (σ.sys.kernel.setMem m)).BootShape := hinv.sys.shape
  rcases senders hshape hsend with ⟨hs, rfl | rfl⟩ | ⟨hs, rfl⟩
  · rcases receivers hshape hrecv with ⟨hr, -⟩ | ⟨-, he⟩ | ⟨-, he⟩
    · refine Or.inr (Or.inr ⟨by decide, by decide, ?_, ?_⟩)
      · rw [hs]
        decide
      · rw [hr]
        decide
    · cases he
    · cases he
  · rcases receivers hshape hrecv with ⟨-, he⟩ | ⟨hr, -⟩ | ⟨-, he⟩
    · cases he
    · exact Or.inl ⟨rfl, hs, hr⟩
    · cases he
  · rcases receivers hshape hrecv with ⟨-, he⟩ | ⟨-, he⟩ | ⟨hr, -⟩
    · cases he
    · cases he
    · exact Or.inr (Or.inl ⟨rfl, hs, hr⟩)

theorem locker_of_heir {v : View} (hv : v.BootShape) {eff : Effect} {y : TaskId}
    (hy : eff.heir v = some y) : Locker y := by
  cases eff with
  | release i =>
    obtain ⟨mu, hmu, hl⟩ := Option.bind_eq_some_iff.mp hy
    obtain ⟨w, hw, rfl⟩ := Option.map_eq_some_iff.mp hl
    exact hv.waiters i mu hmu w (BitSet.mem_of_least hw)
  | _ => cases hy

/-- A trap of the programs spares a byte of the stack of HSM Task that its own frame spares, if it
completes no transfer with HSM Task. -/
theorem Honest.spared {h : Hart} {t : Trap} (hg : Honest P B σ (.trap h t m))
    (hinv : KernelInv P σ.sys)
    (hother : ∀ p, transferPlan (σ.sys.kernel.setMem m) h t = some p →
      p.sender ≠ hsmTask ∧ p.receiver ≠ hsmTask) {a : Word}
    (ha : P.layout.InStack .hsm a) (hframe : ¬ InRange t.userSp 128 a) :
    Spared (σ.sys.kernel.setMem m) h t a where
  frame := hframe
  copy := fun p hp hin => by
    obtain ⟨hs, hr⟩ := hother p hp
    obtain ⟨e, y, hecall, -, -, hmeet⟩ := transferPlan_meeting (hinv.sys.sound m) hp
    cases hmeet with
    | @sends maxLen _ _ _ _ _ hst hmax =>
      obtain ⟨sp, -, hy⟩ := hinv.waiting p.receiver _ (p.dst, maxLen) hst rfl
      exact hr ((hy.bytes a (hin.mono hmax)).mp ha)
    | receives hid hreceiver _ hdst hmax _ _ =>
      refine hr (hreceiver.trans (((hg.sided hecall (Or.inr hid)).bytes a ?_).mp ha))
      rw [← hdst]
      exact hin.mono hmax
  partner := fun p y sp hp hy hsp hin => by
    obtain ⟨hs, hr⟩ := hother p hp
    have hne : y ≠ hsmTask := by
      rcases hy with rfl | rfl
      · exact hs
      · exact hr
    exact hg.saved y sp hne hsp a (hin.of_slot (by omega)) ha
  heir := fun y sp hy hsp hin => by
    have hne : y ≠ hsmTask := by
      rintro rfl
      exact absurd (locker_of_heir hinv.sys.shape hy) (by decide)
    exact absurd ha (hg.saved y sp hne hsp a (hin.of_slot (by omega)))

/-- Nobody writes the bytes HSM Task counts on, until it takes part in a transfer or is restarted. -/
theorem Honest.mem_live (hg : Honest P B σ ev) (hinv : KernelInv P σ.sys)
    (hstep : Step P σ.sys ev s')
    (hstack : ∀ a, InRange σ.phase.live.1 σ.phase.live.2 a → P.layout.InStack .hsm a)
    (hnot : ev.restartsNow σ.sys.kernel ≠ some hsmTask)
    (hother : ∀ e p m, completed σ.sys.kernel ev = some (e, p, m) →
      p.sender ≠ hsmTask ∧ p.receiver ≠ hsmTask)
    {a : Word} (ha : InRange σ.phase.live.1 σ.phase.live.2 a) :
    s'.kernel.mem a = σ.sys.kernel.mem a := by
  have hcases := stepKernel_of_step hstep
  generalize s'.kernel = k' at hcases
  cases hcases with
  | @trap h t m sp k' hok =>
    obtain ⟨hmem, hframe⟩ := hg.live h t m rfl a ha
    have hplan : ∀ p, transferPlan (σ.sys.kernel.setMem m) h t = some p →
        p.sender ≠ hsmTask ∧ p.receiver ≠ hsmTask := by
      intro p hp
      obtain ⟨e, y, -, he, -, -⟩ := transferPlan_meeting (hinv.sys.sound m) hp
      exact hother e p m (by simp [completed, he, hp])
    exact (hinv.sys.trap_mem hok (hg.spared hinv hplan (hstack a ha) hframe)).trans hmem
  | @nested h t t' m m' kf k' sp hf hok =>
    obtain ⟨hmem, hframe⟩ := hg.live h t' m' rfl a ha
    exact (hinv.sys.nested_mem hf hok hframe).trans hmem
  | lock _ => rfl
  | restartTaskC _ =>
    unfold Kernel.restartTaskC
    split
    · refine initializeStack_outside fun hin => ?_
      exact absurd ((hstack a ha).unique (inStack_of_frame hin)) (by decide)
    · rfl
  | restartHsm _ =>
    unfold Kernel.restartHsm
    split
    · rename_i hc
      exact absurd (if_pos hc) hnot
    · rfl
  | unlock _ => rfl

/-- The two sides of a completed transfer do not wait any more. -/
theorem not_waiting_of_completed (hinv : KernelInv P σ.sys) (hstep : Step P σ.sys ev s')
    (hc : completed σ.sys.kernel ev = some (e, p, m)) {x : TaskId} (hx : x = p.sender ∨ x = p.receiver)
    {st : TaskState} (hst : (view s'.kernel).state x = some st) : ¬ WaitsForPartner st := by
  obtain ⟨h, t, y, rfl, -, -, heff, hmeet⟩ := completed_meeting hinv hc
  rw [transfer_state hinv.sys hstep heff] at hst
  by_cases hxy : x = y
  · rw [hxy, Function.update_self] at hst
    rw [← Option.some.inj hst]
    exact id
  · rw [Function.update_of_ne hxy] at hst
    have hrun : x = (view σ.sys.kernel).running h := by
      cases hmeet with
      | sends _ hsender => exact (hx.resolve_right hxy).trans hsender
      | receives _ hreceiver => exact (hx.resolve_left hxy).trans hreceiver
    exact hinv.awake.running h st (hrun ▸ hst)

/-- What HSM Task receives is stored on its stack. -/
theorem onStack_of_received (hg : Honest P B σ ev) (hinv : KernelInv P σ.sys)
    (hc : completed σ.sys.kernel ev = some (e, p, m)) (hr : p.receiver = hsmTask) {a : Word}
    (ha : InRange p.dst p.len.toNat a) : P.layout.InStack .hsm a := by
  obtain ⟨h, t, y, rfl, -, hecall, -, hmeet⟩ := completed_meeting hinv hc
  cases hmeet with
  | @sends maxLen _ _ _ _ _ hst hmax =>
    obtain ⟨sp, -, hy⟩ := hinv.waiting p.receiver _ (p.dst, maxLen) hst rfl
    exact (hy.bytes a (ha.mono hmax)).mpr hr
  | receives hid hreceiver _ hdst hmax _ _ =>
    rw [hdst] at ha
    exact ((hg.sided hecall (Or.inr hid)).bytes a (ha.mono hmax)).mpr (hreceiver.symm.trans hr)

theorem bytes_of_completed (hg : Honest P B σ ev) (hinv : KernelInv P σ.sys)
    (hstep : Step P σ.sys ev s') (hc : completed σ.sys.kernel ev = some (e, p, m))
    (hsides : p.sender = hsmTask ↔ p.receiver ≠ hsmTask) :
    s'.kernel.mem.bytes p.dst p.len.toNat = m.bytes p.src p.len.toNat := by
  obtain ⟨h, t, rfl, -, hp⟩ := completed_spec hc
  have hcases := stepKernel_of_step hstep
  generalize s'.kernel = k' at hcases
  cases hcases with
  | trap hok => exact bytes_of_transfer hinv hg hok hp hsides

end Completed

/-! ## The session -/

/-- What the bytes HSM Task counts on are: the last request, or the tag of the last request. -/
def Phase.Holds (B : Build) (m : Memory) (request : Option (List Byte)) : Phase → Prop
  | .listening => True
  | .serving reqBuf => request = some (m.bytes reqBuf CAN_FRAME_SIZE)
  | .replying tag => ∃ frame, request = some frame ∧
      B.computeHmacLocal (B.readUnaligned frame) = some (m.bytes tag HMAC_TAG_LEN)

theorem Phase.Holds.congr {B : Build} {m m' : Memory} {request : Option (List Byte)} {phase : Phase}
    (hh : phase.Holds B m request)
    (hm : ∀ a, InRange phase.live.1 phase.live.2 a → m' a = m a) : phase.Holds B m' request := by
  cases phase with
  | listening => trivial
  | serving reqBuf =>
    have hb : m'.bytes reqBuf CAN_FRAME_SIZE = m.bytes reqBuf CAN_FRAME_SIZE := bytes_congr hm
    show request = some (m'.bytes reqBuf CAN_FRAME_SIZE)
    rw [hb]
    exact hh
  | replying tag =>
    have hb : m'.bytes tag HMAC_TAG_LEN = m.bytes tag HMAC_TAG_LEN := bytes_congr hm
    obtain ⟨frame, hreq, htag⟩ := hh
    refine ⟨frame, hreq, ?_⟩
    rw [hb, htag]

structure SessionInv (P : Platform) (B : Build) (σ : Session) : Prop where
  kernel : KernelInv P σ.sys
  sending : ∀ e a l, (view σ.sys.kernel).state hsmTask = some (.blockedOnIpcSend e a l) →
    σ.phase = .replying a ∧ l.toNat = HMAC_TAG_LEN
  receiving : ∀ e a l, (view σ.sys.kernel).state hsmTask = some (.blockedOnIpcRecv e a l) →
    σ.phase = .listening
  onStack : ∀ a, InRange σ.phase.live.1 σ.phase.live.2 a → P.layout.InStack .hsm a
  holds : σ.phase.Holds B σ.sys.kernel.mem σ.request

section Session
variable {P : Platform} {B : Build} {σ : Session} {ev : Event} {s' : System} {e : Byte} {p : Plan}
  {m : Memory}

/-- The memory of a trap agrees with the kernel's on the bytes HSM Task counts on. -/
theorem Honest.holds {h : Hart} {t : Trap} (hg : Honest P B σ (.trap h t m))
    (hinv : SessionInv P B σ) : σ.phase.Holds B m σ.request :=
  hinv.holds.congr fun a ha => (hg.live h t m rfl a ha).1

/-- `hsm_task` calls `sys_send` at one place. -/
theorem HsmCalls.serving {phase : Phase} {k : Kernel} {t : Trap} (hc : HsmCalls B phase k t)
    (hid : (k.readFrame t.userSp 13).toNat = 6) :
    ∃ reqBuf, phase = .serving reqBuf ∧ (k.readFrame t.userSp 8).toNat = HMAC_TAG_LEN ∧
      B.computeHmacLocal (B.readUnaligned (k.mem.bytes reqBuf CAN_FRAME_SIZE)) =
        some (k.mem.bytes (k.readFrame t.userSp 7) HMAC_TAG_LEN) := by
  unfold HsmCalls at hc
  split at hc
  · exact ⟨_, rfl, hc.2.2⟩
  · rcases hc with h5 | ⟨h7, -⟩
    · omega
    · omega

/-- HSM Task calls `sys_send` with a frame, and what it sends is the tag of the last request. -/
theorem tag_of_send {h : Hart} {t : Trap} (hg : Honest P B σ (.trap h t m)) (hinv : SessionInv P B σ)
    (hrun : (view σ.sys.kernel).running h = hsmTask) (hecall : t.mcause = ECALL_UMODE)
    (hid : ((σ.sys.kernel.setMem m).readFrame t.userSp 13).toNat = 6) :
    ((σ.sys.kernel.setMem m).readFrame t.userSp 8).toNat = HMAC_TAG_LEN ∧
      ∃ frame, σ.request = some frame ∧ B.computeHmacLocal (B.readUnaligned frame) =
        some (m.bytes ((σ.sys.kernel.setMem m).readFrame t.userSp 7) HMAC_TAG_LEN) := by
  have hholds := hg.holds hinv
  obtain ⟨reqBuf, hphase, hlen, htag⟩ := ((hg.programs h t m rfl).hsm hrun hecall).serving hid
  rw [hphase] at hholds
  exact ⟨hlen, _, hholds, htag⟩

/-- What HSM Task has ready when its `sys_send` blocks. -/
theorem reply_of_block (hg : Honest P B σ ev) (hinv : SessionInv P B σ) (hstep : Step P σ.sys ev s')
    {h : Hart} {a l : Word}
    (hev : ev.effect σ.sys.kernel = some (h, .block (.blockedOnIpcSend e a l)))
    (hrun : hsmTask = (view σ.sys.kernel).running h) :
    l.toNat = HMAC_TAG_LEN ∧ (∀ c, InRange a HMAC_TAG_LEN c → P.layout.InStack .hsm c) ∧
      (Phase.replying a).Holds B s'.kernel.mem σ.request := by
  have hcases := stepKernel_of_step hstep
  generalize s'.kernel = k' at hcases
  cases hcases with
  | @trap h' t m sp k' hok =>
    obtain ⟨rfl, heff⟩ := Prod.mk.inj (Option.some.inj hev)
    have hw : WaitsForPartner (.blockedOnIpcSend e a l) := trivial
    obtain ⟨hecall, ⟨hid, e', hst⟩ | ⟨-, e', hst⟩⟩ := block_call hw heff
    · obtain ⟨-, ha, hl⟩ := TaskState.blockedOnIpcSend.inj hst
      obtain ⟨hlen, frame, hreq, htag⟩ := tag_of_send hg hinv hrun.symm hecall hid
      have hsided := hg.sided hecall (Or.inl hid)
      rw [← ha, hlen] at hsided
      rw [← ha] at htag
      rw [← hl] at hlen
      have hstack : ∀ c, InRange a HMAC_TAG_LEN c → P.layout.InStack .hsm c := fun c hc =>
        (hsided.bytes c hc).mpr hrun.symm
      have hnone : ∀ p, transferPlan (σ.sys.kernel.setMem m) h' t ≠ some p := by
        intro p hp
        obtain ⟨_, _, -, -, heff', -⟩ := transferPlan_meeting (hinv.kernel.sys.sound m) hp
        rw [heff] at heff'
        cases heff'
      have hmem : ∀ c, InRange a HMAC_TAG_LEN c → k'.mem c = m c := by
        intro c hc
        refine hinv.kernel.sys.trap_mem hok ?_
        exact hg.spared hinv.kernel (fun p hp => absurd hp (hnone p)) (hstack c hc)
          (hsided.apart c hc)
      refine ⟨hlen, hstack, frame, hreq, ?_⟩
      rw [htag, bytes_congr hmem]
    · cases hst
  | nested => cases (Prod.mk.inj (Option.some.inj hev)).2
  | _ => cases hev

theorem nextPhase_of_completed {k' : Kernel} {phase : Phase}
    (hc : completed σ.sys.kernel ev = some (e, p, m))
    (hafter : Session.afterTransfer e p = some phase) : σ.nextPhase ev k' = phase := by
  simp [Session.nextPhase, hc, hafter]

/-- A step that completes no transfer with HSM Task: the request stays, and the point of the loop is
read off the state and the calls of HSM Task. -/
theorem next_of_other (hother : ∀ e p m, completed σ.sys.kernel ev = some (e, p, m) → e ≠ 2 ∧ e ≠ 3)
    (k' : Kernel) :
    σ.nextRequest ev = σ.request ∧
      ((∃ e a l, (view k').state hsmTask = some (.blockedOnIpcSend e a l) ∧
        σ.nextPhase ev k' = .replying a) ∨
      ((∀ e a l, (view k').state hsmTask ≠ some (.blockedOnIpcSend e a l)) ∧
        σ.nextPhase ev k' = if calls σ.sys.kernel hsmTask ev ∨
          ev.restartsNow σ.sys.kernel = some hsmTask then .listening else σ.phase)) := by
  have hnone : ((completed σ.sys.kernel ev).bind fun c => Session.afterTransfer c.1 c.2.1) = none ∧
      σ.nextRequest ev = σ.request := by
    unfold Session.nextRequest
    cases hc : completed σ.sys.kernel ev with
    | none => exact ⟨rfl, rfl⟩
    | some c =>
      obtain ⟨h2, h3⟩ := hother c.1 c.2.1 c.2.2 hc
      simp only [Option.bind_some, Session.afterTransfer, if_neg h2, if_neg h3, Option.none_or,
        and_self]
  refine ⟨hnone.2, ?_⟩
  unfold Session.nextPhase
  rw [hnone.1, Option.getD_none]
  split
  · rename_i e a l hst
    exact Or.inl ⟨e, a, l, hst, rfl⟩
  · rename_i hst
    exact Or.inr ⟨hst, rfl⟩

theorem SessionInv.completed (hg : Honest P B σ ev) (hinv : SessionInv P B σ)
    (hstep : Step P σ.sys ev s') (hc : completed σ.sys.kernel ev = some (e, p, m))
    (hx : hsmTask = p.sender ∨ hsmTask = p.receiver) (phase : Phase)
    (hafter : Session.afterTransfer e p = some phase)
    (honStack : ∀ a, InRange phase.live.1 phase.live.2 a → P.layout.InStack .hsm a)
    (hholds : phase.Holds B s'.kernel.mem (σ.nextRequest ev)) :
    SessionInv P B ⟨s', σ.nextPhase ev s'.kernel, σ.nextRequest ev⟩ := by
  have hidle : ∀ st, (view s'.kernel).state hsmTask = some st → ¬ WaitsForPartner st :=
    fun st hst => not_waiting_of_completed hinv.kernel hstep hc hx hst
  rw [nextPhase_of_completed hc hafter]
  exact ⟨hinv.kernel.step hg hstep, fun e a l hst => absurd trivial (hidle _ hst),
    fun e a l hst => absurd trivial (hidle _ hst), honStack, hholds⟩

theorem SessionInv.received (hg : Honest P B σ ev) (hinv : SessionInv P B σ)
    (hstep : Step P σ.sys ev s') (hc : Signing.completed σ.sys.kernel ev = some (2, p, m))
    (hs : p.sender = taskA) (hr : p.receiver = hsmTask) :
    SessionInv P B ⟨s', σ.nextPhase ev s'.kernel, σ.nextRequest ev⟩ := by
  have hreq : σ.nextRequest ev = some (m.bytes p.src p.len.toNat) := by
    simp [Session.nextRequest, hc]
  by_cases hlen : p.len.toNat = CAN_FRAME_SIZE
  · refine hinv.completed hg hstep hc (Or.inr hr.symm) (.serving p.dst)
      (by simp [Session.afterTransfer, hlen]) (fun a ha => ?_) ?_
    · refine onStack_of_received hg hinv.kernel hc hr ?_
      rw [hlen]
      exact ha
    · have hbytes := bytes_of_completed hg hinv.kernel hstep hc (by rw [hs, hr]; decide)
      show σ.nextRequest ev = some (s'.kernel.mem.bytes p.dst CAN_FRAME_SIZE)
      rw [hreq, ← hbytes, hlen]
  · refine hinv.completed hg hstep hc (Or.inr hr.symm) .listening
      (by simp [Session.afterTransfer, hlen]) (fun a ha => ?_) trivial
    exact absurd ha (Nat.not_lt_zero _)

theorem SessionInv.sent (hg : Honest P B σ ev) (hinv : SessionInv P B σ)
    (hstep : Step P σ.sys ev s') (hc : Signing.completed σ.sys.kernel ev = some (3, p, m))
    (hs : p.sender = hsmTask) :
    SessionInv P B ⟨s', σ.nextPhase ev s'.kernel, σ.nextRequest ev⟩ := by
  refine hinv.completed hg hstep hc (Or.inl hs.symm) .listening rfl (fun a ha => ?_) trivial
  exact absurd ha (Nat.not_lt_zero _)

theorem hsm_calls {h : Hart} {st : TaskState} (hw : WaitsForPartner st)
    (hev : ev.effect σ.sys.kernel = some (h, .block st))
    (hrun : hsmTask = (view σ.sys.kernel).running h) : calls σ.sys.kernel hsmTask ev := by
  cases ev with
  | trap h' t m =>
    obtain ⟨rfl, heff⟩ := Prod.mk.inj (Option.some.inj hev)
    exact ⟨h', t, m, rfl, hrun.symm, (block_call hw heff).1⟩
  | nestedTrap => cases (Prod.mk.inj (Option.some.inj hev)).2
  | _ => cases hev

theorem SessionInv.other (hg : Honest P B σ ev) (hinv : SessionInv P B σ) (hstep : Step P σ.sys ev s')
    (hother : ∀ e p m, Signing.completed σ.sys.kernel ev = some (e, p, m) →
      e ≠ 2 ∧ e ≠ 3 ∧ p.sender ≠ hsmTask ∧ p.receiver ≠ hsmTask) :
    SessionInv P B ⟨s', σ.nextPhase ev s'.kernel, σ.nextRequest ev⟩ := by
  have hkernel := hinv.kernel.step hg hstep
  have hview := (step_cases hinv.kernel.sys hstep).1
  have hlive : ev.restartsNow σ.sys.kernel ≠ some hsmTask →
      σ.phase.Holds B s'.kernel.mem σ.request := fun hnot =>
    hinv.holds.congr fun a ha => hg.mem_live hinv.kernel hstep hinv.onStack hnot
      (fun e p m hc => (hother e p m hc).2.2) ha
  obtain ⟨hreq, hphase⟩ := next_of_other (fun e p m hc => ⟨(hother e p m hc).1, (hother e p m hc).2.1⟩)
    s'.kernel
  rw [hreq]
  rcases hphase with ⟨e, a, l, hst, hphase⟩ | ⟨hst, hphase⟩
  · rw [hphase]
    have hw : WaitsForPartner (.blockedOnIpcSend e a l) := trivial
    have hreply : l.toNat = HMAC_TAG_LEN ∧
        (∀ c, InRange a HMAC_TAG_LEN c → P.layout.InStack .hsm c) ∧
        (Phase.replying a).Holds B s'.kernel.mem σ.request := by
      rcases waits_of_step hview hw hst with hold | ⟨h, hev, hrun⟩
      · obtain ⟨hph, hlen⟩ := hinv.sending e a l hold
        have hnot : ev.restartsNow σ.sys.kernel ≠ some hsmTask := by
          intro hnow
          rw [(restartsNow_cases hnow).2] at hold
          cases hold
        have honStack := hinv.onStack
        have hholds := hlive hnot
        rw [hph] at honStack hholds
        exact ⟨hlen, honStack, hholds⟩
      · exact reply_of_block hg hinv hstep hev hrun
    refine ⟨hkernel, fun e' a' l' hst' => ?_, fun e' a' l' hst' => ?_, hreply.2.1, hreply.2.2⟩
    · obtain ⟨-, rfl, rfl⟩ := TaskState.blockedOnIpcSend.inj (Option.some.inj (hst.symm.trans hst'))
      exact ⟨rfl, hreply.1⟩
    · cases hst.symm.trans hst'
  · rw [hphase]
    split
    · exact ⟨hkernel, fun e a l hst' => absurd hst' (hst e a l), fun _ _ _ _ => rfl,
        fun a ha => absurd ha (Nat.not_lt_zero _), trivial⟩
    · rename_i hno
      rw [not_or] at hno
      refine ⟨hkernel, fun e a l hst' => absurd hst' (hst e a l), fun e a l hst' => ?_, hinv.onStack,
        hlive hno.2⟩
      have hw : WaitsForPartner (.blockedOnIpcRecv e a l) := trivial
      rcases waits_of_step hview hw hst' with hold | ⟨h, hev, hrun⟩
      · exact hinv.receiving e a l hold
      · exact absurd (hsm_calls hw hev hrun) hno.1

theorem sessionInv_step (σ : Session) (ev : Event) (σ' : Session) (hinv : SessionInv P B σ)
    (hstep : Guarded (SessionStep P) (Honest P B) σ ev σ') : SessionInv P B σ' := by
  obtain ⟨hnext, hg⟩ := hstep
  obtain ⟨s', hs', rfl⟩ := Option.map_eq_some_iff.mp hnext
  cases hc : Signing.completed σ.sys.kernel ev with
  | none =>
    refine hinv.other hg hs' fun e p m hc' => ?_
    rw [hc] at hc'
    cases hc'
  | some c =>
    obtain ⟨e, p, m⟩ := c
    rcases completed_parties hinv.kernel hc with ⟨rfl, hs, hr⟩ | ⟨rfl, hs, -⟩ | hno
    · exact hinv.received hg hs' hc hs hr
    · exact hinv.sent hg hs' hc hs
    · refine hinv.other hg hs' fun e' p' m' hc' => ?_
      obtain ⟨rfl, rfl, -⟩ : e = e' ∧ p = p' ∧ m = m' := by simpa using hc.symm.trans hc'
      exact hno

theorem sessionInv_initial {σ : Session} (hσ : SessionInitial P σ) : SessionInv P B σ := by
  obtain ⟨hs, hphase, -⟩ := hσ
  have hwait : ∀ st, (view σ.sys.kernel).state hsmTask = some st → st = .ready := by
    intro st hst
    rw [(initial_view hs).1] at hst
    exact (Option.some.inj hst).symm
  refine ⟨.initial hs, fun e a l hst => ?_, fun e a l hst => ?_, fun a ha => ?_, ?_⟩
  · cases hwait _ hst
  · cases hwait _ hst
  · rw [hphase] at ha
    exact absurd ha (Nat.not_lt_zero _)
  · rw [hphase]
    trivial

/-- Task A receives the tag of the last request: what HSM Task has to deliver on endpoint 3, as the
message of the call or as the recorded one. -/
theorem tag_of_completed (hg : Honest P B σ ev) (hinv : SessionInv P B σ)
    (hc : Signing.completed σ.sys.kernel ev = some (3, p, m)) (hs : p.sender = hsmTask) :
    p.len.toNat ≤ HMAC_TAG_LEN ∧ ∃ frame, σ.request = some frame ∧
      B.computeHmacLocal (B.readUnaligned frame) = some (m.bytes p.src HMAC_TAG_LEN) := by
  obtain ⟨h, t, y, rfl, -, hecall, -, hmeet⟩ := completed_meeting hinv.kernel hc
  cases hmeet with
  | sends hid hsender _ hsrc hlen _ _ =>
    obtain ⟨h8, frame, hreq, htag⟩ := tag_of_send hg hinv (hsender.symm.trans hs) hecall hid
    rw [h8] at hlen
    rw [← hsrc] at htag
    exact ⟨hlen, frame, hreq, htag⟩
  | receives _ _ _ _ _ hst hlen =>
    rw [hs] at hst
    obtain ⟨hphase, h8⟩ := hinv.sending _ _ _ hst
    have hholds := hg.holds hinv
    rw [hphase] at hholds
    rw [h8] at hlen
    exact ⟨hlen, hholds⟩

end Session

/-- In every run of the programs, a step that completes a transfer on endpoint 2 carries a message from
Task A to HSM Task, which becomes the last request; no other step changes the last request; and a step
that completes a transfer on endpoint 3 delivers to Task A the tag `compute_hmac_local` computes from
exactly the bytes of the last request, as far as its buffer takes it. -/
theorem signing_safe (P : Platform) (B : Build) (σ0 σ σ' : Session) (es : List Event) (ev : Event)
    (hσ0 : SessionInitial P σ0) (hrun : Run (Guarded (SessionStep P) (Honest P B)) σ0 es σ)
    (hstep : Guarded (SessionStep P) (Honest P B) σ ev σ') :
    (∀ p m, completed σ.sys.kernel ev = some (2, p, m) → p.sender = taskA ∧ p.receiver = hsmTask ∧
      σ'.request = some (m.bytes p.src p.len.toNat)) ∧
    ((∀ p m, completed σ.sys.kernel ev ≠ some (2, p, m)) → σ'.request = σ.request) ∧
    ∀ p m, completed σ.sys.kernel ev = some (3, p, m) → p.sender = hsmTask ∧ p.receiver = taskA ∧
      ∃ frame tag, σ.request = some frame ∧
        B.computeHmacLocal (B.readUnaligned frame) = some tag ∧ p.len.toNat ≤ tag.length ∧
        σ'.sys.kernel.mem.bytes p.dst p.len.toNat = tag.take p.len.toNat := by
  have hinv : SessionInv P B σ := hrun.invariant sessionInv_step (sessionInv_initial hσ0)
  obtain ⟨hnext, hg⟩ := hstep
  obtain ⟨s', hs', rfl⟩ := Option.map_eq_some_iff.mp hnext
  refine ⟨fun p m hc => ?_, fun hno => ?_, fun p m hc => ?_⟩
  · rcases completed_parties hinv.kernel hc with ⟨-, hs, hr⟩ | ⟨he, -⟩ | ⟨he, -⟩
    · exact ⟨hs, hr, by simp [Session.nextRequest, hc]⟩
    · cases he
    · exact absurd rfl he
  · show σ.nextRequest ev = σ.request
    unfold Session.nextRequest
    cases hc : completed σ.sys.kernel ev with
    | none => rfl
    | some c =>
      obtain ⟨e, p, m⟩ := c
      have he : e ≠ 2 := by
        rintro rfl
        exact hno p m hc
      simp only [Option.bind_some, if_neg he, Option.none_or]
  · rcases completed_parties hinv.kernel hc with ⟨he, -⟩ | ⟨-, hs, hr⟩ | ⟨-, he, -⟩
    · cases he
    · obtain ⟨hlen, frame, hreq, htag⟩ := tag_of_completed hg hinv hc hs
      refine ⟨hs, hr, frame, _, hreq, htag, ?_, ?_⟩
      · rw [length_bytes]
        exact hlen
      · rw [take_bytes m p.src hlen]
        exact bytes_of_completed hg hinv.kernel hs' hc (by rw [hs, hr]; decide)
    · exact absurd rfl he

/-! ### The frame of `task_a` -/

/-- The digests of the two inputs `test_frame` leads to, and the fields in the order they are declared
in. -/
def testBuild : Build where
  sha256 := fun msg i =>
    (if msg.length = 71 then
      0xdb4f91dd6fcd0af4d749b9fff221e19511a5b305a22efafdc0baa45e06db8c64#256
    else 0x93be03586f19b516a399978bddfc9915d27a6ff1b5078b63f4b85e93477d4e7d#256).extractLsb'
      (8 * (31 - i.val)) 8
  readUnaligned := fun bytes => ⟨bytes.getD 1 0 ++ bytes.getD 0 0, bytes.getD 2 0,
    fun i => bytes.getD (3 + i.val) 0⟩

def testFrame : List Byte := [0x3E, 0, 4, 0xAA, 0xBB, 0xCC, 0xDD, 0, 0, 0, 0, 0]

def testTag : List Byte := [0x93, 0xBE, 0x03, 0x58, 0x6F, 0x19, 0xB5, 0x16]

/-- `test_frame` on the stack of Task A and in `req_buf`, and the tag, on that of HSM Task. -/
def testMemory : Memory := fun a =>
  if InRange 0x3FC80400 12 a then testFrame.getD (a - 0x3FC80400).toNat 0
  else if InRange 0x3FC81200 12 a then testFrame.getD (a - 0x3FC81200).toNat 0
  else if InRange 0x3FC81300 8 a then testTag.getD (a - 0x3FC81300).toNat 0
  else 0

def testCall (sp id a0 a1 a2 : Word) : Event :=
  .trap 0 ⟨ECALL_UMODE, sp, 0⟩ ((((testMemory.writeWord (slot sp 13) id).writeWord (slot sp 6)
    a0).writeWord (slot sp 7) a1).writeWord (slot sp 8) a2)

def testExchange : List Event :=
  [testCall 0x3FC82400 1 0 0 0, testCall 0x3FC82400 1 0 0 0, testCall 0x3FC81100 7 0 0x3FC81200 12,
    testCall 0x3FC82400 1 0 0 0, testCall 0x3FC82400 6 2 0x3FC80400 12,
    testCall 0x3FC82400 7 3 0x3FC80500 8]

def testReply : Event := testCall 0x3FC81100 6 1 0x3FC81300 8

def bootSession : Session := ⟨bootSystem, .listening, none⟩

theorem signing_safe_test_frame :
    ∃ σ σ' p m tag, Run (Guarded (SessionStep packedPlatform) (Honest packedPlatform testBuild))
        bootSession testExchange σ ∧ SessionStep packedPlatform σ testReply σ' ∧
      completed σ.sys.kernel testReply = some (3, p, m) ∧ p.receiver = taskA ∧
      testBuild.computeHmacLocal (testBuild.readUnaligned testFrame) = some tag ∧
      σ'.sys.kernel.mem.bytes p.dst p.len.toNat = tag.take p.len.toNat := by
  have heval : ((testExchange.foldlM (fun σ ev => if Honest packedPlatform testBuild σ ev then
      σ.next packedPlatform ev else none) bootSession).bind fun σ =>
      if Honest packedPlatform testBuild σ testReply then
        (σ.next packedPlatform testReply).map fun _ =>
          decide (σ.request = some testFrame ∧
            (completed σ.sys.kernel testReply).map Prod.fst = some 3)
      else none) = some true := by
    decide +kernel
  obtain ⟨σ, hσ, hreply⟩ := Option.bind_eq_some_iff.mp heval
  split at hreply
  · rename_i hg
    obtain ⟨σ', hnext, hdec⟩ := Option.map_eq_some_iff.mp hreply
    obtain ⟨hreq, hcomp⟩ := of_decide_eq_true hdec
    obtain ⟨⟨e, p, m⟩, hc, rfl⟩ := Option.map_eq_some_iff.mp hcomp
    have hrun := Run.of_foldlM_guarded (Honest packedPlatform testBuild) hσ
    obtain ⟨-, -, hdeliver⟩ := signing_safe packedPlatform testBuild bootSession σ σ' testExchange
      testReply ⟨bootSystem_initial, rfl, rfl⟩ hrun ⟨hnext, hg⟩
    obtain ⟨-, hr, frame, tag, hframe, htag, -, hbytes⟩ := hdeliver p m hc
    obtain rfl : testFrame = frame := Option.some.inj (hreq.symm.trans hframe)
    exact ⟨σ, σ', p, m, tag, hrun, hnext, hc, hr, htag, hbytes⟩
  · cases hreply

end Cerberus.Signing
