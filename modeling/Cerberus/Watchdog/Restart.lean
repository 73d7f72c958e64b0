import Cerberus.Ipc.Endpoint
import Cerberus.Memory.Isolation

/-! # Restarts of Task C and HSM Task

The Watchdog rebuilds the stack of a terminated task and makes it `Ready`. If the task is not the
current one of its core at that moment, the frame of `initialize_stack` is what the task next runs
from: no other trap saves a stack pointer over it. If it still is the current one, the next switch on
that core saves the context from before the termination over the fresh one. -/
namespace Cerberus.Watchdog
open Kernel Scheduler Sync Memory Transition
set_option autoImplicit false

/-! ## The frame of `initialize_stack` -/

section InitializeStack
variable (sp start len entryFn : Word) (m : Memory)

/-- The loop of `initialize_stack`, for the first `n` words. -/
def clearFrame (n : ℕ) : Memory := (List.range n).foldl (fun m i => m.writeWord (slot sp i) 0#32) m

theorem clearFrame_succ (n : ℕ) :
    clearFrame sp m (n + 1) = (clearFrame sp m n).writeWord (slot sp n) 0#32 := by
  rw [clearFrame, List.range_succ, List.foldl_append]
  rfl

theorem initializeStack_snd : (initializeStack start len entryFn m).2 =
    ((clearFrame (alignedSp start len) m 32).writeWord (slot (alignedSp start len) 28)
      entryFn).writeWord (slot (alignedSp start len) 29) 0x80#32 := rfl

variable {sp start len entryFn m} {a : Word}

theorem clearFrame_inside {n : ℕ} (ha : InRange sp (4 * n) a) : clearFrame sp m n a = 0#8 := by
  induction n with
  | zero => exact absurd ha (Nat.not_lt_zero _)
  | succ n ih =>
    rw [clearFrame_succ]
    by_cases hn : InRange (slot sp n) 4 a
    · exact writeWord_zero _ hn
    · rw [writeWord_of_not_inRange _ _ hn]
      exact ih (ha.frame_succ.resolve_right hn)

theorem clearFrame_outside {n : ℕ} (hn : n ≤ 32) (ha : ¬ InRange sp 128 a) :
    clearFrame sp m n a = m a := by
  induction n with
  | zero => rfl
  | succ n ih =>
    rw [clearFrame_succ, writeWord_of_not_inRange _ _ fun hin => ha (hin.of_slot (by omega))]
    exact ih (by omega)

theorem initializeStack_outside (ha : ¬ InRange (alignedSp start len) 128 a) :
    (initializeStack start len entryFn m).2 a = m a := by
  rw [initializeStack_snd, writeWord_of_not_inRange _ _ fun hin => ha (hin.of_slot (by omega)),
    writeWord_of_not_inRange _ _ fun hin => ha (hin.of_slot (by omega))]
  exact clearFrame_outside le_rfl ha

/-- The frame does not depend on what the stack held before. -/
theorem initializeStack_inside {m' : Memory} (ha : InRange (alignedSp start len) 128 a) :
    (initializeStack start len entryFn m').2 a = (initializeStack start len entryFn m).2 a := by
  have hclear : clearFrame (alignedSp start len) m' 32 a = clearFrame (alignedSp start len) m 32 a := by
    rw [clearFrame_inside ha, clearFrame_inside ha]
  rw [initializeStack_snd, initializeStack_snd]
  exact writeWord_congr _ (writeWord_congr _ hclear)

theorem initializeStack_readWord {i : ℕ} (hi : i < 32) :
    (initializeStack start len entryFn m).2.readWord (slot (alignedSp start len) i) =
      if i = 29 then 0x80#32 else if i = 28 then entryFn else 0#32 := by
  rw [initializeStack_snd]
  by_cases h29 : i = 29
  · rw [h29, if_pos rfl, readWord_writeWord_self]
  · rw [if_neg h29, readWord_slot_writeWord_slot _ _ _ hi (by omega) h29]
    by_cases h28 : i = 28
    · rw [h28, if_pos rfl, readWord_writeWord_self]
    · rw [if_neg h28, readWord_slot_writeWord_slot _ _ _ hi (by omega) h28]
      have hzero : ∀ b, InRange (slot (alignedSp start len) i) 4 b →
          clearFrame (alignedSp start len) m 32 b = 0#8 := fun b hb =>
        clearFrame_inside (hb.of_slot (by omega))
      exact readWord_eq_zero hzero

end InitializeStack

/-! ## The fresh context -/

section Fresh
variable (P : Platform) (x : TaskId)

/-- The stack of the two tasks that are restarted. -/
def stackOf : StackTask := if x = hsmTask then .hsm else .taskC

/-- The stack pointer `initialize_stack` returns. -/
def freshSp : Word := alignedSp (P.layout.base (stackOf x)) 1024#32

/-- The words of the fresh frame: `mepc` is the entry function, `mstatus` has MPIE set and MPP clear,
the registers are 0. -/
def freshWord (i : ℕ) : Word :=
  if i = 29 then 0x80#32 else if i = 28 then P.entry (stackOf x) else 0#32

def freshMemory : Memory :=
  (initializeStack (P.layout.base (stackOf x)) 1024#32 (P.entry (stackOf x)) fun _ => 0#8).2

theorem freshMemory_readWord {i : ℕ} (hi : i < 32) :
    (freshMemory P x).readWord (slot (freshSp P x) i) = freshWord P x i :=
  initializeStack_readWord hi

end Fresh

/-! ## Where the fresh frame lies -/

theorem and_not_mask {w : Word} (hw : w.toNat % 16 = 0) : w &&& ~~~0xF#32 = w := by
  have hlow : ∀ i < 4, w.getLsbD i = false := by
    intro i hi
    have hbit : (w.toNat % 2 ^ 4).testBit i = false := by
      rw [show w.toNat % 2 ^ 4 = 0 from hw, Nat.zero_testBit]
    rw [Nat.testBit_mod_two_pow, decide_eq_true hi, Bool.true_and] at hbit
    exact hbit
  have hmask : ∀ i < 32, 4 ≤ i → (0xF#32).getLsbD i = false := by decide
  apply BitVec.eq_of_getLsbD_eq
  intro i hi
  rw [BitVec.getLsbD_and, BitVec.getLsbD_not]
  by_cases h4 : i < 4
  · rw [hlow i h4, Bool.false_and]
  · rw [hmask i hi (by omega), decide_eq_true hi]
    simp

/-- The top 128 bytes of the stack. -/
theorem inStack_of_frame {L : StackLayout} {st : StackTask} {a : Word}
    (ha : InRange (alignedSp (L.base st) 1024#32) 128 a) : L.InStack st a := by
  have hin := L.inSram st
  have hal := L.aligned st
  have hsum : (L.base st + 1024#32).toNat = (L.base st).toNat + 1024 := by
    rw [BitVec.toNat_add]
    show ((L.base st).toNat + 1024) % 2 ^ 32 = _
    omega
  have hsp : (alignedSp (L.base st) 1024#32).toNat = (L.base st).toNat + 896 := by
    rw [alignedSp, and_not_mask (by omega), BitVec.toNat_sub, hsum]
    show (2 ^ 32 - 128 + ((L.base st).toNat + 1024)) % 2 ^ 32 = _
    omega
  unfold InRange at ha
  unfold StackLayout.InStack
  rw [BitVec.toNat_sub, hsp] at ha
  have hlt := a.isLt
  omega

theorem not_inRange_of_ne {P : Platform} {x y : TaskId} {a : Word} (hxy : stackOf x ≠ stackOf y)
    (ha : InRange (freshSp P x) 128 a) : ¬ InRange (freshSp P y) 128 a := fun hb =>
  hxy ((inStack_of_frame ha).unique (inStack_of_frame hb))

/-! ## What a step does to a task that does not run -/

/-- The stack pointer that the handler of an event returns to the assembly. -/
def resumedSp (P : Platform) (k : Kernel) : Event → Option Word
  | .trap h t m => (trapHandler P h t (k.setMem m)).toOption.map Prod.fst
  | .nestedTrap h t m t' m' =>
    match trapHandler P h t (k.setMem m) with
    | .error (.copyFault _ kf) => (trapHandler P h t' (kf.setMem m')).toOption.map Prod.fst
    | _ => none
  | _ => none

theorem savedSpOf_restart (P : Platform) (st : StackTask) (y : TaskId) (k : Kernel) (x : TaskId) :
    savedSpOf (restart P st y.1 y.2 k) x =
      if x = y then (savedSpOf k x).map fun _ => alignedSp (P.layout.base st) 1024#32
      else savedSpOf k x := by
  obtain ⟨h, i⟩ := x
  obtain ⟨h', j⟩ := y
  by_cases hh : h = h'
  · subst hh
    by_cases hi : i = j
    · subst hi
      simp [savedSpOf, restart, Kernel.setSched, savedSps, BitMapScheduler.setState,
        BitMapScheduler.setSavedSp, Function.comp_def, initializeStack]
    · rw [if_neg fun he => hi (Prod.mk.inj he).2]
      simp [savedSpOf, restart, Kernel.setSched, savedSps_setSavedSp _ _ _ _ hi]
  · rw [if_neg fun he => hh (Prod.mk.inj he).1]
    simp [savedSpOf, restart, Kernel.setSched, Kernel.setMem, hh]

/-- What an event does to the contexts: a handler returns, a task is restarted, or neither. -/
inductive Contexts (P : Platform) (k : Kernel) (ev : Event) (k' : Kernel) : Prop where
  | returns {h : Hart} {userSp sp : Word} (hsp : resumedSp P k ev = some sp)
      (hresumes : Resumes h userSp k sp k') (honly : CallerOnly h k k')
      (hothers : ∀ h', h' ≠ h → k'.current h' = k.current h')
  | restarts {y : TaskId} {k1 : Kernel} (hy : y = taskC ∨ y = hsmTask)
      (hnow : ev.restartsNow k = some y) (hk' : k' = restart P (stackOf y) y.1 y.2 k1)
      (hscheds : k1.scheds = k.scheds) (hmem : k1.mem = k.mem)
  | same (hnow : ev.restartsNow k = none) (hscheds : k'.scheds = k.scheds) (hmem : k'.mem = k.mem)

theorem contexts_of_step {P : Platform} {s s' : System} {ev : Event} (hs : SysInv s)
    (hstep : Step P s ev s') : Contexts P s.kernel ev s'.kernel := by
  have hcases := stepKernel_of_step hstep
  generalize s'.kernel = k' at hcases
  cases hcases with
  | @trap h t m sp k' hok =>
    obtain ⟨heff, -, honly⟩ := effectStep_of_ok (hs.sound m) hok
    have hu : Untouched s.kernel (s.kernel.setMem m) := .of_eq rfl rfl
    refine .returns ?_ ((resumes_of_ok (hs.sound m) hok).after hu) (honly.after hu) fun h' hh => ?_
    · simp only [resumedSp, hok]
      rfl
    · exact heff.leads.current_of_ne hh
  | @nested h t t' m m' kf k' sp hf hok =>
    obtain ⟨hsound, -, hview, hu⟩ := hs.nested hf m'
    obtain ⟨heff, -, honly⟩ := effectStep_of_ok hsound hok
    refine .returns ?_ ((resumes_of_ok hsound hok).after hu) (honly.after hu) fun h' hh => ?_
    · simp only [resumedSp, hf, hok]
      rfl
    · rw [← hu.current]
      exact heff.leads.current_of_ne hh
  | lock hruns => exact .same rfl rfl rfl
  | restartTaskC hruns =>
    unfold Kernel.restartTaskC
    split
    · rename_i hc
      exact .restarts (Or.inl rfl) (if_pos hc) rfl rfl rfl
    · rename_i hc
      exact .same (if_neg hc) rfl rfl
  | restartHsm hruns =>
    unfold Kernel.restartHsm
    split
    · rename_i hc
      exact .restarts (Or.inr rfl) (if_pos hc) rfl rfl rfl
    · rename_i hc
      exact .same (if_neg hc) rfl rfl
  | unlock hruns => exact .same rfl rfl rfl

section Contexts
variable {P : Platform} {k k' : Kernel} {ev : Event} {x : TaskId}

/-- A stack pointer stays while the task neither runs nor is restarted. -/
theorem Contexts.savedSp_eq (hc : Contexts P k ev k') (haway : k.current x.1 ≠ x.2)
    (hnot : ev.restartsNow k ≠ some x) : savedSpOf k' x = savedSpOf k x := by
  cases hc with
  | @returns h userSp sp hres hresumes honly hothers =>
    refine honly.savedSp x ?_
    rintro rfl
    exact haway rfl
  | @restarts y k1 hy hnow hk' hscheds hmem =>
    rw [hk', savedSpOf_restart, if_neg, savedSpOf, hscheds]
    · rfl
    · rintro rfl
      exact hnot hnow
  | same hnow hscheds hmem => rw [savedSpOf, hscheds, savedSpOf]

/-- A fresh stack pointer stays while the task does not run. -/
theorem Contexts.savedSp (hc : Contexts P k ev k') (haway : k.current x.1 ≠ x.2)
    (hsp : savedSpOf k x = some (freshSp P x)) : savedSpOf k' x = some (freshSp P x) := by
  by_cases hnot : ev.restartsNow k = some x
  · cases hc with
    | @returns h userSp sp hres hresumes honly hothers =>
      rw [honly.savedSp x, hsp]
      rintro rfl
      exact haway rfl
    | @restarts y k1 hy hnow hk' hscheds hmem =>
      obtain rfl : x = y := Option.some.inj (hnot.symm.trans hnow)
      have hk1 : savedSpOf k1 x = some (freshSp P x) := by
        rw [savedSpOf, hscheds]
        exact hsp
      rw [hk', savedSpOf_restart, if_pos rfl, hk1]
      rfl
    | same hnow hscheds hmem =>
      rw [hnot] at hnow
      cases hnow
  · rw [hc.savedSp_eq haway hnot, hsp]

/-- The step that makes a task run resumes its saved context. -/
theorem Contexts.resumes (hc : Contexts P k ev k') (haway : k.current x.1 ≠ x.2)
    (hruns : k'.current x.1 = x.2) : resumedSp P k ev = savedSpOf k x := by
  cases hc with
  | @returns h userSp sp hres hresumes honly hothers =>
    have hh : x.1 = h := by
      by_contra hne
      exact haway ((hothers x.1 hne).symm.trans hruns)
    subst hh
    rcases hresumes with ⟨-, hcur⟩ | ⟨hnew, -⟩
    · exact absurd (hcur.symm.trans hruns) haway
    · rw [hres, ← hnew, hruns]
  | @restarts y k1 hy hnow hk' hscheds hmem =>
    have hcur : k'.current = k.current := by
      rw [hk']
      have hview := congrArg View.current (view_restart P (stackOf y) y.1 y.2 k1)
      refine hview.trans ?_
      funext h
      show (k1.scheds h).currentPartitionIdx = _
      rw [hscheds]
      rfl
    rw [hcur] at hruns
    exact absurd hruns haway
  | same hnow hscheds hmem =>
    rw [Kernel.current, hscheds] at hruns
    exact absurd hruns haway

end Contexts

/-! ## The frame until the task runs -/

/-- The trap an event ends in, with the memory its handler finds. -/
def lastTrap : Event → Option (Hart × Trap × Memory)
  | .trap h t m => some (h, t, m)
  | .nestedTrap h _ _ t' m' => some (h, t', m')
  | _ => none

/-- No frame, store or message of another task lies in the fresh frame of `x`. -/
structure Spares (P : Platform) (x : TaskId) (s : System) (ev : Event) : Prop where
  frames : ∀ y sp a, y ≠ x → savedSpOf s.kernel y = some sp → InRange (freshSp P x) 128 a →
    ¬ InRange sp 128 a
  stores : ∀ h t m a, lastTrap ev = some (h, t, m) → InRange (freshSp P x) 128 a →
    m a = s.kernel.mem a ∧ ¬ InRange t.userSp 128 a
  messages : ∀ h t m p a, ev = .trap h t m → transferPlan (s.kernel.setMem m) h t = some p →
    InRange (freshSp P x) 128 a → ¬ InRange p.dst p.len.toNat a

/-- The frame is the one of `initialize_stack`, and no partner will write a result into it. -/
structure FreshFrame (P : Platform) (x : TaskId) (k : Kernel) : Prop where
  idle : ∀ st, (view k).state x = some st → ¬ WaitsForPartner st
  frame : ∀ a, InRange (freshSp P x) 128 a → k.mem a = freshMemory P x a

section Frame
variable {P : Platform} {x : TaskId} {s s' : System} {ev : Event}

theorem freshMemory_a0 {a : Word} (ha : InRange (slot (freshSp P x) 6) 4 a) :
    freshMemory P x a = 0#8 := by
  unfold freshSp at ha
  have hne : ∀ i, 7 ≤ i → i < 32 →
      ¬ InRange (slot (alignedSp (P.layout.base (stackOf x)) 1024#32) i) 4 a := by
    intro i hi hlt
    exact inRange_slot_ne (by omega) hlt (by omega) ha
  rw [freshMemory, initializeStack_snd, writeWord_of_not_inRange _ _ (hne 29 (by omega) (by omega)),
    writeWord_of_not_inRange _ _ (hne 28 (by omega) (by omega))]
  exact clearFrame_inside (ha.of_slot (by omega))

/-- A trap of another task spares the fresh frame of `x`. A mutex hand-off to `x` writes the 0 that
is there already. -/
theorem FreshFrame.spared {k : Kernel} {h : Hart} {t : Trap} (hk : Sound k) (hf : FreshFrame P x k)
    (haway : k.current x.1 ≠ x.2) (hsaved : savedSpOf k x = some (freshSp P x)) {a : Word}
    (ha : InRange (freshSp P x) 128 a)
    (hframes : ∀ y sp, y ≠ x → savedSpOf k y = some sp → ¬ InRange sp 128 a)
    (hframe : ¬ InRange t.userSp 128 a)
    (hcopy : ∀ p, transferPlan k h t = some p → ¬ InRange p.dst p.len.toNat a) : Spared k h t a where
  frame := hframe
  copy := hcopy
  partner := fun p y sp hp hy hsp hin => by
    by_cases hyx : y = x
    · subst hyx
      obtain ⟨e, z, -, -, hopp⟩ := Ipc.transferPlan_spec hk hp
      have hrun : y ≠ (view k).running h := by
        rintro rfl
        exact haway rfl
      cases hopp with
      | sends hsender hreceiver _ hz =>
        rcases hy with rfl | rfl
        · exact hrun hsender
        · rw [← hreceiver] at hz
          exact hf.idle _ hz trivial
      | receives hsender hreceiver _ hz =>
        rcases hy with rfl | rfl
        · rw [← hsender] at hz
          exact hf.idle _ hz trivial
        · exact hrun hreceiver
    · exact hframes y sp hyx hsp (hin.of_slot (by omega))
  heir := fun y sp hy hsp hin => by
    by_cases hyx : y = x
    · rw [hyx, hsaved] at hsp
      rw [← Option.some.inj hsp] at hin
      rw [hf.frame a ha, freshMemory_a0 hin]
    · exact absurd (hin.of_slot (by omega)) (hframes y sp hyx hsp)

theorem FreshFrame.of_restart {k : Kernel} {y : TaskId} (hx : x = taskC ∨ x = hsmTask)
    (hy : y = taskC ∨ y = hsmTask)
    (hf : x ≠ y → FreshFrame P x k) : FreshFrame P x (restart P (stackOf y) y.1 y.2 k) := by
  by_cases hxy : x = y
  · subst hxy
    refine ⟨fun st hst hw => ?_, fun a ha => initializeStack_inside ha⟩
    rw [view_restart, View.state_setState, if_pos rfl] at hst
    obtain ⟨_, -, rfl⟩ := Option.map_eq_some_iff.mp hst
    exact hw
  · have hold := hf hxy
    have hstack : stackOf x ≠ stackOf y := by
      rcases hx with rfl | rfl
      · rcases hy with rfl | rfl
        · exact absurd rfl hxy
        · decide
      · rcases hy with rfl | rfl
        · decide
        · exact absurd rfl hxy
    refine ⟨fun st hst => ?_, fun a ha => ?_⟩
    · rw [view_restart, View.state_setState, if_neg hxy] at hst
      exact hold.idle st hst
    · have hout : (restart P (stackOf y) y.1 y.2 k).mem a = k.mem a :=
        initializeStack_outside (not_inRange_of_ne hstack ha)
      rw [hout, hold.frame a ha]

theorem FreshFrame.step (hs : SysInv s) (hx : x = taskC ∨ x = hsmTask) (hstep : Step P s ev s')
    (hspares : Spares P x s ev) (haway : s.kernel.current x.1 ≠ x.2)
    (hsaved : savedSpOf s.kernel x = some (freshSp P x)) (hf : FreshFrame P x s.kernel) :
    FreshFrame P x s'.kernel := by
  have hidle : ∀ st, (view s'.kernel).state x = some st → ¬ WaitsForPartner st := by
    intro st hst hw
    rcases Ipc.waits_of_step (step_cases hs hstep).1 hw hst with hold | ⟨h, -, rfl⟩
    · exact hf.idle st hold hw
    · exact haway rfl
  have hcases := stepKernel_of_step hstep
  generalize s'.kernel = k' at hcases hidle
  cases hcases with
  | @trap h t m sp k' hok =>
    refine ⟨hidle, fun a ha => ?_⟩
    obtain ⟨hmem, hframe⟩ := hspares.stores h t m a rfl ha
    have hfm : FreshFrame P x (s.kernel.setMem m) := by
      refine ⟨hf.idle, fun b hb => ?_⟩
      exact ((hspares.stores h t m b rfl hb).1).trans (hf.frame b hb)
    have hspared : Spared (s.kernel.setMem m) h t a := hfm.spared (hs.sound m) haway hsaved ha
      (fun y sp hy hsp => hspares.frames y sp a hy hsp ha) hframe
      fun p hp => hspares.messages h t m p a rfl hp ha
    rw [hs.trap_mem hok hspared]
    exact hfm.frame a ha
  | @nested h t t' m m' kf k' sp hfault hok =>
    refine ⟨hidle, fun a ha => ?_⟩
    obtain ⟨hmem, hframe⟩ := hspares.stores h t' m' a rfl ha
    rw [hs.nested_mem hfault hok hframe, hmem]
    exact hf.frame a ha
  | lock hruns => exact ⟨hidle, hf.frame⟩
  | restartTaskC hruns =>
    unfold Kernel.restartTaskC
    split
    · exact FreshFrame.of_restart (y := taskC) hx (Or.inl rfl) fun _ => ⟨hf.idle, hf.frame⟩
    · exact hf
  | restartHsm hruns =>
    unfold Kernel.restartHsm
    split
    · exact FreshFrame.of_restart (y := hsmTask) hx (Or.inr rfl) fun _ => hf
    · exact hf
  | unlock hruns => exact ⟨hidle, hf.frame⟩

end Frame

/-! ## Every run after a restart -/

/-- The core whose handler returns. -/
def returnsOn (ev : Event) : Option Hart := (lastTrap ev).map Prod.fst

/-- The steps in which no handler returns to `x`. -/
def Awaits (P : Platform) (x : TaskId) (s : System) (ev : Event) (s' : System) : Prop :=
  Step P s ev s' ∧ (returnsOn ev = some x.1 → s'.kernel.current x.1 ≠ x.2)

/-- Until a handler returns to `x`, its saved stack pointer is the fresh one; the first handler that
returns to `x` returns there, and does not save another context over it. -/
def RunsFresh (P : Platform) (x : TaskId) (s : System) : Prop :=
  ∀ fs s1, Run (Awaits P x) s fs s1 → savedSpOf s1.kernel x = some (freshSp P x) ∧
    ∀ ev s2, Step P s1 ev s2 → returnsOn ev = some x.1 → s2.kernel.current x.1 = x.2 →
      resumedSp P s1.kernel ev = some (freshSp P x) ∧ savedSpOf s2.kernel x = some (freshSp P x)

/-- The frame the first handler that returns to `x` leaves is the one of `initialize_stack`, if no
other task wrote into it since. -/
def FrameFresh (P : Platform) (x : TaskId) (s : System) : Prop :=
  ∀ fs s1 ev s2, Run (Guarded (Awaits P x) (Spares P x)) s fs s1 → Step P s1 ev s2 →
    Spares P x s1 ev → ∀ i < 32, s2.kernel.readFrame (freshSp P x) i = freshWord P x i

section Run
variable {P : Platform} {x : TaskId} {s s' : System} {ev : Event} {es : List Event}

theorem current_of_returnsOn_ne (hs : SysInv s) (hstep : Step P s ev s') {h : Hart}
    (hne : returnsOn ev ≠ some h) : s'.kernel.current h = s.kernel.current h := by
  show (view s'.kernel).current h = (view s.kernel).current h
  cases (step_cases hs hstep).1 with
  | @effect h' e hev heff =>
    refine heff.leads.current_of_ne ?_
    rintro rfl
    cases ev with
    | trap h t m => exact hne (congrArg some (Prod.mk.inj (Option.some.inj hev)).1)
    | nestedTrap h t m t' m' => exact hne (congrArg some (Prod.mk.inj (Option.some.inj hev)).1)
    | _ => cases hev
  | restart _ _ _ hv =>
    rw [hv]
    rfl
  | skip _ _ hv => rw [hv]

theorem returnsOn_of_restartsNow {k : Kernel} (hnow : ev.restartsNow k = some x) (h : Hart) :
    returnsOn ev ≠ some h := by
  cases ev with
  | trap h t m => cases hnow
  | nestedTrap h t m t' m' => cases hnow
  | _ => exact fun hret => by cases hret

theorem savedSpOf_isSome {k : Kernel} {st : TaskState} (hx : (view k).state x = some st) :
    (savedSpOf k x).isSome := by
  have htcb : ((k.scheds x.1).taskTable x.2).isSome := by
    rw [← view_state_isSome, hx]
    rfl
  simpa [savedSpOf, savedSps] using htcb

theorem resumedSp_of_restartsNow {k : Kernel} (hnow : ev.restartsNow k = some x) :
    resumedSp P k ev = none := by
  cases ev with
  | trap h t m => cases hnow
  | nestedTrap h t m t' m' => cases hnow
  | _ => rfl

/-- The Watchdog is the current task of core 0 when it restarts HSM Task. -/
theorem not_current_of_restartsNow (hstep : Step P s ev s')
    (hnow : ev.restartsNow s.kernel = some x) (haway : x = taskC → s.kernel.current 1 ≠ 3) :
    s.kernel.current x.1 ≠ x.2 := by
  rcases (restartsNow_cases hnow).1 with ⟨-, rfl⟩ | ⟨rfl, rfl⟩
  · exact haway rfl
  · have hkernel := stepKernel_of_step hstep
    generalize s'.kernel = k' at hkernel
    cases hkernel with
    | restartHsm hruns =>
      have hzero : s.kernel.current 0 = 0 := hruns
      show s.kernel.current 0 ≠ 4
      rw [hzero]
      decide

/-- What the restart itself establishes. -/
theorem restart_fresh (hs : SysInv s) (hstep : Step P s ev s')
    (hnow : ev.restartsNow s.kernel = some x) :
    (x = taskC ∨ x = hsmTask) ∧ savedSpOf s'.kernel x = some (freshSp P x) ∧
      FreshFrame P x s'.kernel := by
  have hsome : (savedSpOf s.kernel x).isSome := savedSpOf_isSome (restartsNow_cases hnow).2
  cases contexts_of_step hs hstep with
  | returns hsp _ _ _ =>
    rw [resumedSp_of_restartsNow hnow] at hsp
    cases hsp
  | @restarts y k1 hy hnow' hk' hscheds hmem =>
    obtain rfl := Option.some.inj (hnow.symm.trans hnow')
    rw [hk']
    refine ⟨hy, ?_, .of_restart hy hy fun hne => absurd rfl hne⟩
    obtain ⟨sp, hsp⟩ := Option.isSome_iff_exists.mp hsome
    have hk1 : savedSpOf k1 x = some sp := by
      rw [savedSpOf, hscheds]
      exact hsp
    rw [savedSpOf_restart, if_pos rfl, hk1]
    rfl
  | same hno _ _ =>
    rw [hno] at hnow
    cases hnow

/-- The restarted task is off the core and its saved stack pointer is the fresh one. -/
structure Fresh (P : Platform) (x : TaskId) (s : System) : Prop where
  inv : SysInv s
  away : s.kernel.current x.1 ≠ x.2
  saved : savedSpOf s.kernel x = some (freshSp P x)

theorem Fresh.step (hf : Fresh P x s) (hstep : Awaits P x s ev s') : Fresh P x s' where
  inv := sysInv_step s ev s' hf.inv hstep.1
  away := by
    by_cases hret : returnsOn ev = some x.1
    · exact hstep.2 hret
    · rw [current_of_returnsOn_ne hf.inv hstep.1 hret]
      exact hf.away
  saved := (contexts_of_step hf.inv hstep.1).savedSp hf.away hf.saved

theorem Fresh.runsFresh (hf : Fresh P x s) : RunsFresh P x s := by
  intro fs s1 hrun
  have hf1 : Fresh P x s1 := hrun.invariant (fun u ev u' hu hst => hu.step hst) hf
  refine ⟨hf1.saved, fun ev s2 hstep hret hruns => ?_⟩
  have hc := contexts_of_step hf1.inv hstep
  exact ⟨by rw [hc.resumes hf1.away hruns, hf1.saved], hc.savedSp hf1.away hf1.saved⟩

theorem Fresh.frameFresh (hf : Fresh P x s) (hx : x = taskC ∨ x = hsmTask)
    (hframe : FreshFrame P x s.kernel) : FrameFresh P x s := by
  intro fs s1 ev s2 hrun hstep hspares i hi
  have hf1 : Fresh P x s1 ∧ FreshFrame P x s1.kernel := by
    refine hrun.invariant (I := fun u => Fresh P x u ∧ FreshFrame P x u.kernel) ?_ ⟨hf, hframe⟩
    rintro u ev u' ⟨hu, hframe⟩ ⟨hst, hsp⟩
    exact ⟨hu.step hst, hframe.step hu.inv hx hst.1 hsp hu.away hu.saved⟩
  have hframe2 := hf1.2.step hf1.1.inv hx hstep hspares hf1.1.away hf1.1.saved
  rw [← freshMemory_readWord P x hi]
  exact readWord_congr fun b hb => hframe2.frame b (hb.of_slot (by omega))

/-- A task stays the current one until a handler returns on its core; that one goes on with the
interrupted context or saves it. -/
theorem stale_of_current (hs : SysInv s) (hcur : s.kernel.current x.1 = x.2)
    (hrun : Run (Guarded (Step P) fun _ ev => returnsOn ev ≠ some x.1) s es s') {t : Trap}
    {m : Memory} {s'' : System} (hstep : Step P s' (.trap x.1 t m) s'') :
    (resumedSp P s'.kernel (.trap x.1 t m) = some t.userSp ∧ s''.kernel.current x.1 = x.2) ∨
      savedSpOf s''.kernel x = some t.userSp := by
  have hs' : SysInv s' ∧ s'.kernel.current x.1 = x.2 := by
    refine hrun.invariant (I := fun u => SysInv u ∧ u.kernel.current x.1 = x.2) ?_ ⟨hs, hcur⟩
    rintro u ev u' ⟨hu, hc⟩ ⟨hst, hne⟩
    exact ⟨sysInv_step u ev u' hu hst, by rw [current_of_returnsOn_ne hu hst hne, hc]⟩
  obtain ⟨hinv, hcur'⟩ := hs'
  obtain ⟨k', hafter, rfl⟩ := Option.map_eq_some_iff.mp hstep
  obtain ⟨sp, hok⟩ := afterTrap_ok hafter
  have hsp : resumedSp P s'.kernel (.trap x.1 t m) = some sp := by
    simp only [resumedSp, hok]
    rfl
  have hcurm : (s'.kernel.setMem m).current x.1 = x.2 := hcur'
  rcases resumes_of_ok (hinv.sound m) hok with ⟨rfl, hsame⟩ | ⟨-, hold⟩
  · exact Or.inl ⟨hsp, hsame.trans hcurm⟩
  · rw [hcurm] at hold
    exact Or.inr hold

end Run

/-- After a restart in any reachable state: if Task C is not the current task of core 1 when it is
restarted, the restarted task next runs from the fresh context. If it is, the next handler that
returns on core 1 goes on with the interrupted context or saves it over the fresh one. -/
theorem restart_context_exact (P : Platform) (s0 s1 s2 : System) (es : List Event) (ev : Event)
    (x : TaskId) (hinit : Initial P s0) (hrun : Run (Step P) s0 es s1) (hstep : Step P s1 ev s2)
    (hnow : ev.restartsNow s1.kernel = some x) :
    ((x = taskC → s1.kernel.current 1 ≠ 3) → RunsFresh P x s2 ∧ FrameFresh P x s2) ∧
    (x = taskC → s1.kernel.current 1 = 3 → ∀ fs s3 t m s4,
      Run (Guarded (Step P) fun _ ev => returnsOn ev ≠ some 1) s2 fs s3 →
      Step P s3 (.trap 1 t m) s4 →
        (resumedSp P s3.kernel (.trap 1 t m) = some t.userSp ∧ s4.kernel.current 1 = 3) ∨
          savedSpOf s4.kernel x = some t.userSp) := by
  have hs1 : SysInv s1 := sysInv_run hinit hrun
  have hs2 : SysInv s2 := sysInv_step s1 ev s2 hs1 hstep
  have hcur : ∀ h, s2.kernel.current h = s1.kernel.current h := fun h =>
    current_of_returnsOn_ne hs1 hstep (returnsOn_of_restartsNow hnow h)
  refine ⟨fun haway => ?_, ?_⟩
  · obtain ⟨hx, hsaved, hframe⟩ := restart_fresh hs1 hstep hnow
    have hne : s2.kernel.current x.1 ≠ x.2 := by
      rw [hcur]
      exact not_current_of_restartsNow hstep hnow haway
    have hfresh : Fresh P x s2 := ⟨hs2, hne, hsaved⟩
    exact ⟨hfresh.runsFresh, hfresh.frameFresh hx hframe⟩
  · rintro rfl hc fs s3 t m s4 hrest hstep'
    exact stale_of_current (x := taskC) hs2 ((hcur 1).trans hc) hrest hstep'

/-- Core 1 takes the software interrupt of the termination; `userSp` is where it saved the frame. -/
def signalled (userSp : Word) : Event :=
  .trap 1 ⟨SOFTWARE_INTERRUPT, userSp, 0⟩ (freshMemory packedPlatform taskC)

/-- No other task's saved frame meets the one of Task C at `0x3FC80F80`. -/
def framesApart (k : Kernel) : Bool :=
  slots.all fun y => decide (y = taskC) || (savedSpOf k y).all fun sp =>
    decide (sp.toNat + 128 ≤ 0x3FC80F80 ∨ 0x3FC80F80 + 128 ≤ sp.toNat ∧ sp.toNat + 128 ≤ 2 ^ 32)

def frameInPlace (k : Kernel) : Bool :=
  decide (∀ j : ℕ, j < 128 → freshMemory packedPlatform taskC (0x3FC80F80 + BitVec.ofNat 32 j) =
    k.mem (0x3FC80F80 + BitVec.ofNat 32 j))

theorem freshSp_taskC : freshSp packedPlatform taskC = 0x3FC80F80 := by decide

theorem not_inRange_of_framesApart {k : Kernel} (happart : framesApart k = true) {y : TaskId}
    {sp a : Word} (hy : y ≠ taskC) (hsp : savedSpOf k y = some sp)
    (ha : InRange (freshSp packedPlatform taskC) 128 a) : ¬ InRange sp 128 a := by
  have hall := List.all_eq_true.mp happart y (Ipc.mem_slots y)
  rw [hsp, decide_eq_false hy, Bool.false_or] at hall
  rw [freshSp_taskC] at ha
  rcases of_decide_eq_true hall with hbelow | ⟨habove, hlt⟩
  · exact fun hin => inRange_disjoint hbelow (by decide) a hin ha
  · exact inRange_disjoint habove hlt a ha

/-- Task B runs while Task C is terminated and restarted; Task C is next and starts afresh. -/
theorem restart_context_exact_task_c :
    ∃ s1 s2 s3 s4, Run (Step packedPlatform) bootSystem [.watchdogLock, syscall 0 8 3 0 0] s1 ∧
      Step packedPlatform s1 .watchdogRestartTaskC s2 ∧
      Step packedPlatform s2 .watchdogUnlock s3 ∧
      Step packedPlatform s3 (signalled 0x3FC82400) s4 ∧ s4.kernel.current 1 = 3 ∧
      resumedSp packedPlatform s3.kernel (signalled 0x3FC82400) = some (freshSp packedPlatform taskC) ∧
      s4.kernel.readFrame (freshSp packedPlatform taskC) 28 = packedPlatform.entry .taskC := by
  obtain ⟨s1, hrun, hf⟩ := run_of_eval packedPlatform bootSystem
    [.watchdogLock, syscall 0 8 3 0 0]
    (fun s1 => (Event.restartsNow s1.kernel .watchdogRestartTaskC, s1.kernel.current 1,
      (s1.next packedPlatform .watchdogRestartTaskC).bind fun s2 =>
        (s2.next packedPlatform .watchdogUnlock).bind fun s3 =>
          (s3.next packedPlatform (signalled 0x3FC82400)).map fun s4 =>
            (framesApart s2.kernel && framesApart s3.kernel && frameInPlace s3.kernel,
              s4.kernel.current 1)))
    (some taskC, 2, some (true, 3)) (by decide +kernel)
  simp only [Prod.mk.injEq, Option.bind_eq_some_iff, Option.map_eq_some_iff, Bool.and_eq_true] at hf
  obtain ⟨hnow, hcur, s2, hs2, s3, hs3, s4, hs4, ⟨⟨hapart2, hapart3⟩, hmem⟩, hruns⟩ := hf
  obtain ⟨hfresh, hframe⟩ := (restart_context_exact packedPlatform bootSystem s1 s2 _ _ taskC
    bootSystem_initial hrun hs2 hnow).1 fun _ => by rw [hcur]; decide
  have hawaits : Awaits packedPlatform taskC s2 .watchdogUnlock s3 := ⟨hs3, fun hret => by cases hret⟩
  have hunlock : Spares packedPlatform taskC s2 .watchdogUnlock :=
    ⟨fun y sp a hy hsp ha => not_inRange_of_framesApart hapart2 hy hsp ha,
      fun _ _ _ _ hlast => (by cases hlast), fun _ _ _ _ _ hev => (by cases hev)⟩
  have hsignal : Spares packedPlatform taskC s3 (signalled 0x3FC82400) := by
    refine ⟨fun y sp a hy hsp ha => not_inRange_of_framesApart hapart3 hy hsp ha,
      fun h t m a hlast ha => ?_, fun h t m p a hev hp => ?_⟩
    · cases hlast
      rw [freshSp_taskC] at ha
      refine ⟨?_, inRange_disjoint (by decide) (by decide) a ha⟩
      obtain ⟨j, hj, rfl⟩ := inRange_iff.mp ha
      exact of_decide_eq_true hmem j hj
    · cases hev
      rw [transferPlan_of_ne (by decide)] at hp
      cases hp
  refine ⟨s1, s2, s3, s4, hrun, hs2, hs3, hs4, hruns, ?_, ?_⟩
  · exact ((hfresh _ s3 (Run.single hawaits)).2 _ s4 hs4 rfl hruns).1
  · exact hframe _ s3 _ s4 (Run.single ⟨hawaits, hunlock⟩) hs4 hsignal 28 (by decide)

/-- Task C, the current task of core 1, is terminated and restarted in one pass. The switch to Task B
saves the old context over the fresh one, and Task C goes on from there. -/
theorem restart_resumes_old_context :
    (∃ s1 s2 s3 s4, Run (Step packedPlatform) bootSystem
        [syscall 1 1 0 0 0, .watchdogLock, syscall 0 8 3 0 0] s1 ∧
      Step packedPlatform s1 .watchdogRestartTaskC s2 ∧
      Run (Step packedPlatform) s2 [.watchdogUnlock, signalled 0x3FC80E00] s3 ∧
      Step packedPlatform s3 (syscall 1 1 0 0 0) s4 ∧ s4.kernel.current 1 = 3 ∧
      resumedSp packedPlatform s3.kernel (syscall 1 1 0 0 0) = some 0x3FC80E00 ∧
      freshSp packedPlatform taskC = 0x3FC80F80) ∧
    ¬ ∀ P s0 s1 s2 es ev x, Initial P s0 → Run (Step P) s0 es s1 → Step P s1 ev s2 →
      ev.restartsNow s1.kernel = some x → RunsFresh P x s2 := by
  obtain ⟨s1, hrun, hf⟩ := run_of_eval packedPlatform bootSystem
    [syscall 1 1 0 0 0, .watchdogLock, syscall 0 8 3 0 0]
    (fun s1 => (Event.restartsNow s1.kernel .watchdogRestartTaskC,
      (s1.next packedPlatform .watchdogRestartTaskC).bind fun s2 =>
        (s2.next packedPlatform .watchdogUnlock).bind fun s3 =>
          (s3.next packedPlatform (signalled 0x3FC80E00)).bind fun s4 =>
            (s4.next packedPlatform (syscall 1 1 0 0 0)).map fun s5 =>
              (s4.kernel.current 1, resumedSp packedPlatform s4.kernel (syscall 1 1 0 0 0),
                s5.kernel.current 1)))
    (some taskC, some (2, some 0x3FC80E00, 3)) (by decide +kernel)
  simp only [Prod.mk.injEq, Option.bind_eq_some_iff, Option.map_eq_some_iff] at hf
  obtain ⟨hnow, s2, hs2, s3, hs3, s4, hs4, s5, hs5, hcur4, hsp, hruns⟩ := hf
  refine ⟨⟨s1, s2, s4, s5, hrun, hs2, ⟨s3, hs3, Run.single hs4⟩, hs5, hruns, hsp, freshSp_taskC⟩,
    fun hall => ?_⟩
  have hunlock : Awaits packedPlatform taskC s2 .watchdogUnlock s3 := ⟨hs3, fun hret => by cases hret⟩
  have hswitch : Awaits packedPlatform taskC s3 (signalled 0x3FC80E00) s4 := by
    refine ⟨hs4, fun _ => ?_⟩
    show s4.kernel.current 1 ≠ 3
    rw [hcur4]
    decide
  have hawaits : Run (Awaits packedPlatform taskC) s2 [.watchdogUnlock, signalled 0x3FC80E00] s4 :=
    ⟨s3, hunlock, Run.single hswitch⟩
  have hfresh := ((hall packedPlatform bootSystem s1 s2 _ _ taskC bootSystem_initial hrun hs2 hnow
    _ s4 hawaits).2 _ s5 hs5 rfl hruns).1
  rw [hsp, freshSp_taskC] at hfresh
  exact absurd (Option.some.inj hfresh) (by decide)

end Cerberus.Watchdog
