import Cerberus.Kernel.Entry

/-! # Registers across traps

The machine around the handler: the registers and the pc of the code on each hart, the frame that
`trap_entry.s` makes of them and the restore, which start_first_task repeats. `gp` and `tp` are in
neither list. Between traps the code on a hart may change its registers and the memory in any way.
Assumed: the compiled handler leaves `gp` and `tp` as it finds them. -/
namespace Cerberus.Machine
open Kernel Scheduler Sync Memory Transition
set_option autoImplicit false

/-! ## Save and restore -/

/-- `x0` to `x31`, and the pc. -/
structure Context where
  x : Fin 32 → Word
  pc : Word

/-- The registers saved in a frame, in the order of their words: `ra`, `t0`-`t2`, `s0`, `s1`, `a0`-`a7`,
`s2`-`s11`, `t3`-`t6`. -/
def frameRegs : List (Fin 32) :=
  [1, 5, 6, 7, 8, 9, 10, 11, 12, 13, 14, 15, 16, 17, 18, 19, 20, 21, 22, 23, 24, 25, 26, 27, 28, 29,
    30, 31]

def frameWords (c : Context) (mstatus : Word) : List Word := frameRegs.map c.x ++ [c.pc, mstatus]

def saveContext (c : Context) (mstatus frame : Word) (m : Memory) : Memory :=
  m.storeWords frame 0 (frameWords c mstatus)

/-- The frame restored over the registers `c` of the handler. -/
def restoreContext (frame : Word) (m : Memory) (c : Context) : Context where
  x := fun r =>
    if r = 2 then frame + 128#32
    else if r ∈ frameRegs then m.readWord (slot frame (frameRegs.idxOf r))
    else c.x r
  pc := m.readWord (slot frame 28)

/-! ## The machine -/

/-- `ctx` is what the code on each hart has in its registers; while it runs, `mscratch` holds the top
of the hart's kernel stack. -/
structure MachineState where
  sys : System
  ctx : Hart → Context
  mscratch : Hart → Word

/-- `run` is any execution of the code on a hart up to its next trap, with the registers and the memory
it leaves. `nested` is a trap whose M-mode copy faults with the registers `c'`. -/
inductive MachineEvent where
  | run (h : Hart) (c : Context) (m : Memory)
  | trap (h : Hart) (mcause cycles mstatus : Word)
  | nested (h : Hart) (mcause cycles mstatus : Word) (c' : Context) (cycles' mstatus' : Word)
  | watchdog (ev : Event)

namespace MachineState
variable (s : MachineState) (h : Hart)

abbrev kernel : Kernel := s.sys.kernel

def regs : HartRegs := ⟨(s.ctx h).x 2, s.mscratch h⟩

/-- Where a trap on the hart makes its frame. -/
def frame : Word := (trapEntry (s.regs h)).mscratch

/-- The kernel its handler finds. -/
def found (mstatus : Word) : Kernel :=
  s.kernel.setMem (saveContext (s.ctx h) mstatus (s.frame h) s.kernel.mem)

/-- The handler has returned with the registers `r` of the assembly. -/
def restored (r : HartRegs) (k : Kernel) : MachineState where
  sys := { s.sys with kernel := k }
  ctx := Function.update s.ctx h (restoreContext (r.sp - 128#32) k.mem (s.ctx h))
  mscratch := Function.update s.mscratch h r.mscratch

def resume : Except Stop (HartRegs × Kernel) → Option MachineState
  | .ok (r, k) => some (s.restored h r k)
  | .error _ => none

/-- The Watchdog's steps in U-mode. -/
def watchdog (P : Platform) : Event → Option MachineState
  | .trap _ _ _ => none
  | .nestedTrap _ _ _ _ _ => none
  | ev => (s.sys.next P ev).map fun sys => { s with sys := sys }

def next (P : Platform) : MachineEvent → Option MachineState
  | .run h c m => some { s with
      sys := { s.sys with kernel := s.kernel.setMem m }
      ctx := Function.update s.ctx h c }
  | .trap h mcause cycles mstatus =>
    s.resume h (runTrap P h mcause cycles (s.regs h) (s.found h mstatus))
  | .nested h mcause cycles mstatus c' cycles' mstatus' =>
    match trapHandler P h ⟨mcause, s.frame h, cycles⟩ (s.found h mstatus) with
    | .error (.copyFault cause kf) =>
      let r : HartRegs := ⟨c'.x 2, s.frame h⟩
      s.resume h (runTrap P h cause cycles' r
        (kf.setMem (saveContext c' mstatus' (trapEntry r).mscratch kf.mem)))
    | _ => none
  | .watchdog ev => s.watchdog P ev

end MachineState

def MachineStep (P : Platform) (s : MachineState) (ev : MachineEvent) (s' : MachineState) : Prop :=
  s.next P ev = some s'

/-- `start_first_task` has restored the frame of the first task of each hart, over any registers. -/
def MachineInitial (P : Platform) (s : MachineState) : Prop :=
  Initial P s.sys ∧ ∀ h, s.mscratch h = P.kernelStack h ∧
    ∃ sp c, savedSpOf s.kernel (h, s.kernel.current h) = some sp ∧
      s.ctx h = restoreContext sp s.kernel.mem c

/-! ## Frames -/

section Frames
variable (c : Context) (mstatus frame : Word) (m : Memory)

theorem readWord_saveContext {i : ℕ} (hi : i < (frameWords c mstatus).length) :
    (saveContext c mstatus frame m).readWord (slot frame i) = (frameWords c mstatus)[i] := by
  have hread := readWord_storeWords m frame 0 (frameWords c mstatus) (by decide : 0 + 30 ≤ 32) hi
  rw [Nat.zero_add] at hread
  exact hread

theorem saveContext_outside {a : Word} (ha : ¬ InRange frame 128 a) :
    saveContext c mstatus frame m a = m a :=
  storeWords_outside m ha 0 _ (by decide : 0 + 30 ≤ 32)

end Frames

/-! ## Steps of the machine -/

/-- A handler has returned `sp` on the hart. -/
def MachineState.returned (s : MachineState) (h : Hart) (sp : Word) (k : Kernel) (w : Word) :
    MachineState where
  sys := { s.sys with kernel := k }
  ctx := Function.update s.ctx h (restoreContext sp k.mem (s.ctx h))
  mscratch := Function.update s.mscratch h w

theorem resume_runTrap {P : Platform} {s s' : MachineState} {h : Hart} {mcause cycles : Word}
    {r : HartRegs} {k : Kernel} (hs : s.resume h (runTrap P h mcause cycles r k) = some s') :
    ∃ sp k', trapHandler P h ⟨mcause, r.sp - 128#32, cycles⟩ k = .ok (sp, k') ∧
      s' = s.returned h sp k' r.mscratch := by
  cases hrun : runTrap P h mcause cycles r k with
  | error e =>
    rw [hrun] at hs
    cases hs
  | ok out =>
    rw [hrun] at hs
    obtain ⟨sp, hok, hr⟩ := runTrap_ok hrun
    refine ⟨sp, out.2, hok, ?_⟩
    rw [← Option.some.inj hs]
    unfold MachineState.restored
    rw [hr]
    have hsp : (trapExit sp (trapEntry r)).sp - 128#32 = sp := BitVec.add_sub_cancel ..
    rw [hsp]
    rfl

/-- What a step does. -/
inductive MachineCases (P : Platform) (s : MachineState) : MachineEvent → MachineState → Prop where
  | run (h : Hart) (c : Context) (m : Memory) : MachineCases P s (.run h c m)
      { s with sys := { s.sys with kernel := s.kernel.setMem m }, ctx := Function.update s.ctx h c }
  | trap {h : Hart} {mcause cycles mstatus sp : Word} {k' : Kernel}
      (hok : trapHandler P h ⟨mcause, s.frame h, cycles⟩ (s.found h mstatus) = .ok (sp, k')) :
      MachineCases P s (.trap h mcause cycles mstatus) (s.returned h sp k' (s.mscratch h))
  | nested {h : Hart} {mcause cycles mstatus cycles' mstatus' cause sp : Word} {c' : Context}
      {kf k' : Kernel}
      (hf : trapHandler P h ⟨mcause, s.frame h, cycles⟩ (s.found h mstatus) =
        .error (.copyFault cause kf))
      (hok : trapHandler P h ⟨cause, c'.x 2 - 128#32, cycles'⟩
        (kf.setMem (saveContext c' mstatus' (c'.x 2 - 128#32) kf.mem)) = .ok (sp, k')) :
      MachineCases P s (.nested h mcause cycles mstatus c' cycles' mstatus')
        (s.returned h sp k' (s.frame h))
  | watchdog {ev : Event} {sys : System} (hstep : Step P s.sys ev sys)
      (hev : ev.effect s.kernel = none) : MachineCases P s (.watchdog ev) { s with sys := sys }

theorem machineCases_of_step {P : Platform} {s s' : MachineState} {ev : MachineEvent}
    (hstep : MachineStep P s ev s') : MachineCases P s ev s' := by
  unfold MachineStep at hstep
  cases ev with
  | run h c m =>
    rw [← Option.some.inj hstep]
    exact .run h c m
  | trap h mcause cycles mstatus =>
    obtain ⟨sp, k', hok, rfl⟩ := resume_runTrap hstep
    exact .trap hok
  | nested h mcause cycles mstatus c' cycles' mstatus' =>
    unfold MachineState.next at hstep
    dsimp only at hstep
    split at hstep
    · rename_i cause kf hf
      obtain ⟨sp, k', hok, rfl⟩ := resume_runTrap hstep
      exact .nested hf hok
    · cases hstep
  | watchdog ev =>
    have hmap : ∀ ev : Event, ev.effect s.kernel = none →
        (s.sys.next P ev).map (fun sys => { s with sys := sys }) = some s' →
        MachineCases P s (.watchdog ev) s' := by
      intro ev hev hnext
      obtain ⟨sys, hsys, rfl⟩ := Option.map_eq_some_iff.mp hnext
      exact .watchdog hsys hev
    cases ev with
    | trap h t m => cases hstep
    | nestedTrap h t m t' m' => cases hstep
    | watchdogLock => exact hmap _ rfl hstep
    | watchdogRestartTaskC => exact hmap _ rfl hstep
    | watchdogRestartHsm => exact hmap _ rfl hstep
    | watchdogUnlock => exact hmap _ rfl hstep

/-- The machine's traps are those of the system, with the frame in the memory that the handler finds. -/
theorem step_of_trap {P : Platform} {s : MachineState} {h : Hart} {mcause cycles mstatus sp : Word}
    {k' : Kernel} (hok : trapHandler P h ⟨mcause, s.frame h, cycles⟩ (s.found h mstatus) = .ok (sp, k')) :
    Step P s.sys (.trap h ⟨mcause, s.frame h, cycles⟩ (s.found h mstatus).mem)
      { s.sys with kernel := k' } := step_of_ok hok

theorem step_of_nested {P : Platform} {s : MachineState} {h : Hart}
    {mcause cycles mstatus cause sp : Word} {t' : Trap} {m' : Memory} {kf k' : Kernel}
    (hf : trapHandler P h ⟨mcause, s.frame h, cycles⟩ (s.found h mstatus) = .error (.copyFault cause kf))
    (hcause : t'.mcause = cause) (hok : trapHandler P h t' (kf.setMem m') = .ok (sp, k')) :
    Step P s.sys (.nestedTrap h ⟨mcause, s.frame h, cycles⟩ (s.found h mstatus).mem t' m')
      { s.sys with kernel := k' } := step_of_copyFault hf hcause hok

theorem sysInv_machineStep {P : Platform} (s : MachineState) (ev : MachineEvent) (s' : MachineState)
    (hs : SysInv s.sys) (hstep : MachineStep P s ev s') : SysInv s'.sys := by
  cases machineCases_of_step hstep with
  | run h c m => exact ⟨hs.shape, hs.mutexLock, hs.pmp⟩
  | trap hok => exact sysInv_step _ _ _ hs (step_of_trap hok)
  | nested hf hok => exact sysInv_step _ _ _ hs (step_of_nested hf rfl hok)
  | watchdog hsys _ => exact sysInv_step _ _ _ hs hsys

theorem sysInv_machineRun {P : Platform} {s s' : MachineState} {es : List MachineEvent}
    (hs : MachineInitial P s) (hrun : Run (MachineStep P) s es s') : SysInv s'.sys :=
  hrun.invariant (I := fun s => SysInv s.sys) sysInv_machineStep (sysInv_initial hs.1)

end Cerberus.Machine
