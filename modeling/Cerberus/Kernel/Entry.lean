import Cerberus.Kernel.Reachable

/-! # Trap entry and exit

`trap_entry.s`: how a trap gets from the interrupted stack to the handler's and back. `mscratch`
holds the top of the hart's kernel stack while a task runs, and the interrupted frame while the
handler runs. The registers saved in the frame are part of the memory the handler finds. -/
namespace Cerberus.Kernel
open Scheduler Sync Memory
set_option autoImplicit false

/-- The two registers `_trap_entry` moves between. -/
structure HartRegs where
  sp : Word
  mscratch : Word

def HartRegs.swap (r : HartRegs) : HartRegs := ⟨r.mscratch, r.sp⟩

/-- From the trap to `jal trap_handler`: the frame is made below the interrupted stack pointer, and
its address passed in `mscratch`. -/
def trapEntry (r : HartRegs) : HartRegs :=
  let r := r.swap.swap
  let r := { r with sp := r.sp - 128#32 }
  r.swap

/-- From the handler's return with `a0` to `mret`. -/
def trapExit (a0 : Word) (r : HartRegs) : HartRegs :=
  let r := { r with mscratch := a0 }
  let r := r.swap
  { r with sp := r.sp + 128#32 }

/-- One trap, from the registers of the interrupted code to those of the code it resumes. -/
def runTrap (P : Platform) (h : Hart) (mcause cycles : Word) (r : HartRegs) (k : Kernel) :
    Except Stop (HartRegs × Kernel) :=
  let r1 := trapEntry r
  match trapHandler P h ⟨mcause, r1.mscratch, cycles⟩ k with
  | .ok (sp, k') => .ok (trapExit sp r1, k')
  | .error e => .error e

/-- A trap whose copy faults while the handler's stack pointer is `sp`: the fault is a trap of its
own, with the memory `m'`. `none` if the copy does not fault. -/
def runNested (P : Platform) (h : Hart) (mcause cycles : Word) (r : HartRegs) (k : Kernel)
    (sp cycles' : Word) (m' : Memory) : Option (Except Stop (HartRegs × Kernel)) :=
  let r1 := trapEntry r
  match trapHandler P h ⟨mcause, r1.mscratch, cycles⟩ k with
  | .error (.copyFault cause kf) =>
    some (runTrap P h cause cycles' { r1 with sp := sp } (kf.setMem m'))
  | _ => none

section Registers
variable {P : Platform} {h : Hart} {mcause cycles : Word} {r r' : HartRegs} {k k' : Kernel}

@[simp] theorem trapEntry_mscratch (r : HartRegs) : (trapEntry r).mscratch = r.sp - 128#32 := rfl

theorem runTrap_ok (hok : runTrap P h mcause cycles r k = .ok (r', k')) :
    ∃ sp, trapHandler P h ⟨mcause, r.sp - 128#32, cycles⟩ k = .ok (sp, k') ∧
      r' = trapExit sp (trapEntry r) := by
  unfold runTrap at hok
  simp only [trapEntry_mscratch] at hok
  split at hok
  · rename_i sp k1 htrap
    obtain ⟨hr, hk⟩ := Prod.ext_iff.mp (Except.ok.inj hok)
    have hk1 : k1 = k' := hk
    exact ⟨sp, hk1 ▸ htrap, hr.symm⟩
  · cases hok

/-- An ordinary trap leaves `mscratch` as it was. -/
theorem runTrap_mscratch (hok : runTrap P h mcause cycles r k = .ok (r', k')) :
    r'.mscratch = r.mscratch := by
  obtain ⟨sp, -, rfl⟩ := runTrap_ok hok
  rfl

/-- A nested trap is a step of the system, and leaves in `mscratch` the frame of the outer trap. -/
theorem runNested_ok {sp cycles' : Word} {m' : Memory}
    (hok : runNested P h mcause cycles r k sp cycles' m' = some (.ok (r', k'))) :
    (∃ cause, afterNested P h ⟨mcause, r.sp - 128#32, cycles⟩ ⟨cause, sp - 128#32, cycles'⟩ m' k =
      some k') ∧ r'.mscratch = r.sp - 128#32 := by
  unfold runNested at hok
  simp only [trapEntry_mscratch] at hok
  split at hok
  · rename_i cause kf hf
    have hrun := Option.some.inj hok
    obtain ⟨sp', htrap, -⟩ := runTrap_ok hrun
    refine ⟨⟨cause, ?_⟩, runTrap_mscratch hrun⟩
    simp only [afterNested, hf, if_true, afterTrap]
    have htrap' : trapHandler P h ⟨cause, sp - 128#32, cycles'⟩ (kf.setMem m') = .ok (sp', k') := htrap
    rw [htrap']
  · cases hok

end Registers

end Cerberus.Kernel
