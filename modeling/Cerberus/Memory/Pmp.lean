import Mathlib.Tactic.FinCases
import Cerberus.Foundations.Napot
import Cerberus.Foundations.WordBytes

/-! # Physical memory protection

`kernel/src/memory/pmp.rs` and `init_memory_protection` of `kernel/src/main.rs`, over the PMP
registers of one hart. The register file and the access check follow the RISC-V privileged
specification: a write to a locked entry is ignored, the lowest-numbered matching entry decides,
and a U-mode access that matches no entry is denied. Only `pmpcfg0` and `pmpcfg1` (entries 0 to 7)
are ever written by this code. -/
namespace Cerberus.Memory
open Cerberus.Word
set_option autoImplicit false

/-! ## The registers and the hardware's rules -/

inductive PmpAddressMode where
  | off | tor | na4 | napot
  deriving DecidableEq, Repr

instance neZero_entries : NeZero 8 := ⟨by decide⟩

structure PmpRegs where
  pmpaddr : Fin 8 → Word
  pmpcfg0 : Word
  pmpcfg1 : Word

def bankByte (i : Fin 8) : Fin 4 := ⟨i.val % 4, Nat.mod_lt _ (by decide)⟩

namespace PmpRegs

def cfg (r : PmpRegs) (i : Fin 8) : Byte :=
  if i.val < 4 then getByte r.pmpcfg0 (bankByte i) else getByte r.pmpcfg1 (bankByte i)

def locked (r : PmpRegs) (i : Fin 8) : Bool := (r.cfg i).getLsbD 7

def mode (r : PmpRegs) (i : Fin 8) : PmpAddressMode :=
  match (r.cfg i).getLsbD 4, (r.cfg i).getLsbD 3 with
  | false, false => .off
  | false, true => .tor
  | true, false => .na4
  | true, true => .napot

def writeAddr (r : PmpRegs) (i : Fin 8) (v : Word) : PmpRegs :=
  if r.locked i then r else { r with pmpaddr := Function.update r.pmpaddr i v }

/-- `csrw pmpcfg0`: the bytes of locked entries keep their value. -/
def writeCfg0 (r : PmpRegs) (v : Word) : PmpRegs :=
  { r with pmpcfg0 := mergeBytes (fun k => (getByte r.pmpcfg0 k).getLsbD 7) r.pmpcfg0 v }

def writeCfg1 (r : PmpRegs) (v : Word) : PmpRegs :=
  { r with pmpcfg1 := mergeBytes (fun k => (getByte r.pmpcfg1 k).getLsbD 7) r.pmpcfg1 v }

def Matches (r : PmpRegs) (i : Fin 8) (a : Word) : Prop :=
  match r.mode i with
  | .off => False
  | .tor =>
    (if i = 0 then 0 else (r.pmpaddr (i - 1)).toNat) ≤ a.toNat / 4 ∧
      a.toNat / 4 < (r.pmpaddr i).toNat
  | .na4 => a.toNat / 4 = (r.pmpaddr i).toNat
  | .napot => Napot.Contains 32 (r.pmpaddr i).toNat a.toNat

instance (r : PmpRegs) (i : Fin 8) (a : Word) : Decidable (r.Matches i a) := by
  unfold Matches
  cases r.mode i <;> infer_instance

/-- The lowest-numbered matching entry. -/
def decides (r : PmpRegs) (a : Word) : Option (Fin 8) :=
  [0, 1, 2, 3, 4, 5, 6, 7].find? fun i => r.Matches i a

end PmpRegs

inductive Access where
  | read | write | execute
  deriving DecidableEq, Repr

def cfgPermits (c : Byte) : Access → Bool
  | .read => c.getLsbD 0
  | .write => c.getLsbD 1
  | .execute => c.getLsbD 2

def uModeMay (r : PmpRegs) (acc : Access) (a : Word) : Bool :=
  match r.decides a with
  | some i => cfgPermits (r.cfg i) acc
  | none => false

/-- An M-mode access is permitted: only locked entries constrain it. -/
def mModeMay (r : PmpRegs) (acc : Access) (a : Word) : Bool :=
  match r.decides a with
  | some i => !r.locked i || cfgPermits (r.cfg i) acc
  | none => true

/-! ## `configure_pmp` -/

structure PmpConfig where
  read : Bool
  write : Bool
  execute : Bool
  mode : PmpAddressMode
  locked : Bool

def PmpAddressMode.toByte : PmpAddressMode → Byte
  | off => 0
  | tor => 1
  | na4 => 2
  | napot => 3

def PmpConfig.toByte (c : PmpConfig) : Byte :=
  (if c.read then 1#8 <<< 0 else 0) ||| (if c.write then 1#8 <<< 1 else 0) |||
    (if c.execute then 1#8 <<< 2 else 0) ||| (c.mode.toByte <<< 3) |||
    (if c.locked then 1#8 <<< 7 else 0)

/-- Encoding formula: `pmpaddr = (base >> 2) | ((size / 2 - 1) >> 2)`. -/
def napotVal (baseAddr size : Word) : Word := (baseAddr >>> 2) ||| ((size / 2 - 1) >>> 2)

/-- The source panics for an entry above 6; the type leaves only the supported indices. -/
def configurePmp (entry : Fin 7) (baseAddr size : Word) (config : PmpConfig) (r : PmpRegs) :
    PmpRegs :=
  let i : Fin 8 := entry.castSucc
  let r1 := r.writeAddr i (napotVal baseAddr size)
  -- pmpcfg0 covers entries 0-3, pmpcfg1 covers 4-7 on RV32
  if i.val / 4 = 0 then r1.writeCfg0 (setByte r1.pmpcfg0 (bankByte i) config.toByte)
  else r1.writeCfg1 (setByte r1.pmpcfg1 (bankByte i) config.toByte)

/-! ## The task stacks -/

inductive StackTask where
  | watchdog | taskA | taskB | taskC | hsm
  deriving DecidableEq, Repr

namespace StackTask

def name : StackTask → String
  | watchdog => "Watchdog"
  | taskA => "Task A"
  | taskB => "Task B"
  | taskC => "Task C"
  | hsm => "HSM Task"

def entry : StackTask → Fin 7
  | watchdog => 1
  | taskA => 2
  | taskB => 4
  | taskC => 5
  | hsm => 6

end StackTask

/-- Where the linker put the five stacks: pairwise disjoint 1024-aligned blocks of SRAM. -/
structure StackLayout where
  base : StackTask → Word
  aligned : ∀ t, (base t).toNat % 1024 = 0
  inSram : ∀ t, 0x3FC80000 ≤ (base t).toNat ∧ (base t).toNat + 1024 ≤ 0x3FD00000
  disjoint : ∀ t u, t ≠ u →
    (base t).toNat + 1024 ≤ (base u).toNat ∨ (base u).toNat + 1024 ≤ (base t).toNat

def StackLayout.InStack (L : StackLayout) (t : StackTask) (a : Word) : Prop :=
  (L.base t).toNat ≤ a.toNat ∧ a.toNat < (L.base t).toNat + 1024

instance (L : StackLayout) (t : StackTask) (a : Word) : Decidable (L.InStack t a) := by
  unfold StackLayout.InStack
  infer_instance

def blockConfig : PmpConfig := ⟨false, false, false, .napot, false⟩

def offConfig : PmpConfig := ⟨false, false, false, .off, false⟩

def flashConfig : PmpConfig := ⟨true, false, true, .napot, true⟩

def sramConfig : PmpConfig := ⟨true, true, false, .napot, false⟩

def initMemoryProtection (L : StackLayout) (r : PmpRegs) : PmpRegs :=
  let r := configurePmp 0 0x42000000 (4 * 1024 * 1024) flashConfig r
  let r := configurePmp 1 (L.base .watchdog) 1024 blockConfig r
  let r := configurePmp 2 (L.base .taskA) 1024 blockConfig r
  let r := configurePmp 4 (L.base .taskB) 1024 blockConfig r
  let r := configurePmp 5 (L.base .taskC) 1024 blockConfig r
  let r := configurePmp 6 (L.base .hsm) 1024 blockConfig r
  configurePmp 3 0x3FC80000 (512 * 1024) sramConfig r

/-- One round of the loop in `reprogram_pmp_stack`. -/
def reprogramEntry (L : StackLayout) (activeTaskName : String) (r : PmpRegs) (t : StackTask) :
    PmpRegs :=
  if t.name = activeTaskName then configurePmp t.entry 0 1024 offConfig r
  else configurePmp t.entry (L.base t) 1024 blockConfig r

def reprogramPmpStack (L : StackLayout) (activeTaskName : String) (r : PmpRegs) : PmpRegs :=
  [.watchdog, .taskA, .taskB, .taskC, .hsm].foldl (reprogramEntry L activeTaskName) r

/-- The registers after boot and a sequence of calls of `reprogram_pmp_stack`. -/
def pmpAfter (L : StackLayout) (r : PmpRegs) (names : List String) : PmpRegs :=
  names.foldl (fun r name => reprogramPmpStack L name r) (initMemoryProtection L r)

/-- The reset state of the specification: every entry off and unlocked. -/
def PmpRegs.Reset (r : PmpRegs) : Prop := ∀ i, r.mode i = .off ∧ r.locked i = false

def packedLayout : StackLayout where
  base
    | .watchdog => 0x3FC80000
    | .taskA => 0x3FC80400
    | .taskB => 0x3FC80800
    | .taskC => 0x3FC80C00
    | .hsm => 0x3FC81000
  aligned := by intro t; cases t <;> decide
  inSram := by intro t; cases t <;> decide
  disjoint := by intro t u h; cases t <;> cases u <;> first | exact absurd rfl h | decide

def zeroRegs : PmpRegs := ⟨fun _ => 0, 0, 0⟩

theorem zeroRegs_reset : zeroRegs.Reset := by
  intro i
  fin_cases i <;> exact ⟨rfl, rfl⟩

end Cerberus.Memory
