import Cerberus.Machine.Registers
import Cerberus.Watchdog.Restart

/-! # The initial frame of a task

`initialize_stack` of `scheduler/src/tcb.rs` on targets of any word size: the frame is sized from the
width of `usize`, and the slice only gives the place. On the 32-bit target it is the function the
kernel's model runs, and `trap_entry.s` restores what it wrote. -/
namespace Cerberus.Machine
open Kernel Scheduler Memory Watchdog
set_option autoImplicit false

/-! ## `initialize_stack` with words of `n` bytes -/

/-- `usize` of a target whose words have `n` bytes. -/
abbrev Usize (n : ℕ) := BitVec (8 * n)

/-- `&mut [u8]`; the end of a slice is an address. -/
structure StackSlice (n : ℕ) where
  start : Usize n
  len : Usize n
  bounded : start.toNat + len.toNat < 2 ^ (8 * n)

/-- `write_volatile` of one little-endian `usize`. -/
def writeUsize {n : ℕ} (m : Usize n → Byte) (a v : Usize n) : Usize n → Byte := fun b =>
  if (b - a).toNat < n then v.extractLsb' (8 * (b - a).toNat) 8 else m b

/-- `frame.add(i)`. -/
def frameAdd {n : ℕ} (frame : Usize n) (i : ℕ) : Usize n := frame + BitVec.ofNat (8 * n) (n * i)

namespace StackSlice
variable {n : ℕ} (stack : StackSlice n)

/-- The address after the last byte. -/
def stop : ℕ := stack.start.toNat + stack.len.toNat

def Contains (a : Usize n) : Prop := stack.start.toNat ≤ a.toNat ∧ a.toNat < stack.stop

def alignedSp : Usize n :=
  let stackEnd := stack.start + stack.len
  let frameBytes := BitVec.ofNat (8 * n) (32 * n)
  (stackEnd &&& ~~~0xF#(8 * n)) - frameBytes

def initializeStack (entryFn : Usize n) (m : Usize n → Byte) : Usize n × (Usize n → Byte) :=
  let frame := stack.alignedSp
  let cleared := (List.range 32).foldl (fun m i => writeUsize m (frameAdd frame i) 0) m
  (frame, writeUsize (writeUsize cleared (frameAdd frame 28) entryFn) (frameAdd frame 29) 0x80)

end StackSlice

/-! ## The 32-bit target -/

theorem writeUsize_four (m : Memory) (a v : Word) : writeUsize (n := 4) m a v = m.writeWord a v := by
  funext b
  unfold writeUsize
  by_cases hb : InRange a 4 b
  · refine (if_pos hb).trans ?_
    obtain ⟨j, hj, rfl⟩ := inRange_iff.mp hb
    rw [writeWord_apply m a v hj]
    have hoff : (a + BitVec.ofNat 32 j - a).toNat = j := by
      rw [BitVec.add_comm, BitVec.add_sub_cancel, BitVec.toNat_ofNat]
      omega
    exact congrArg (fun i => v.extractLsb' (8 * i) 8) hoff
  · exact (if_neg hb).trans (writeWord_of_not_inRange m v hb).symm

theorem initializeStack_four (stack : StackSlice 4) (entryFn : Word) (m : Memory) :
    stack.initializeStack entryFn m = Scheduler.initializeStack stack.start stack.len entryFn m := by
  unfold StackSlice.initializeStack Scheduler.initializeStack
  simp only [writeUsize_four]
  rfl

/-- `lw t1, 116(sp)` and `csrw mstatus, t1` of the restore. -/
def restoredMstatus (frame : Word) (m : Memory) : Word := m.readWord (slot frame 29)

/-! ## Where the frame lies -/

section Place
variable {n : ℕ}

/-- Rounding down to 16 by a mask. -/
theorem toNat_and_not_mask {w : ℕ} (x : BitVec w) : (x &&& ~~~0xF#w).toNat = 16 * (x.toNat / 16) := by
  have hshift : x &&& ~~~0xF#w = (x >>> 4) <<< 4 := by
    apply BitVec.eq_of_getLsbD_eq
    intro i hi
    have hmask : (0xF#w).getLsbD i = decide (i < 4) := by
      rw [BitVec.getLsbD_ofNat, decide_eq_true hi, Bool.true_and]
      exact Nat.testBit_two_pow_sub_one 4 i
    rw [BitVec.getLsbD_and, BitVec.getLsbD_not, hmask, BitVec.getLsbD_shiftLeft,
      BitVec.getLsbD_ushiftRight, decide_eq_true hi]
    by_cases h4 : i < 4
    · simp [h4]
    · rw [show 4 + (i - 4) = i by omega]
      simp [h4]
  have hx := x.isLt
  rw [hshift, BitVec.toNat_shiftLeft, BitVec.toNat_ushiftRight, Nat.shiftRight_eq_div_pow,
    Nat.shiftLeft_eq, Nat.mod_eq_of_lt (by omega)]
  omega

/-- The frame ends at the end of the slice, rounded down. -/
theorem StackSlice.toNat_alignedSp (stack : StackSlice n) (hn : n = 4 ∨ n = 8)
    (hlen : 32 * n ≤ stack.len.toNat) :
    stack.alignedSp.toNat = 16 * (stack.stop / 16) - 32 * n := by
  have hend : (stack.start + stack.len).toNat = stack.stop := BitVec.toNat_add_of_lt stack.bounded
  have hframe : (BitVec.ofNat (8 * n) (32 * n)).toNat = 32 * n := by
    rw [BitVec.toNat_ofNat]
    obtain rfl | rfl := hn <;> rfl
  have hle : BitVec.ofNat (8 * n) (32 * n) ≤ (stack.start + stack.len) &&& ~~~0xF#(8 * n) := by
    rw [BitVec.le_def, hframe, toNat_and_not_mask, hend, StackSlice.stop]
    omega
  unfold StackSlice.alignedSp
  rw [BitVec.toNat_sub_of_le hle, hframe, toNat_and_not_mask, hend]

/-- A write `k` bytes into a block of `size` bytes leaves what is outside of the block. -/
theorem writeUsize_outside (m : Usize n → Byte) (v : Usize n) {base a : Usize n} {k size : ℕ}
    (hk : k + n ≤ size) (ha : size ≤ (a - base).toNat) :
    writeUsize m (base + BitVec.ofNat (8 * n) k) v a = m a := by
  have hsplit : a - base = a - (base + BitVec.ofNat (8 * n) k) + BitVec.ofNat (8 * n) k := by
    rw [← BitVec.sub_sub, BitVec.sub_add_cancel]
  have hoff : (BitVec.ofNat (8 * n) k).toNat ≤ k := by
    rw [BitVec.toNat_ofNat]
    exact Nat.mod_le _ _
  have hsum := BitVec.toNat_add (a - (base + BitVec.ofNat (8 * n) k)) (BitVec.ofNat (8 * n) k)
  have hmod := Nat.mod_le
    ((a - (base + BitVec.ofNat (8 * n) k)).toNat + (BitVec.ofNat (8 * n) k).toNat) (2 ^ (8 * n))
  rw [← hsplit] at hsum
  unfold writeUsize
  rw [if_neg (by omega)]

theorem clear_outside (frame : Usize n) {a : Usize n} (ha : 32 * n ≤ (a - frame).toNat) (l : List ℕ)
    (hl : ∀ i ∈ l, i < 32) (m : Usize n → Byte) :
    l.foldl (fun m i => writeUsize m (frameAdd frame i) 0) m a = m a := by
  induction l generalizing m with
  | nil => rfl
  | cons i l ih =>
    have hi : n * i + n ≤ 32 * n := by
      have hlt := hl i (List.mem_cons_self ..)
      calc n * i + n = (i + 1) * n := by ring
        _ ≤ 32 * n := Nat.mul_le_mul_right n hlt
    rw [List.foldl_cons, ih (fun j hj => hl j (List.mem_cons_of_mem _ hj))]
    exact writeUsize_outside m 0 hi ha

theorem StackSlice.initializeStack_outside (stack : StackSlice n) (entryFn : Usize n) (m : Usize n → Byte)
    {a : Usize n} (ha : 32 * n ≤ (a - stack.alignedSp).toNat) :
    (stack.initializeStack entryFn m).2 a = m a := by
  unfold StackSlice.initializeStack
  dsimp only
  rw [frameAdd, frameAdd, writeUsize_outside _ _ (by omega) ha, writeUsize_outside _ _ (by omega) ha]
  exact clear_outside _ ha _ (fun i hi => List.mem_range.mp hi) m

/-- Nothing but zeros is written by the loop. -/
theorem clear_keeps_zero (frame a : Usize n) (l : List ℕ) {m : Usize n → Byte} (hm : m a = 0#8) :
    l.foldl (fun m i => writeUsize m (frameAdd frame i) 0) m a = 0#8 := by
  induction l generalizing m with
  | nil => exact hm
  | cons i l ih =>
    have hword : writeUsize m (frameAdd frame i) 0 a = 0#8 := by
      unfold writeUsize
      split
      · simp
      · exact hm
    exact ih hword

/-- The first byte of the frame is zero afterwards, whatever it was. -/
theorem StackSlice.initializeStack_first (stack : StackSlice n) (hn : n = 4 ∨ n = 8) (entryFn : Usize n)
    (m : Usize n → Byte) : (stack.initializeStack entryFn m).2 stack.alignedSp = 0#8 := by
  have hlater : ∀ (m : Usize n → Byte) (v : Usize n) (i : ℕ), i = 28 ∨ i = 29 →
      writeUsize m (frameAdd stack.alignedSp i) v stack.alignedSp = m stack.alignedSp := by
    intro m v i hi
    have hback : (stack.alignedSp - frameAdd stack.alignedSp i).toNat =
        (2 ^ (8 * n) - n * i % 2 ^ (8 * n)) % 2 ^ (8 * n) := by
      rw [frameAdd, ← BitVec.sub_sub, BitVec.sub_self, BitVec.zero_sub, BitVec.toNat_neg, BitVec.toNat_ofNat]
    unfold writeUsize
    rw [hback]
    obtain rfl | rfl := hn <;> obtain rfl | rfl := hi <;> rfl
  have hfirst : writeUsize m (frameAdd stack.alignedSp 0) 0 stack.alignedSp = 0#8 := by
    have hpos : 0 < n := by omega
    unfold writeUsize frameAdd
    rw [Nat.mul_zero, BitVec.add_zero, BitVec.sub_self, BitVec.toNat_zero, if_pos hpos]
    simp
  unfold StackSlice.initializeStack
  dsimp only
  rw [hlater _ _ 29 (Or.inr rfl), hlater _ _ 28 (Or.inl rfl)]
  exact clear_keeps_zero _ _ ((List.range 31).map Nat.succ) hfirst

end Place

/-! ## Inside the slice -/

/-- `trap_entry.s` starts the task at `entry_fn` with the frame on top of its stack; only the 32-bit
target has it. -/
def RestoresEntry : (n : ℕ) → StackSlice n → Usize n → Prop
  | 4, stack, entryFn => ∀ (m : Memory) (c : Context),
    let r := stack.initializeStack entryFn m
    let c' := restoreContext r.1 r.2 c
    c'.pc = entryFn ∧ restoredMstatus r.1 r.2 = 0x80#32 ∧ (∀ x ∈ frameRegs, c'.x x = 0#32) ∧
      (c'.x 2).toNat ≤ stack.stop
  | _, _, _ => True

structure InitialFrame {n : ℕ} (stack : StackSlice n) (entryFn : Usize n) : Prop where
  inside : ∀ (m : Usize n → Byte) (a : Usize n), ¬ stack.Contains a →
    (stack.initializeStack entryFn m).2 a = m a
  aligned : ∀ m : Usize n → Byte, (stack.initializeStack entryFn m).1.toNat % 16 = 0
  restored : RestoresEntry n stack entryFn

/-- The slice has room for 32 words besides the bytes above the last multiple of 16. -/
def StackSlice.Fits {n : ℕ} (stack : StackSlice n) : Prop :=
  32 * n + stack.stop % 16 ≤ stack.len.toNat

section Frame
variable {n : ℕ}

theorem StackSlice.Fits.inside {stack : StackSlice n} (hfits : stack.Fits) (hn : n = 4 ∨ n = 8)
    (hlen : 32 * n ≤ stack.len.toNat) {a : Usize n} (ha : ¬ stack.Contains a) :
    32 * n ≤ (a - stack.alignedSp).toNat := by
  have hsp := stack.toNat_alignedSp hn hlen
  have hstop : stack.stop < 2 ^ (8 * n) := stack.bounded
  have hlt := a.isLt
  have hsum : stack.stop = stack.start.toNat + stack.len.toNat := rfl
  unfold StackSlice.Fits at hfits
  unfold StackSlice.Contains at ha
  rw [BitVec.toNat_sub, hsp]
  obtain rfl | rfl := hn
  · change 128 ≤ (2 ^ 32 - (16 * (stack.stop / 16) - 128) + a.toNat) % 2 ^ 32
    change stack.stop < 2 ^ 32 at hstop
    omega
  · change 256 ≤ (2 ^ 64 - (16 * (stack.stop / 16) - 256) + a.toNat) % 2 ^ 64
    change stack.stop < 2 ^ 64 at hstop
    omega

theorem aligned_alignedSp (stack : StackSlice n) (hn : n = 4 ∨ n = 8) (hlen : 32 * n ≤ stack.len.toNat) :
    stack.alignedSp.toNat % 16 = 0 := by
  rw [stack.toNat_alignedSp hn hlen]
  obtain rfl | rfl := hn <;> omega

/-- The restored context, on every slice of 32 words or more. -/
theorem restoresEntry (stack : StackSlice n) (hn : n = 4 ∨ n = 8) (hlen : 32 * n ≤ stack.len.toNat)
    (entryFn : Usize n) : RestoresEntry n stack entryFn := by
  obtain rfl | rfl := hn
  · intro m c
    have hsp := stack.toNat_alignedSp (Or.inl rfl) hlen
    have hword : ∀ i < 32, readWord (stack.initializeStack entryFn m).2 (slot stack.alignedSp i) =
        if i = 29 then 0x80#32 else if i = 28 then entryFn else 0#32 := by
      intro i hi
      rw [initializeStack_four]
      exact initializeStack_readWord hi
    refine ⟨hword 28 (by decide), hword 29 (by decide), fun x hx => ?_, ?_⟩
    · have hreg : frameRegs.idxOf x < 28 := List.idxOf_lt_length_iff.mpr hx
      have hne : x ≠ 2 := fun he => absurd hx (he ▸ by decide)
      change (if x = 2 then _ else if x ∈ frameRegs then _ else _) = _
      rw [if_neg hne, if_pos hx]
      refine (hword (frameRegs.idxOf x) (by omega)).trans ?_
      rw [if_neg (by omega), if_neg (by omega)]
    · have hstop : stack.stop < 2 ^ 32 := stack.bounded
      have hlow : 128 ≤ stack.stop := hlen.trans (Nat.le_add_left _ _)
      change (stack.alignedSp + 128#32).toNat ≤ stack.stop
      refine (BitVec.toNat_add _ _).trans_le ?_
      rw [hsp]
      change (16 * (stack.stop / 16) - 128 + 128) % 2 ^ 32 ≤ stack.stop
      omega
  · trivial

/-- The frame stays inside the slice exactly if the slice still has room for it below its rounded
end. -/
theorem initialFrame_iff (hn : n = 4 ∨ n = 8) (stack : StackSlice n) (hlen : 32 * n ≤ stack.len.toNat)
    (entryFn : Usize n) : InitialFrame stack entryFn ↔ stack.Fits := by
  constructor
  · intro h
    by_contra hfits
    have hsp := stack.toNat_alignedSp hn hlen
    have hsum : stack.stop = stack.start.toNat + stack.len.toNat := rfl
    have hbelow : ¬ stack.Contains stack.alignedSp := by
      unfold StackSlice.Fits at hfits
      unfold StackSlice.Contains
      omega
    -- a memory of ones, so that the first word of the frame shows
    have hsame := h.inside (fun _ => 1#8) stack.alignedSp hbelow
    rw [stack.initializeStack_first hn] at hsame
    cases hsame
  · intro hfits
    exact ⟨fun m a ha => stack.initializeStack_outside entryFn m (hfits.inside hn hlen ha),
      fun m => aligned_alignedSp stack hn hlen, restoresEntry stack hn hlen entryFn⟩

end Frame

/-- Task stacks are 1024 bytes and aligned. -/
def taskSlice : StackSlice 4 := ⟨0x3FC82000#32, 1024#32, by decide⟩

theorem initialFrame_taskSlice : InitialFrame taskSlice 0x42000000#32 :=
  (initialFrame_iff (Or.inl rfl) taskSlice (by decide) 0x42000000#32).mpr
    (by unfold StackSlice.Fits; decide)

/-- 32 words from an address that is 4 bytes after a multiple of 16. -/
def tightSlice : StackSlice 4 := ⟨0x3FC82004#32, 128#32, by decide⟩

theorem not_initialFrame_tightSlice : ¬ InitialFrame tightSlice 0x42000000#32 := by
  intro h
  have hbelow : ¬ tightSlice.Contains tightSlice.alignedSp := by
    unfold StackSlice.Contains
    decide
  have hsame := h.inside (fun _ => 1#8) tightSlice.alignedSp hbelow
  rw [tightSlice.initializeStack_first (Or.inl rfl)] at hsame
  cases hsame

end Cerberus.Machine
