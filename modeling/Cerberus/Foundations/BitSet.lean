import Mathlib.Data.BitVec
import Mathlib.Data.List.FinRange

/-! # Machine words as finite sets

An `n`-bit word is the set of the positions of its one bits. Insertion and removal are the usual
`b | (1 << i)` and `b & !(1 << i)`, membership is `b & (1 << i) != 0`, and `least` is the position
of the lowest one bit. -/
namespace Cerberus.BitSet
set_option autoImplicit false

variable {n : ℕ}

def single (i : Fin n) : BitVec n := 1#n <<< i.val

def Mem (b : BitVec n) (i : Fin n) : Prop := b.getLsbD i.val = true

instance (b : BitVec n) (i : Fin n) : Decidable (Mem b i) := by
  unfold Mem
  infer_instance

def least (b : BitVec n) : Option (Fin n) := (List.finRange n).find? fun i => Mem b i

theorem getLsbD_single (i j : Fin n) : (single i).getLsbD j.val = decide (j = i) := by
  by_cases h : j = i
  · subst h
    simp [single]
  · have hne : j.val ≠ i.val := fun he => h (Fin.ext he)
    simp only [single, BitVec.getLsbD_shiftLeft, BitVec.getLsbD_one, h, decide_false]
    by_cases hlt : j.val < i.val
    · simp [hlt]
    · have : j.val - i.val ≠ 0 := by omega
      simp [this]

theorem not_mem_zero (i : Fin n) : ¬ Mem (0#n) i := by simp [Mem]

theorem mem_insert {b : BitVec n} {i j : Fin n} : Mem (b ||| single i) j ↔ Mem b j ∨ j = i := by
  simp only [Mem, BitVec.getLsbD_or, getLsbD_single, Bool.or_eq_true, decide_eq_true_eq]

theorem mem_erase {b : BitVec n} {i j : Fin n} : Mem (b &&& ~~~single i) j ↔ Mem b j ∧ j ≠ i := by
  simp only [Mem, BitVec.getLsbD_and, BitVec.getLsbD_not, getLsbD_single, j.isLt, decide_true,
    Bool.true_and, Bool.and_eq_true, Bool.not_eq_true', decide_eq_false_iff_not, ne_eq]

/-- The membership test of the program text. -/
theorem and_single_ne_zero_iff {b : BitVec n} {i : Fin n} : b &&& single i ≠ 0#n ↔ Mem b i := by
  constructor
  · intro h
    by_contra hm
    apply h
    apply BitVec.eq_of_getLsbD_eq
    intro j hj
    have hb : b.getLsbD i.val = false := by simpa [Mem] using hm
    by_cases hji : (⟨j, hj⟩ : Fin n) = i
    · have hval : j = i.val := congrArg Fin.val hji
      rw [BitVec.getLsbD_and, BitVec.getLsbD_zero, hval, hb, Bool.false_and]
    · have hs := getLsbD_single i ⟨j, hj⟩
      simp only [hji, decide_false] at hs
      rw [BitVec.getLsbD_and, BitVec.getLsbD_zero, hs, Bool.and_false]
  · intro hm h0
    have hi : (b &&& single i).getLsbD i.val = true := by
      rw [BitVec.getLsbD_and, getLsbD_single, show b.getLsbD i.val = true from hm]
      simp
    rw [h0, BitVec.getLsbD_zero] at hi
    cases hi

theorem mem_of_least {b : BitVec n} {i : Fin n} (h : least b = some i) : Mem b i := by
  have := List.find?_some h
  simpa using this

theorem least_le {b : BitVec n} {i j : Fin n} (h : least b = some i) (hj : Mem b j) : i ≤ j := by
  obtain ⟨-, k, hk, rfl, hbefore⟩ := List.find?_eq_some_iff_getElem.mp h
  by_contra hlt
  have hjk : j.val < k := by simpa [Fin.lt_def] using hlt
  have hnot := hbefore j.val hjk
  simp [hj] at hnot

theorem eq_zero_of_least {b : BitVec n} (h : least b = none) : b = 0#n := by
  apply BitVec.eq_of_getLsbD_eq
  intro i hi
  have hno : ¬ Mem b ⟨i, hi⟩ := by simpa using List.find?_eq_none.mp h ⟨i, hi⟩ (List.mem_finRange _)
  rw [BitVec.getLsbD_zero]
  simpa [Mem] using hno

/-- The least position is the number of trailing zeros. -/
theorem least_eq_ctz {b : BitVec n} (hb : b ≠ 0#n) : ∃ i, least b = some i ∧ i.val = b.ctz.toNat := by
  have hset := BitVec.getLsbD_true_ctz_of_ne_zero hb
  have hlt : b.ctz.toNat < n := BitVec.lt_of_getLsbD hset
  cases hleast : least b with
  | none => exact absurd (eq_zero_of_least hleast) hb
  | some i =>
    refine ⟨i, rfl, le_antisymm (least_le hleast (j := ⟨b.ctz.toNat, hlt⟩) hset) ?_⟩
    by_contra hlow
    have hclear := BitVec.getLsbD_false_of_lt_ctz (Nat.lt_of_not_le hlow)
    rw [show b.getLsbD i.val = true from mem_of_least hleast] at hclear
    cases hclear

end Cerberus.BitSet
