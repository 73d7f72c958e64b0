import Mathlib.Tactic.FinCases
import Cerberus.Foundations.ByteMemory

/-! # The four bytes of a word

Reading byte `k` of a word, and the mask-and-shift idiom that replaces it. -/
namespace Cerberus.Word
set_option autoImplicit false

def getByte (x : Word) (k : Fin 4) : Byte := x.extractLsb' (8 * k.val) 8

/-- `(x & !(0xFF << shift)) | (b << shift)` with `shift = 8 * k`. -/
def setByte (x : Word) (k : Fin 4) (b : Byte) : Word :=
  (x &&& ~~~(0xFF#32 <<< (8 * k.val))) ||| (b.setWidth 32 <<< (8 * k.val))

theorem getLsbD_mask (p : ℕ) : (0xFF#32).getLsbD p = decide (p < 8) := by
  have h : (0xFF#32).getLsbD p = (2 ^ 8 - 1).testBit p := rfl
  rw [h, Nat.testBit_two_pow_sub_one]

theorem getByte_setByte (x : Word) (k j : Fin 4) (b : Byte) :
    getByte (setByte x k b) j = if j = k then b else getByte x j := by
  have hj := j.isLt
  have hk := k.isLt
  apply BitVec.eq_of_getLsbD_eq
  intro i hi
  have hp : 8 * j.val + i < 32 := by omega
  simp only [getByte, setByte, BitVec.getLsbD_extractLsb', BitVec.getLsbD_or, BitVec.getLsbD_and,
    BitVec.getLsbD_not, BitVec.getLsbD_shiftLeft, BitVec.getLsbD_setWidth, getLsbD_mask, hi, hp]
  rcases lt_trichotomy j.val k.val with h | h | h
  · have hne : j ≠ k := fun he => by simp [he] at h
    have hlt : 8 * j.val + i < 8 * k.val := by omega
    simp [hne, hlt, hi]
  · have he : j = k := Fin.ext h
    subst he
    have hsub : 8 * j.val + i - 8 * j.val = i := by omega
    have hi' : i < 32 := by omega
    have hge : ¬ 8 * j.val + i < 8 * j.val := by omega
    simp [hsub, hi, hi', hge]
  · have hne : j ≠ k := fun he => by simp [he] at h
    have hge : 8 ≤ 8 * j.val + i - 8 * k.val := by omega
    have hmask : ¬ 8 * j.val + i - 8 * k.val < 8 := by omega
    simp [hne, hmask, BitVec.getLsbD_of_ge b _ hge, hi]

/-- A write of `v` over `x` that byte `k` takes part in only when `keep k` is false. -/
def mergeBytes (keep : Fin 4 → Bool) (x v : Word) : Word :=
  [0, 1, 2, 3].foldl (fun w k => if keep k then w else setByte w k (getByte v k)) x

theorem getByte_mergeBytes (keep : Fin 4 → Bool) (x v : Word) (j : Fin 4) :
    getByte (mergeBytes keep x v) j = if keep j then getByte x j else getByte v j := by
  have hstep : ∀ (w : Word) (k : Fin 4),
      getByte (if keep k then w else setByte w k (getByte v k)) j =
        if j = k ∧ keep k = false then getByte v k else getByte w j := by
    intro w k
    cases hk : keep k
    · simp [getByte_setByte]
    · simp
  simp only [mergeBytes, List.foldl_cons, List.foldl_nil, hstep]
  fin_cases j <;> simp <;> split <;> simp_all

end Cerberus.Word
