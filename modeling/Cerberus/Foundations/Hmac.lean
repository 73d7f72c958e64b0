import Mathlib.Data.List.GetD
import Mathlib.Data.List.OfFn
import Mathlib.Data.List.Zip

/-! # HMAC over an arbitrary hash

RFC 2104. The key is hashed if it is longer than a block of the hash, padded with zeros to a block,
and enters the inner and the outer hash xored with a constant. -/
namespace Cerberus.Hmac
set_option autoImplicit false

abbrev Octet := BitVec 8

section Definition
variable (hash : List Octet → List Octet) (blockSize : ℕ)

/-- The key as one block. -/
def blockKey (key : List Octet) : List Octet :=
  let short := if key.length ≤ blockSize then key else hash key
  short ++ List.replicate (blockSize - short.length) 0

def xorWith (pad : Octet) (block : List Octet) : List Octet := block.map (· ^^^ pad)

def hmac (key text : List Octet) : List Octet :=
  hash (xorWith 0x5C (blockKey hash blockSize key) ++
    hash (xorWith 0x36 (blockKey hash blockSize key) ++ text))

variable {hash blockSize} {key : List Octet}

/-- A key that fits in a block is xored into the start of a block of the constant. -/
theorem xorWith_blockKey (pad : Octet) (hkey : key.length ≤ blockSize) :
    xorWith pad (blockKey hash blockSize key) =
      List.ofFn fun i : Fin blockSize => if i.val < key.length then pad ^^^ key.getD i.val 0 else pad := by
  unfold xorWith blockKey
  rw [if_pos hkey]
  apply List.ext_getElem
  · simp only [List.length_map, List.length_append, List.length_replicate, List.length_ofFn]
    omega
  · intro i h1 h2
    simp only [List.getElem_map, List.getElem_ofFn]
    by_cases hi : i < key.length
    · rw [List.getElem_append_left hi, if_pos hi, BitVec.xor_comm, List.getD_eq_getElem _ _ hi]
    · rw [List.getElem_append_right (by omega), if_neg hi, List.getElem_replicate]
      exact BitVec.zero_xor

end Definition

/-! ## Comparing tags without an early exit -/

/-- The differences of two strings, accumulated. -/
def difference (xs ys : List Octet) : Octet :=
  (xs.zip ys).foldl (fun acc p => acc ||| (p.1 ^^^ p.2)) 0

theorem foldl_difference_eq_zero (ps : List (Octet × Octet)) (acc : Octet) :
    ps.foldl (fun acc p => acc ||| (p.1 ^^^ p.2)) acc = 0 ↔ acc = 0 ∧ ∀ p ∈ ps, p.1 = p.2 := by
  induction ps generalizing acc with
  | nil => simp
  | cons p ps ih =>
    have hor : acc ||| (p.1 ^^^ p.2) = 0 ↔ acc = 0 ∧ p.1 ^^^ p.2 = 0 := BitVec.or_eq_zero_iff
    have hxor : p.1 ^^^ p.2 = 0 ↔ p.1 = p.2 := BitVec.xor_eq_zero_iff
    rw [List.foldl_cons, ih, hor, hxor, List.forall_mem_cons, and_assoc]

/-- Strings of one length differ nowhere exactly when they are equal. -/
theorem difference_eq_zero_iff {xs ys : List Octet} (hlen : xs.length = ys.length) :
    difference xs ys = 0 ↔ xs = ys := by
  unfold difference
  rw [foldl_difference_eq_zero]
  constructor
  · rintro ⟨-, hall⟩
    apply List.ext_getElem hlen
    intro i h1 h2
    have hmem : (xs[i], ys[i]) ∈ xs.zip ys := by
      rw [← List.getElem_zip (h := by rw [List.length_zip]; omega)]
      exact List.getElem_mem _
    exact hall _ hmem
  · rintro rfl
    refine ⟨rfl, fun p hp => ?_⟩
    obtain ⟨i, hi, rfl⟩ := List.mem_iff_getElem.mp hp
    rw [List.getElem_zip]

end Cerberus.Hmac
