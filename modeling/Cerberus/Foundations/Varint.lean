import Mathlib.Data.BitVec
import Mathlib.Tactic.Ring

/-! # Variable-length integers

LEB128: a number as bytes of seven bits each, lowest first, every byte but the last with its high bit
set. `decode` is the inverse of `encode`; `decodeFrom` is the same reader as a loop that shifts each
group into an accumulator. -/
namespace Cerberus.Varint
set_option autoImplicit false

/-- At most `k + 1` bytes. -/
def encode : ℕ → ℕ → List (BitVec 8)
  | 0, n => [BitVec.ofNat 8 n]
  | k + 1, n =>
    if n < 128 then [BitVec.ofNat 8 n] else BitVec.ofNat 8 (n % 128 + 128) :: encode k (n / 128)

/-- The number at the start of the bytes, and the bytes after it; `none` when they end inside it. -/
def decode : List (BitVec 8) → Option (ℕ × List (BitVec 8))
  | [] => none
  | b :: rest =>
    if b.toNat < 128 then some (b.toNat, rest)
    else (decode rest).map fun r => (b.toNat % 128 + 128 * r.1, r.2)

def decodeFrom (value shift : ℕ) : List (BitVec 8) → Option (ℕ × List (BitVec 8))
  | [] => none
  | b :: rest =>
    let value := value ||| ((b &&& 0x7F#8).toNat <<< shift)
    if b &&& 0x80#8 = 0#8 then some (value, rest) else decodeFrom value (shift + 7) rest

theorem toNat_low (b : BitVec 8) : (b &&& 0x7F#8).toNat = b.toNat % 128 := by
  rw [BitVec.toNat_and]
  exact Nat.and_two_pow_sub_one_eq_mod b.toNat 7

theorem high_eq_zero_iff (b : BitVec 8) : b &&& 0x80#8 = 0#8 ↔ b.toNat < 128 := by
  revert b
  decide

theorem or_shiftLeft {value shift : ℕ} (hv : value < 2 ^ shift) (x : ℕ) :
    value ||| (x <<< shift) = value + 2 ^ shift * x := by
  rw [Nat.or_comm, ← Nat.shiftLeft_add_eq_or_of_lt hv, Nat.shiftLeft_eq]
  ring

theorem decodeFrom_eq {value shift : ℕ} (hv : value < 2 ^ shift) (bs : List (BitVec 8)) :
    decodeFrom value shift bs = (decode bs).map fun r => (value + 2 ^ shift * r.1, r.2) := by
  induction bs generalizing value shift with
  | nil => rfl
  | cons b rest ih =>
    have hgroup : value + 2 ^ shift * (b.toNat % 128) < 2 ^ (shift + 7) := by
      have hmod : b.toNat % 128 ≤ 127 := by omega
      calc value + 2 ^ shift * (b.toNat % 128) < 2 ^ shift + 2 ^ shift * 127 :=
            Nat.add_lt_add_of_lt_of_le hv (Nat.mul_le_mul_left _ hmod)
        _ = 2 ^ (shift + 7) := by
            rw [Nat.pow_add]
            ring
    simp only [decodeFrom, decode, high_eq_zero_iff, toNat_low, or_shiftLeft hv]
    by_cases hb : b.toNat < 128
    · rw [if_pos hb, if_pos hb, Option.map_some, Nat.mod_eq_of_lt hb]
    · rw [if_neg hb, if_neg hb, ih hgroup, Option.map_map]
      congr 1
      funext r
      rw [Function.comp_apply, Prod.mk.injEq]
      refine ⟨?_, rfl⟩
      rw [Nat.pow_add]
      ring

theorem decodeFrom_zero (bs : List (BitVec 8)) : decodeFrom 0 0 bs = decode bs := by
  rw [decodeFrom_eq (by decide)]
  simp

theorem decode_encode {k n : ℕ} (hn : n < 128 ^ (k + 1)) (rest : List (BitVec 8)) :
    decode (encode k n ++ rest) = some (n, rest) := by
  induction k generalizing n with
  | zero =>
    have hlt : n < 128 := hn
    have hbyte : (BitVec.ofNat 8 n).toNat = n := by
      rw [BitVec.toNat_ofNat]
      omega
    simp only [encode, List.singleton_append, decode, hbyte, if_pos hlt]
  | succ k ih =>
    by_cases hlt : n < 128
    · have hbyte : (BitVec.ofNat 8 n).toNat = n := by
        rw [BitVec.toNat_ofNat]
        omega
      simp only [encode, if_pos hlt, List.singleton_append, decode, hbyte]
    · have hbyte : (BitVec.ofNat 8 (n % 128 + 128)).toNat = n % 128 + 128 := by
        rw [BitVec.toNat_ofNat]
        omega
      have hdiv : n / 128 < 128 ^ (k + 1) := by
        rw [Nat.div_lt_iff_lt_mul (by decide), ← Nat.pow_succ]
        exact hn
      simp only [encode, if_neg hlt, List.cons_append, decode, hbyte, ih hdiv, Option.map_some]
      rw [if_neg (by omega)]
      congr 2
      omega

/-- A number that is complete is read the same whatever follows. -/
theorem decode_append {bs rest : List (BitVec 8)} {n : ℕ} (hd : decode bs = some (n, rest))
    (more : List (BitVec 8)) : decode (bs ++ more) = some (n, rest ++ more) := by
  induction bs generalizing n with
  | nil => cases hd
  | cons b bs ih =>
    simp only [decode, List.cons_append] at hd ⊢
    split at hd
    · rename_i hb
      obtain ⟨rfl, rfl⟩ := Prod.mk.inj (Option.some.inj hd)
      rw [if_pos hb]
    · rename_i hb
      obtain ⟨⟨m, rest'⟩, hm, hr⟩ := Option.map_eq_some_iff.mp hd
      obtain ⟨rfl, rfl⟩ := Prod.mk.inj hr
      rw [if_neg hb, ih hm]
      rfl

/-- `j` bytes hold a number below `128 ^ j`. -/
theorem decode_bound {bs rest : List (BitVec 8)} {n : ℕ} (hd : decode bs = some (n, rest)) :
    ∃ j, bs.length = rest.length + (j + 1) ∧ n < 128 ^ (j + 1) := by
  induction bs generalizing n with
  | nil => cases hd
  | cons b bs ih =>
    simp only [decode] at hd
    split at hd
    · rename_i hb
      obtain ⟨rfl, rfl⟩ := Prod.mk.inj (Option.some.inj hd)
      exact ⟨0, rfl, hb⟩
    · obtain ⟨⟨m, rest'⟩, hm, hr⟩ := Option.map_eq_some_iff.mp hd
      obtain ⟨rfl, rfl⟩ := Prod.mk.inj hr
      obtain ⟨j, hlen, hlt⟩ := ih hm
      refine ⟨j + 1, by rw [List.length_cons, hlen]; rfl, ?_⟩
      rw [Nat.pow_succ]
      have hmod : b.toNat % 128 < 128 := Nat.mod_lt _ (by decide)
      simp only
      omega

theorem length_encode_le {j : ℕ} (k : ℕ) {n : ℕ} (hn : n < 128 ^ (j + 1)) :
    (encode k n).length ≤ j + 1 := by
  induction j generalizing k n with
  | zero =>
    have hlt : n < 128 := hn
    cases k with
    | zero => exact le_rfl
    | succ k => rw [encode, if_pos hlt, List.length_singleton]
  | succ j ih =>
    cases k with
    | zero => exact Nat.le_add_left 1 (j + 1)
    | succ k =>
      by_cases hlt : n < 128
      · rw [encode, if_pos hlt]
        exact Nat.le_add_left 1 (j + 1)
      · rw [encode, if_neg hlt, List.length_cons]
        refine Nat.succ_le_succ (ih k ?_)
        rw [Nat.div_lt_iff_lt_mul (by decide), ← Nat.pow_succ]
        exact hn

/-- No reading of a number takes fewer bytes than its encoding. -/
theorem length_encode_le_of_decode {bs rest : List (BitVec 8)} {n : ℕ} (k : ℕ)
    (hd : decode bs = some (n, rest)) : rest.length + (encode k n).length ≤ bs.length := by
  obtain ⟨j, hlen, hlt⟩ := decode_bound hd
  have hle := length_encode_le k hlt
  omega

end Cerberus.Varint
