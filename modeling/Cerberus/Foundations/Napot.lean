import Mathlib.Tactic.Ring
import Mathlib.Algebra.Order.Group.Nat

/-! # Naturally aligned power-of-two regions

A region of `2 ^ (k + 3)` bytes aligned to its size is coded in one address register as
`base / 4 ||| (size / 2 - 1) / 4`: the low `k` bits are ones and bit `k` is zero. Decoding counts
the trailing ones. -/
namespace Cerberus.Napot
set_option autoImplicit false

/-- The number of trailing one bits of an `w`-bit value. -/
def trailingOnes : ℕ → ℕ → ℕ
  | 0, _ => 0
  | w + 1, v => if v % 2 = 1 then trailingOnes w (v / 2) + 1 else 0

/-- The address register of the region of `size` bytes at `base`. -/
def encode (base size : ℕ) : ℕ := base / 4 ||| (size / 2 - 1) / 4

/-- The byte address `a` lies in the region of `2 ^ (t + 3)` bytes that a `w`-bit register `v` with
`t` trailing ones denotes. -/
def Contains (w v a : ℕ) : Prop :=
  a / 4 / 2 ^ (trailingOnes w v + 1) = v / 2 ^ (trailingOnes w v + 1)

instance (w v a : ℕ) : Decidable (Contains w v a) := by
  unfold Contains
  infer_instance

/-- The size and the first address of that region. -/
def regionSize (w v : ℕ) : ℕ := 2 ^ (trailingOnes w v + 3)

def regionBase (w v : ℕ) : ℕ := v / 2 ^ (trailingOnes w v + 1) * regionSize w v

theorem trailingOnes_block {w k : ℕ} (q : ℕ) (hk : k < w) :
    trailingOnes w (2 ^ (k + 1) * q + (2 ^ k - 1)) = k := by
  induction w generalizing k with
  | zero => omega
  | succ w ih =>
    cases k with
    | zero =>
      have he : (2 ^ (0 + 1) * q + (2 ^ 0 - 1)) % 2 ≠ 1 := by
        simp
      simp [trailingOnes]
    | succ k =>
      have hpos : 0 < 2 ^ k := Nat.two_pow_pos k
      have hodd : (2 ^ (k + 1 + 1) * q + (2 ^ (k + 1) - 1)) % 2 = 1 := by
        have e : 2 ^ (k + 1 + 1) * q = 2 * (2 ^ (k + 1) * q) := by ring
        rw [e]
        omega
      have hhalf : (2 ^ (k + 1 + 1) * q + (2 ^ (k + 1) - 1)) / 2 =
          2 ^ (k + 1) * q + (2 ^ k - 1) := by
        have e : 2 ^ (k + 1 + 1) * q = 2 * (2 ^ (k + 1) * q) := by ring
        have e' : 2 ^ (k + 1) = 2 * 2 ^ k := by ring
        rw [e, e']
        omega
      rw [trailingOnes, if_pos hodd, hhalf, ih (by omega)]

theorem encode_block (k q : ℕ) :
    encode (2 ^ (k + 3) * q) (2 ^ (k + 3)) = 2 ^ (k + 1) * q + (2 ^ k - 1) := by
  have hpos : 0 < 2 ^ k := Nat.two_pow_pos k
  have e1 : 2 ^ (k + 3) * q / 4 = 2 ^ (k + 1) * q := by
    have e : 2 ^ (k + 3) * q = 4 * (2 ^ (k + 1) * q) := by ring
    rw [e]
    omega
  have e2 : (2 ^ (k + 3) / 2 - 1) / 4 = 2 ^ k - 1 := by
    have e : 2 ^ (k + 3) = 8 * 2 ^ k := by ring
    rw [e]
    omega
  have hlt : 2 ^ k - 1 < 2 ^ (k + 1) := by
    have e : 2 ^ (k + 1) = 2 * 2 ^ k := by ring
    omega
  rw [encode, e1, e2, ← Nat.two_pow_add_eq_or_of_lt hlt]

/-- The code of an aligned block denotes exactly that block. -/
theorem contains_encode {w k : ℕ} (q a : ℕ) (hk : k < w) :
    Contains w (encode (2 ^ (k + 3) * q) (2 ^ (k + 3))) a ↔
      2 ^ (k + 3) * q ≤ a ∧ a < 2 ^ (k + 3) * q + 2 ^ (k + 3) := by
  have hpos : 0 < 2 ^ (k + 3) := Nat.two_pow_pos _
  have hpos' : 0 < 2 ^ (k + 1) := Nat.two_pow_pos _
  have hq : (2 ^ (k + 1) * q + (2 ^ k - 1)) / 2 ^ (k + 1) = q := by
    have hlt : 2 ^ k - 1 < 2 ^ (k + 1) := by
      have e : 2 ^ (k + 1) = 2 * 2 ^ k := by ring
      have := Nat.two_pow_pos k
      omega
    rw [Nat.mul_add_div hpos', Nat.div_eq_of_lt hlt, Nat.add_zero]
  have ha : a / 4 / 2 ^ (k + 1) = a / 2 ^ (k + 3) := by
    rw [Nat.div_div_eq_div_mul]
    congr 1
    ring
  have hdiv : a / 2 ^ (k + 3) = q ↔
      2 ^ (k + 3) * q ≤ a ∧ a < 2 ^ (k + 3) * q + 2 ^ (k + 3) := by
    rw [Nat.div_eq_iff hpos, Nat.mul_comm q]
    constructor
    · rintro ⟨h1, h2⟩
      exact ⟨h1, by omega⟩
    · rintro ⟨h1, h2⟩
      exact ⟨h1, by omega⟩
  rw [Contains, encode_block, trailingOnes_block q hk, hq, ha, hdiv]

theorem contains_encode_of_dvd {w base k : ℕ} (a : ℕ) (hk : k < w) (hb : base % 2 ^ (k + 3) = 0) :
    Contains w (encode base (2 ^ (k + 3))) a ↔ base ≤ a ∧ a < base + 2 ^ (k + 3) := by
  have hbase : base = 2 ^ (k + 3) * (base / 2 ^ (k + 3)) := by
    have := Nat.div_add_mod base (2 ^ (k + 3))
    omega
  rw [hbase]
  exact contains_encode _ a hk

theorem regionSize_encode {w base k : ℕ} (hk : k < w) (hb : base % 2 ^ (k + 3) = 0) :
    regionSize w (encode base (2 ^ (k + 3))) = 2 ^ (k + 3) := by
  have hbase : base = 2 ^ (k + 3) * (base / 2 ^ (k + 3)) := by
    have := Nat.div_add_mod base (2 ^ (k + 3))
    omega
  rw [hbase, regionSize, encode_block, trailingOnes_block _ hk]

theorem contains_iff (w v a : ℕ) :
    Contains w v a ↔ regionBase w v ≤ a ∧ a < regionBase w v + regionSize w v := by
  have hpos : 0 < regionSize w v := Nat.two_pow_pos _
  have ha : a / 4 / 2 ^ (trailingOnes w v + 1) = a / regionSize w v := by
    rw [Nat.div_div_eq_div_mul, regionSize]
    congr 1
    ring
  rw [Contains, ha, Nat.div_eq_iff hpos, regionBase]
  omega

theorem regionBase_encode {w base k : ℕ} (hk : k < w) (hb : base % 2 ^ (k + 3) = 0) :
    regionBase w (encode base (2 ^ (k + 3))) = base := by
  have hpos : 0 < 2 ^ (k + 3) := Nat.two_pow_pos _
  have hsize := regionSize_encode hk hb
  -- both are the least address of the region
  have hmem := (contains_encode_of_dvd base hk hb).mpr ⟨le_rfl, by omega⟩
  have hfirst := (contains_iff w (encode base (2 ^ (k + 3))) (regionBase w (encode base (2 ^ (k + 3))))).mpr
    ⟨le_rfl, by omega⟩
  rw [contains_iff] at hmem
  rw [contains_encode_of_dvd _ hk hb] at hfirst
  omega

end Cerberus.Napot
