import Mathlib.Data.Fin.Basic
import Mathlib.Data.Finset.Card
import Mathlib.Data.List.Iterate
import Mathlib.Data.ZMod.Defs

/-! # Cyclic search over `Fin n`

`scan p k i` looks at `i, i+1, …` in cyclic order, at most `k` slots, and stops at the first one
that satisfies `p`. `gap c b` is the number of slots strictly between `c` and `b` on the way up
from `c`; a full scan from the successor of `c` returns the satisfying slot of least gap. -/
namespace Cerberus.CyclicScan
set_option autoImplicit false

variable {n : ℕ}

/-- The slots strictly between `c` and `b`, counted upwards from `c`. -/
def gap (c b : Fin n) : ℕ := if c.val < b.val then b.val - c.val - 1 else b.val + n - c.val - 1

theorem gap_lt (c b : Fin n) : gap c b < n := by
  have hc := c.isLt
  have hb := b.isLt
  unfold gap
  split <;> omega

theorem gap_add {c b j : Fin n} (h : gap c b < gap c j) : gap c j = gap c b + 1 + gap b j := by
  have hc := c.isLt
  have hb := b.isLt
  have hj := j.isLt
  unfold gap at h ⊢
  split_ifs at h ⊢ <;> omega

theorem gap_injective (c : Fin n) {a b : Fin n} (h : gap c a = gap c b) : a = b := by
  have hc := c.isLt
  have ha := a.isLt
  have hb := b.isLt
  apply Fin.ext
  unfold gap at h
  split_ifs at h <;> omega

/-- `c` itself is the last one on the way up from `c`. -/
theorem gap_le_self (c b : Fin n) : gap c b ≤ gap c c := by
  have hb := gap_lt c b
  have hself : gap c c = c.val + n - c.val - 1 := if_neg (Nat.lt_irrefl _)
  omega

variable [NeZero n]

/-- The first of the `k` slots `i, i+1, …` that satisfies `p`. -/
def scan (p : Fin n → Bool) : ℕ → Fin n → Option (Fin n)
  | 0, _ => none
  | k + 1, i => if p i then some i else scan p k (i + 1)

theorem val_succ (c : Fin n) : (c + 1).val = if c.val + 1 = n then 0 else c.val + 1 := by
  have hc := c.isLt
  rw [Fin.val_add, Fin.val_one', Nat.add_mod_mod]
  split
  · rename_i h
    rw [h, Nat.mod_self]
  · rename_i h
    exact Nat.mod_eq_of_lt (by omega)

theorem gap_eq_zero {c b : Fin n} : gap c b = 0 ↔ b = c + 1 := by
  have hc := c.isLt
  have hb := b.isLt
  rw [Fin.ext_iff, val_succ]
  unfold gap
  split_ifs <;> omega

theorem gap_succ {c b : Fin n} (h : b ≠ c + 1) : gap c b = gap (c + 1) b + 1 := by
  have hc := c.isLt
  have hb := b.isLt
  rw [Ne, Fin.ext_iff, val_succ] at h
  unfold gap
  rw [val_succ]
  split_ifs at h ⊢ <;> omega

/-- What a bounded scan from the successor of `c` returns: the satisfying slot of least gap,
if there is one below the bound. -/
theorem scan_succ_eq_some {p : Fin n → Bool} {k : ℕ} {c b : Fin n} (hk : k ≤ n)
    (h : scan p k (c + 1) = some b) :
    p b = true ∧ gap c b < k ∧ ∀ i, p i = true → gap c b ≤ gap c i := by
  induction k generalizing c with
  | zero => simp [scan] at h
  | succ k ih =>
    unfold scan at h
    split at h
    · rename_i hp
      have hb : b = c + 1 := by simpa using h.symm
      have h0 : gap c b = 0 := gap_eq_zero.mpr hb
      rw [hb] at h0 ⊢
      exact ⟨hp, by omega, fun i _ => by omega⟩
    · rename_i hp
      obtain ⟨hpb, hlt, hmin⟩ := ih (by omega) h
      have hne : ∀ i, p i = true → i ≠ c + 1 := fun i hi he => hp (he ▸ hi)
      refine ⟨hpb, ?_, fun i hi => ?_⟩
      · rw [gap_succ (hne b hpb)]
        omega
      · rw [gap_succ (hne b hpb), gap_succ (hne i hi)]
        have := hmin i hi
        omega

theorem scan_succ_eq_none {p : Fin n → Bool} {k : ℕ} {c : Fin n}
    (h : scan p k (c + 1) = none) : ∀ i, gap c i < k → p i = false := by
  induction k generalizing c with
  | zero =>
    intro i hi
    omega
  | succ k ih =>
    unfold scan at h
    split at h
    · cases h
    · rename_i hp
      intro i hi
      by_cases he : i = c + 1
      · rw [he]
        simpa using hp
      · rw [gap_succ he] at hi
        exact ih h i (by omega)

/-- A full turn from the successor of `c`. -/
def next (p : Fin n → Bool) (c : Fin n) : Option (Fin n) := scan p n (c + 1)

theorem next_eq_some_iff {p : Fin n → Bool} {c b : Fin n} :
    next p c = some b ↔ p b = true ∧ ∀ i, p i = true → gap c b ≤ gap c i := by
  constructor
  · intro h
    obtain ⟨hp, -, hmin⟩ := scan_succ_eq_some (le_refl n) h
    exact ⟨hp, hmin⟩
  · rintro ⟨hp, hmin⟩
    cases hs : next p c with
    | none =>
      have := scan_succ_eq_none hs b (gap_lt c b)
      simp [hp] at this
    | some a =>
      obtain ⟨hpa, -, hmina⟩ := scan_succ_eq_some (le_refl n) hs
      have hab : a = b := gap_injective c (Nat.le_antisymm (hmina b hp) (hmin a hpa))
      rw [hab]

theorem next_eq_none_iff {p : Fin n → Bool} {c : Fin n} :
    next p c = none ↔ ∀ i, p i = false := by
  constructor
  · intro h i
    exact scan_succ_eq_none h i (gap_lt c i)
  · intro h
    cases hs : next p c with
    | none => rfl
    | some a =>
      have := (next_eq_some_iff.mp hs).1
      simp [h a] at this

/-- A full turn comes back to its start exactly when no other slot satisfies. -/
theorem next_self_iff {p : Fin n → Bool} {c : Fin n} :
    next p c = some c ↔ p c = true ∧ ∀ i, p i = true → i = c := by
  rw [next_eq_some_iff]
  refine and_congr_right fun _ => ⟨fun hmin i hi => ?_, fun hall i hi => ?_⟩
  · exact gap_injective c (Nat.le_antisymm (gap_le_self c i) (hmin i hi))
  · rw [hall i hi]

/-- With `j` satisfying, a full turn ends at `j` or strictly closer to `j`. -/
theorem next_gap_lt {p : Fin n → Bool} {c b j : Fin n} (hj : p j = true)
    (h : next p c = some b) (hbj : b ≠ j) : gap b j < gap c j := by
  have hmin := (next_eq_some_iff.mp h).2 j hj
  have hne : gap c b ≠ gap c j := fun he => hbj (gap_injective c he)
  have := gap_add (show gap c b < gap c j by omega)
  omega

/-! ## A whole turn -/

/-- The first satisfying slot after `c`, in cyclic order. -/
def follow (p : Fin n → Bool) (c : Fin n) : Fin n := (next p c).getD c

section Follow
variable {p : Fin n → Bool} {a c j : Fin n}

theorem next_eq_follow (ha : p a = true) (c : Fin n) : next p c = some (follow p c) := by
  unfold follow
  cases hn : next p c with
  | none =>
    have := next_eq_none_iff.mp hn a
    simp [ha] at this
  | some b => rfl

theorem follow_sat (ha : p a = true) (c : Fin n) : p (follow p c) = true :=
  (next_eq_some_iff.mp (next_eq_follow ha c)).1

theorem follow_gap_lt (hj : p j = true) (hne : follow p c ≠ j) : gap (follow p c) j < gap c j :=
  next_gap_lt hj (next_eq_follow hj c) hne

theorem follow_iterate_sat (ha : p a = true) (k : ℕ) : p ((follow p)^[k] a) = true := by
  cases k with
  | zero => exact ha
  | succ k =>
    rw [Function.iterate_succ_apply']
    exact follow_sat ha _

/-- As long as `j` is not met, every step comes closer to it. -/
theorem follow_iterate_gap (hj : p j = true) {k : ℕ}
    (hne : ∀ i, 0 < i → i ≤ k → (follow p)^[i] a ≠ j) :
    gap ((follow p)^[k] a) j + k ≤ gap a j := by
  induction k with
  | zero => rfl
  | succ k ih =>
    have hprev := ih fun i hi hik => hne i hi (by omega)
    have hlast := hne (k + 1) (by omega) le_rfl
    rw [Function.iterate_succ_apply'] at hlast ⊢
    have hlt := follow_gap_lt hj hlast
    omega

/-- Following from a satisfying slot comes back to it for the first time after `T` steps. -/
theorem exists_first_return (ha : p a = true) :
    ∃ T, 0 < T ∧ (follow p)^[T] a = a ∧ ∀ k, 0 < k → k < T → (follow p)^[k] a ≠ a := by
  have hex : ∃ T, 0 < T ∧ (follow p)^[T] a = a := by
    by_contra hno
    have hgap := follow_iterate_gap (a := a) (k := n) ha fun i hi _ he => hno ⟨i, hi, he⟩
    have := gap_lt a a
    omega
  obtain ⟨hpos, hret⟩ := Nat.find_spec hex
  exact ⟨Nat.find hex, hpos, hret, fun k hk hlt he => Nat.find_min hex hlt ⟨hk, he⟩⟩

/-- Up to the first return no slot is met twice. -/
theorem follow_iterate_injOn (ha : p a = true) {T : ℕ}
    (hfirst : ∀ k, 0 < k → k < T → (follow p)^[k] a ≠ a) {i k : ℕ} (hik : i < k) (hk : k < T) :
    (follow p)^[i] a ≠ (follow p)^[k] a := by
  intro he
  have hclose := follow_iterate_gap (a := (follow p)^[i] a) (k := k - i) ha fun l hl hle => by
    rw [← Function.iterate_add_apply]
    exact hfirst (l + i) (by omega) (by omega)
  rw [← Function.iterate_add_apply, Nat.sub_add_cancel hik.le, ← he] at hclose
  omega

/-- Before the first return every satisfying slot is met. -/
theorem exists_follow_iterate_eq (hj : p j = true) {T : ℕ} (hT : 0 < T)
    (hret : (follow p)^[T] a = a) : ∃ k, k < T ∧ (follow p)^[k] a = j := by
  by_contra hno
  have hne : ∀ i, 0 < i → i ≤ T → (follow p)^[i] a ≠ j := by
    intro i _ hiT he
    rcases Nat.lt_or_eq_of_le hiT with hlt | rfl
    · exact hno ⟨i, hlt, he⟩
    · exact hno ⟨0, hT, by rw [← he, hret]; rfl⟩
  have hgap := follow_iterate_gap hj hne
  rw [hret] at hgap
  omega

end Follow

/-- Following from a member of `R` goes once through `R` and is back after `|R|` steps. -/
theorem turn_spec {R : Finset (Fin n)} {a : Fin n} (ha : a ∈ R) :
    (follow (· ∈ R))^[R.card] a = a ∧ (List.iterate (follow (· ∈ R)) a R.card).Nodup ∧
      ∀ j, j ∈ List.iterate (follow (· ∈ R)) a R.card ↔ j ∈ R := by
  have hsat : ∀ {i : Fin n}, i ∈ R → (fun i => decide (i ∈ R)) i = true := fun hi => decide_eq_true hi
  obtain ⟨T, hT, hret, hfirst⟩ := exists_first_return (p := fun i => decide (i ∈ R)) (hsat ha)
  have hnodup : (List.iterate (follow (· ∈ R)) a T).Nodup := by
    rw [← List.range_map_iterate]
    refine List.nodup_range.map_on fun i hi k hk he => ?_
    rw [List.mem_range] at hi hk
    rcases Nat.lt_trichotomy i k with hlt | heq | hlt
    · exact absurd he (follow_iterate_injOn (hsat ha) hfirst hlt hk)
    · exact heq
    · exact absurd he.symm (follow_iterate_injOn (hsat ha) hfirst hlt hi)
  have hmem : ∀ j, j ∈ List.iterate (follow (· ∈ R)) a T ↔ j ∈ R := by
    intro j
    rw [List.mem_iterate]
    constructor
    · rintro ⟨k, -, rfl⟩
      have hk := follow_iterate_sat (p := fun i => decide (i ∈ R)) (hsat ha) k
      exact of_decide_eq_true hk
    · intro hj
      obtain ⟨k, hk, he⟩ := exists_follow_iterate_eq (p := fun i => decide (i ∈ R)) (hsat hj) hT hret
      exact ⟨k, hk, he.symm⟩
  have hcard : R.card = T := by
    have hset : (List.iterate (follow (· ∈ R)) a T).toFinset = R := by
      ext j
      rw [List.mem_toFinset, hmem]
    rw [← hset, List.toFinset_card_of_nodup hnodup, List.length_iterate]
  rw [hcard]
  exact ⟨hret, hnodup, hmem⟩

end Cerberus.CyclicScan
