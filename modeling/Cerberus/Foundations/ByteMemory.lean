import Mathlib.Data.BitVec
import Mathlib.Logic.Function.Basic

/-! # Byte-addressed memory of a 32-bit little-endian machine

Addresses and registers are 32-bit words and every address computation wraps. A word at `a` is the
four bytes `a, a+1, a+2, a+3`, lowest first, with no alignment requirement. -/
namespace Cerberus
set_option autoImplicit false

/-- A machine word: `usize` and `u32` of the 32-bit target. -/
abbrev Word := BitVec 32

abbrev Byte := BitVec 8

abbrev Memory := Word → Byte

namespace Memory

def readWord (m : Memory) (a : Word) : Word := m (a + 3) ++ m (a + 2) ++ m (a + 1) ++ m a

def writeWord (m : Memory) (a v : Word) : Memory :=
  Function.update (Function.update (Function.update (Function.update m a (v.extractLsb' 0 8))
    (a + 1) (v.extractLsb' 8 8)) (a + 2) (v.extractLsb' 16 8)) (a + 3) (v.extractLsb' 24 8)

/-- Word `i` of the frame at `sp`. -/
def slot (sp : Word) (i : ℕ) : Word := sp + BitVec.ofNat 32 (4 * i)

theorem readWord_writeWord_of_disjoint (m : Memory) {a b : Word} (v : Word)
    (h : ∀ c d : Word, c.toNat < 4 → d.toNat < 4 → a + c ≠ b + d) :
    (m.writeWord b v).readWord a = m.readWord a := by
  have hbyte : ∀ c : Word, c.toNat < 4 → (m.writeWord b v) (a + c) = m (a + c) := by
    intro c hc
    have h0 : a + c ≠ b := by simpa using h c 0 hc (by decide)
    unfold writeWord
    rw [Function.update_of_ne (h c 3 hc (by decide)), Function.update_of_ne (h c 2 hc (by decide)),
      Function.update_of_ne (h c 1 hc (by decide)), Function.update_of_ne h0]
  have h0 : (m.writeWord b v) a = m a := by simpa using hbyte 0 (by decide)
  unfold readWord
  rw [hbyte 3 (by decide), hbyte 2 (by decide), hbyte 1 (by decide), h0]

/-- The words of one frame are disjoint. -/
theorem readWord_slot_writeWord_slot (m : Memory) (sp v : Word) {i j : ℕ} (hi : i < 32) (hj : j < 32)
    (hij : i ≠ j) : (m.writeWord (slot sp j) v).readWord (slot sp i) = m.readWord (slot sp i) := by
  apply readWord_writeWord_of_disjoint
  intro c d hc hd heq
  unfold slot at heq
  rw [BitVec.add_assoc, BitVec.add_assoc] at heq
  have hcancel := congrArg BitVec.toNat ((BitVec.add_right_inj sp).mp heq)
  simp only [BitVec.toNat_add, BitVec.toNat_ofNat] at hcancel
  omega

/-! ## Ranges of bytes -/

/-- Byte `b` is one of the `n` bytes from `a` on. -/
def InRange (a : Word) (n : ℕ) (b : Word) : Prop := (b - a).toNat < n

instance (a : Word) (n : ℕ) (b : Word) : Decidable (InRange a n b) := by
  unfold InRange
  infer_instance

theorem inRange_iff {a b : Word} {n : ℕ} :
    InRange a n b ↔ ∃ j < n, b = a + BitVec.ofNat 32 j := by
  constructor
  · intro h
    refine ⟨(b - a).toNat, h, ?_⟩
    rw [BitVec.ofNat_toNat, BitVec.setWidth_eq, BitVec.add_comm, BitVec.sub_add_cancel]
  · rintro ⟨j, hj, rfl⟩
    rw [InRange, BitVec.add_comm, BitVec.add_sub_cancel, BitVec.toNat_ofNat]
    exact (Nat.mod_le j _).trans_lt hj

theorem inRange_add {a : Word} {n j : ℕ} (hj : j < n) : InRange a n (a + BitVec.ofNat 32 j) :=
  inRange_iff.mpr ⟨j, hj, rfl⟩

theorem forall_inRange {a : Word} {n : ℕ} {Q : Word → Prop} :
    (∀ b, InRange a n b → Q b) ↔ ∀ j < n, Q (a + BitVec.ofNat 32 j) := by
  constructor
  · exact fun h j hj => h _ (inRange_add hj)
  · intro h b hb
    obtain ⟨j, hj, rfl⟩ := inRange_iff.mp hb
    exact h j hj

instance (a : Word) (n : ℕ) (Q : Word → Prop) [DecidablePred Q] :
    Decidable (∀ b, InRange a n b → Q b) := decidable_of_iff' _ forall_inRange

theorem InRange.mono {a b : Word} {n n' : ℕ} (h : InRange a n b) (hn : n ≤ n') : InRange a n' b :=
  lt_of_lt_of_le h hn

theorem inRange_disjoint {a b : Word} {n n' : ℕ} (hab : a.toNat + n ≤ b.toNat)
    (hb : b.toNat + n' ≤ 2 ^ 32) (c : Word) (hc : InRange a n c) : ¬ InRange b n' c := by
  intro hc'
  have hlt := c.isLt
  simp only [InRange, BitVec.toNat_sub] at hc hc'
  omega

theorem InRange.of_slot {sp b : Word} {i n : ℕ} (h : InRange (slot sp i) 4 b) (hi : 4 * i + 4 ≤ n) :
    InRange sp n b := by
  obtain ⟨j, hj, rfl⟩ := inRange_iff.mp h
  refine inRange_iff.mpr ⟨4 * i + j, by omega, ?_⟩
  rw [slot, BitVec.add_assoc, BitVec.ofNat_add]

theorem InRange.frame_succ {sp b : Word} {n : ℕ} (h : InRange sp (4 * (n + 1)) b) :
    InRange sp (4 * n) b ∨ InRange (slot sp n) 4 b := by
  obtain ⟨j, hj, rfl⟩ := inRange_iff.mp h
  by_cases hn : j < 4 * n
  · exact Or.inl (inRange_add hn)
  · refine Or.inr (inRange_iff.mpr ⟨j - 4 * n, by omega, ?_⟩)
    rw [slot, BitVec.add_assoc, ← BitVec.ofNat_add, Nat.add_sub_cancel' (by omega)]

/-- The `n` bytes from `a` on. -/
def bytes (m : Memory) (a : Word) (n : ℕ) : List Byte :=
  (List.range n).map fun j => m (a + BitVec.ofNat 32 j)

@[simp] theorem length_bytes (m : Memory) (a : Word) (n : ℕ) : (m.bytes a n).length = n := by
  simp [bytes]

theorem bytes_eq {m m' : Memory} {a b : Word} {n : ℕ}
    (h : ∀ j < n, m' (b + BitVec.ofNat 32 j) = m (a + BitVec.ofNat 32 j)) :
    m'.bytes b n = m.bytes a n :=
  List.map_congr_left fun j hj => h j (List.mem_range.mp hj)

theorem bytes_congr {m m' : Memory} {a : Word} {n : ℕ} (h : ∀ b, InRange a n b → m' b = m b) :
    m'.bytes a n = m.bytes a n := bytes_eq (forall_inRange.mp h)

theorem take_bytes (m : Memory) (a : Word) {n n' : ℕ} (hn : n ≤ n') :
    (m.bytes a n').take n = m.bytes a n := by
  rw [bytes, ← List.map_take, List.take_range, Nat.min_eq_left hn]
  rfl

theorem readWord_congr {m m' : Memory} {a : Word} (h : ∀ b, InRange a 4 b → m' b = m b) :
    m'.readWord a = m.readWord a := by
  have hbyte : ∀ j < 4, m' (a + BitVec.ofNat 32 j) = m (a + BitVec.ofNat 32 j) := fun j hj =>
    h _ (inRange_add hj)
  have h0 : m' a = m a := by simpa using hbyte 0 (by omega)
  unfold readWord
  rw [h0, show m' (a + 1) = m (a + 1) from hbyte 1 (by omega),
    show m' (a + 2) = m (a + 2) from hbyte 2 (by omega),
    show m' (a + 3) = m (a + 3) from hbyte 3 (by omega)]

/-- The four updates, with the addresses in one form. -/
theorem writeWord_eq (m : Memory) (a v : Word) :
    m.writeWord a v = Function.update (Function.update (Function.update (Function.update m
      (a + BitVec.ofNat 32 0) (v.extractLsb' 0 8)) (a + BitVec.ofNat 32 1) (v.extractLsb' 8 8))
      (a + BitVec.ofNat 32 2) (v.extractLsb' 16 8)) (a + BitVec.ofNat 32 3) (v.extractLsb' 24 8) := by
  rw [show a + BitVec.ofNat 32 0 = a by simp]
  rfl

theorem writeWord_of_not_inRange (m : Memory) {a b : Word} (v : Word) (h : ¬ InRange a 4 b) :
    (m.writeWord a v) b = m b := by
  have hne : ∀ j < 4, b ≠ a + BitVec.ofNat 32 j := fun j hj he => h (he ▸ inRange_add hj)
  rw [writeWord_eq, Function.update_of_ne (hne 3 (by omega)),
    Function.update_of_ne (hne 2 (by omega)), Function.update_of_ne (hne 1 (by omega)),
    Function.update_of_ne (hne 0 (by omega))]

theorem writeWord_apply (m : Memory) (a v : Word) {j : ℕ} (hj : j < 4) :
    (m.writeWord a v) (a + BitVec.ofNat 32 j) = v.extractLsb' (8 * j) 8 := by
  have hne : ∀ i < 4, i ≠ j → a + BitVec.ofNat 32 j ≠ a + BitVec.ofNat 32 i := by
    intro i hi hij heq
    have hcancel := congrArg BitVec.toNat ((BitVec.add_right_inj a).mp heq)
    simp only [BitVec.toNat_ofNat] at hcancel
    omega
  rw [writeWord_eq]
  obtain rfl | rfl | rfl | rfl : j = 0 ∨ j = 1 ∨ j = 2 ∨ j = 3 := by omega
  · rw [Function.update_of_ne (hne 3 (by omega) (by omega)),
      Function.update_of_ne (hne 2 (by omega) (by omega)),
      Function.update_of_ne (hne 1 (by omega) (by omega)), Function.update_self]
  · rw [Function.update_of_ne (hne 3 (by omega) (by omega)),
      Function.update_of_ne (hne 2 (by omega) (by omega)), Function.update_self]
  · rw [Function.update_of_ne (hne 3 (by omega) (by omega)), Function.update_self]
  · rw [Function.update_self]

theorem writeWord_congr {m m' : Memory} {a b : Word} (v : Word) (h : m' b = m b) :
    (m'.writeWord a v) b = (m.writeWord a v) b := by
  by_cases hb : InRange a 4 b
  · obtain ⟨j, hj, rfl⟩ := inRange_iff.mp hb
    rw [writeWord_apply m' a v hj, writeWord_apply m a v hj]
  · rw [writeWord_of_not_inRange m' v hb, writeWord_of_not_inRange m v hb, h]

theorem writeWord_zero (m : Memory) {a b : Word} (h : InRange a 4 b) :
    (m.writeWord a 0#32) b = 0#8 := by
  obtain ⟨j, hj, rfl⟩ := inRange_iff.mp h
  rw [writeWord_apply m a 0#32 hj]
  simp

theorem readWord_eq_zero {m : Memory} {a : Word} (h : ∀ b, InRange a 4 b → m b = 0#8) :
    m.readWord a = 0#32 := by
  rw [readWord_congr (m := fun _ => 0#8) h]
  simp [readWord]

/-- A word of zeros stays one when another zero is written. -/
theorem readWord_writeWord_zero {m : Memory} {a : Word} (b : Word)
    (h : ∀ c, InRange a 4 c → m c = 0#8) : (m.writeWord b 0#32).readWord a = 0#32 := by
  refine readWord_eq_zero fun c hc => ?_
  by_cases hb : InRange b 4 c
  · exact writeWord_zero m hb
  · rw [writeWord_of_not_inRange m 0#32 hb, h c hc]

theorem readWord_writeWord_self (m : Memory) (a v : Word) : (m.writeWord a v).readWord a = v := by
  have hbyte : ∀ j < 4, (m.writeWord a v) (a + BitVec.ofNat 32 j) = v.extractLsb' (8 * j) 8 :=
    fun j hj => writeWord_apply m a v hj
  have h0 : (m.writeWord a v) a = v.extractLsb' 0 8 := by simpa using hbyte 0 (by omega)
  unfold readWord
  rw [h0, show (m.writeWord a v) (a + 1) = v.extractLsb' 8 8 from hbyte 1 (by omega),
    show (m.writeWord a v) (a + 2) = v.extractLsb' 16 8 from hbyte 2 (by omega),
    show (m.writeWord a v) (a + 3) = v.extractLsb' 24 8 from hbyte 3 (by omega)]
  apply BitVec.eq_of_getLsbD_eq
  intro i hi
  simp only [BitVec.getLsbD_append, BitVec.getLsbD_extractLsb']
  grind

/-! ## Consecutive words -/

theorem inRange_slot_ne {sp b : Word} {i j : ℕ} (hi : i < 32) (hj : j < 32) (hij : i ≠ j)
    (hb : InRange (slot sp i) 4 b) : ¬ InRange (slot sp j) 4 b := by
  intro hb'
  obtain ⟨c, hc, rfl⟩ := inRange_iff.mp hb
  obtain ⟨d, hd, heq⟩ := inRange_iff.mp hb'
  unfold slot at heq
  rw [BitVec.add_assoc, BitVec.add_assoc] at heq
  have hcancel := congrArg BitVec.toNat ((BitVec.add_right_inj sp).mp heq)
  simp only [BitVec.toNat_add, BitVec.toNat_ofNat] at hcancel
  omega

/-- The words in order, from word `i` of the frame at `sp` on. -/
def storeWords (m : Memory) (sp : Word) : ℕ → List Word → Memory
  | _, [] => m
  | i, w :: ws => storeWords (m.writeWord (slot sp i) w) sp (i + 1) ws

theorem readWord_storeWords_before (m : Memory) (sp : Word) {i j : ℕ} (hj : j < i) (ws : List Word)
    (hlen : i + ws.length ≤ 32) :
    (storeWords m sp i ws).readWord (slot sp j) = m.readWord (slot sp j) := by
  induction ws generalizing m i with
  | nil => rfl
  | cons w ws ih =>
    rw [List.length_cons] at hlen
    rw [storeWords, ih _ (by omega) (by omega),
      readWord_slot_writeWord_slot m sp w (by omega) (by omega) (by omega)]

theorem readWord_storeWords (m : Memory) (sp : Word) (i : ℕ) (ws : List Word)
    (hlen : i + ws.length ≤ 32) {j : ℕ} (hj : j < ws.length) :
    (storeWords m sp i ws).readWord (slot sp (i + j)) = ws[j] := by
  induction ws generalizing m i j with
  | nil => cases hj
  | cons w ws ih =>
    rw [List.length_cons] at hlen hj
    cases j with
    | zero =>
      rw [storeWords, readWord_storeWords_before _ _ (by omega) ws (by omega)]
      exact readWord_writeWord_self m _ w
    | succ j =>
      have hrest := ih (m.writeWord (slot sp i) w) (i + 1) (by omega) (j := j) (by omega)
      rw [Nat.add_right_comm, Nat.add_assoc] at hrest
      exact hrest

theorem storeWords_outside (m : Memory) {sp b : Word} (hb : ¬ InRange sp 128 b) (i : ℕ)
    (ws : List Word) (hlen : i + ws.length ≤ 32) : storeWords m sp i ws b = m b := by
  induction ws generalizing m i with
  | nil => rfl
  | cons w ws ih =>
    rw [List.length_cons] at hlen
    rw [storeWords, ih _ _ (by omega),
      writeWord_of_not_inRange m w fun hin => hb (hin.of_slot (by omega))]

end Memory
end Cerberus
