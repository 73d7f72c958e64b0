import Cerberus.Foundations.Varint
import Cerberus.Kernel.State

/-! # The telemetry codec

What `log_telemetry` writes for a `TraceEvent` (Postcard: discriminants and `u32` as variable-length
integers, `u8` as one byte), and `read_varint` and `parse_event` of `host/telemetry_broker.py`. A
parser is a function of the unread bytes, and returns what it leaves unread. -/
namespace Cerberus.Telemetry
open Kernel
set_option autoImplicit false

/-! ## Postcard -/

/-- `u32` takes five bytes at most. -/
def encodeU32 (n : ℕ) : List Byte := Varint.encode 4 n

def encode : TraceEvent → List Byte
  | .taskSwap src dst cycles => encodeU32 0 ++ [src, dst] ++ encodeU32 cycles.toNat
  | .ipcTransfer endpoint bytes => encodeU32 1 ++ [endpoint, bytes]
  | .faultInterception cause pc => encodeU32 2 ++ encodeU32 cause.toNat ++ encodeU32 pc.toNat

/-- The length of a buffer in `BUFS`. -/
def BUF_LEN : ℕ := 32

/-- `postcard::to_slice` into a buffer; `none` is its error when the event does not fit. -/
def toSlice (len : ℕ) (event : TraceEvent) : Option (List Byte) :=
  if (encode event).length ≤ len then some (encode event) else none

def encodeAll (events : List TraceEvent) : List Byte := events.flatMap encode

/-! ## The parser -/

/-- The dictionaries of `parse_event`; their numbers are unbounded. -/
inductive Record where
  | taskSwap (src dst cycles : ℕ)
  | ipcTransfer (endpoint bytes : ℕ)
  | faultInterception (cause pc : ℕ)
  deriving DecidableEq

def record : TraceEvent → Record
  | .taskSwap src dst cycles => .taskSwap src.toNat dst.toNat cycles.toNat
  | .ipcTransfer endpoint bytes => .ipcTransfer endpoint.toNat bytes.toNat
  | .faultInterception cause pc => .faultInterception cause.toNat pc.toNat

inductive PyError where
  | eofError
  deriving DecidableEq

def readVarint (stream : List Byte) : Except PyError (ℕ × List Byte) :=
  match Varint.decodeFrom 0 0 stream with
  | some r => .ok r
  | none => .error .eofError

/-- The two `stream.read(1)` after the tag; `none` when either finds the end. -/
def readPair : List Byte → Option (ℕ × ℕ × List Byte)
  | a :: b :: stream => some (a.toNat, b.toNat, stream)
  | _ => none

/-- `parse_event`; `none` is `None`. Only the end of the data inside the tag is caught. -/
def parseEvent (stream : List Byte) : Except PyError (Option (Record × List Byte)) :=
  match readVarint stream with
  | .error _ => .ok none
  | .ok (tag, stream) =>
    if tag = 0 then
      match readPair stream with
      | none => .ok none
      | some (fromVal, toVal, stream) => do
        let (cycles, stream) ← readVarint stream
        return some (.taskSwap fromVal toVal cycles, stream)
    else if tag = 1 then
      match readPair stream with
      | none => .ok none
      | some (epVal, bytesVal, stream) => .ok (some (.ipcTransfer epVal bytesVal, stream))
    else if tag = 2 then do
      let (cause, stream) ← readVarint stream
      let (pc, stream) ← readVarint stream
      return some (.faultInterception cause pc, stream)
    else .ok none

/-! ## What the parser reads back -/

theorem readVarint_eq (stream : List Byte) {r : ℕ × List Byte} :
    readVarint stream = .ok r ↔ Varint.decode stream = some r := by
  unfold readVarint
  rw [Varint.decodeFrom_zero]
  cases Varint.decode stream <;> simp

theorem readVarint_encodeU32 {n : ℕ} (hn : n < 2 ^ 32) (rest : List Byte) :
    readVarint (encodeU32 n ++ rest) = .ok (n, rest) := by
  rw [readVarint_eq]
  exact Varint.decode_encode (Nat.lt_trans hn (by decide)) rest

theorem length_encodeU32_le {stream rest : List Byte} {n : ℕ}
    (hr : readVarint stream = .ok (n, rest)) :
    rest.length + (encodeU32 n).length ≤ stream.length :=
  Varint.length_encode_le_of_decode 4 ((readVarint_eq stream).mp hr)

theorem length_readPair {stream rest : List Byte} {a b : ℕ} (hr : readPair stream = some (a, b, rest)) :
    stream.length = rest.length + 2 := by
  unfold readPair at hr
  split at hr
  · obtain ⟨-, -, rfl⟩ : _ ∧ _ ∧ _ := by simpa using hr
    rfl
  · cases hr

theorem parseEvent_encode (e : TraceEvent) (rest : List Byte) :
    parseEvent (encode e ++ rest) = .ok (some (record e, rest)) := by
  unfold parseEvent
  cases e with
  | taskSwap src dst cycles =>
    have hcycles := readVarint_encodeU32 cycles.isLt rest
    simp only [encode, List.append_assoc, readVarint_encodeU32 (by decide : 0 < 2 ^ 32), if_pos,
      List.cons_append, List.nil_append, readPair, hcycles]
    rfl
  | ipcTransfer endpoint bytes =>
    simp only [encode, List.append_assoc, readVarint_encodeU32 (by decide : 1 < 2 ^ 32), readPair,
      List.cons_append, List.nil_append]
    rfl
  | faultInterception cause pc =>
    have hcause := readVarint_encodeU32 cause.isLt (encodeU32 pc.toNat ++ rest)
    have hpc := readVarint_encodeU32 pc.isLt rest
    simp only [encode, List.append_assoc, readVarint_encodeU32 (by decide : 2 < 2 ^ 32), hcause]
    show (do
      let (pc, stream) ← readVarint (encodeU32 pc.toNat ++ rest)
      return some (Record.faultInterception cause.toNat pc, stream)) = _
    rw [hpc]
    rfl

/-- The bytes an event with this dictionary takes at least. -/
def Record.size : Record → ℕ
  | .taskSwap _ _ cycles => 3 + (encodeU32 cycles).length
  | .ipcTransfer _ _ => 3
  | .faultInterception cause pc => 1 + (encodeU32 cause).length + (encodeU32 pc).length

theorem size_record (e : TraceEvent) : (record e).size = (encode e).length := by
  cases e with
  | taskSwap src dst cycles => simp [record, Record.size, encode, encodeU32, Varint.encode]; omega
  | ipcTransfer endpoint bytes => simp [record, Record.size, encode, encodeU32, Varint.encode]
  | faultInterception cause pc => simp [record, Record.size, encode, encodeU32, Varint.encode]; omega

theorem Record.size_pos (r : Record) : 0 < r.size := by
  cases r with
  | taskSwap _ _ _ => exact Nat.lt_of_lt_of_le (by decide) (Nat.le_add_right 3 _)
  | ipcTransfer _ _ => exact (by decide : 0 < 3)
  | faultInterception _ _ =>
    exact Nat.lt_of_lt_of_le Nat.zero_lt_one ((Nat.le_add_right 1 _).trans (Nat.le_add_right _ _))

theorem length_encodeU32_pos (n : ℕ) : 0 < (encodeU32 n).length := by
  rw [encodeU32, Varint.encode]
  split <;> simp

theorem bind_eq_ok {α β : Type} {x : Except PyError α} {f : α → Except PyError β} {b : β}
    (hb : x >>= f = .ok b) : ∃ a, x = .ok a ∧ f a = .ok b := by
  cases x with
  | error e => cases hb
  | ok a => exact ⟨a, rfl, hb⟩

/-- The ways `parse_event` returns an event. -/
theorem parseEvent_cases {stream rest : List Byte} {r : Record}
    (hp : parseEvent stream = .ok (some (r, rest))) :
    ∃ tag stream1, readVarint stream = .ok (tag, stream1) ∧
      ((∃ a b c stream2, tag = 0 ∧ r = .taskSwap a b c ∧ readPair stream1 = some (a, b, stream2) ∧
          readVarint stream2 = .ok (c, rest)) ∨
        (∃ a b, tag = 1 ∧ r = .ipcTransfer a b ∧ readPair stream1 = some (a, b, rest)) ∨
        ∃ c p stream2, tag = 2 ∧ r = .faultInterception c p ∧ readVarint stream1 = .ok (c, stream2) ∧
          readVarint stream2 = .ok (p, rest)) := by
  unfold parseEvent at hp
  split at hp
  · cases hp
  · rename_i tag stream1 htag
    refine ⟨tag, stream1, htag, ?_⟩
    split at hp
    · rename_i htag
      split at hp
      · cases hp
      · rename_i a b stream2 hpair
        obtain ⟨⟨c, stream3⟩, hc, hr⟩ := bind_eq_ok hp
        obtain ⟨rfl, rfl⟩ : Record.taskSwap a b c = r ∧ stream3 = rest := by
          simpa [pure, Except.pure] using hr
        exact Or.inl ⟨a, b, c, stream2, htag, rfl, hpair, hc⟩
    · split at hp
      · rename_i htag
        split at hp
        · cases hp
        · rename_i a b stream2 hpair
          obtain ⟨rfl, rfl⟩ : Record.ipcTransfer a b = r ∧ stream2 = rest := by simpa using hp
          exact Or.inr (Or.inl ⟨a, b, htag, rfl, hpair⟩)
      · split at hp
        · rename_i htag
          obtain ⟨⟨c, stream2⟩, hc, hp⟩ := bind_eq_ok hp
          obtain ⟨⟨p, stream3⟩, hpc, hr⟩ := bind_eq_ok hp
          obtain ⟨rfl, rfl⟩ : Record.faultInterception c p = r ∧ stream3 = rest := by
            simpa [pure, Except.pure] using hr
          exact Or.inr (Or.inr ⟨c, p, stream2, htag, rfl, hc, hpc⟩)
        · cases hp

theorem size_le_of_parseEvent {stream rest : List Byte} {r : Record}
    (hp : parseEvent stream = .ok (some (r, rest))) : rest.length + r.size ≤ stream.length := by
  obtain ⟨tag, stream1, htag, hr⟩ := parseEvent_cases hp
  have h1 := length_encodeU32_le htag
  have hpos := length_encodeU32_pos tag
  rcases hr with ⟨a, b, c, stream2, -, rfl, hpair, hc⟩ | ⟨a, b, -, rfl, hpair⟩ |
    ⟨c, p, stream2, -, rfl, hc, hpc⟩
  · have h2 := length_readPair hpair
    have h3 := length_encodeU32_le hc
    simp only [Record.size]
    omega
  · have h2 := length_readPair hpair
    simp only [Record.size]
    omega
  · have h2 := length_encodeU32_le hc
    have h3 := length_encodeU32_le hpc
    simp only [Record.size]
    omega

/-! ## Truncated events -/

theorem readVarint_append {stream rest : List Byte} {n : ℕ} (hr : readVarint stream = .ok (n, rest))
    (more : List Byte) : readVarint (stream ++ more) = .ok (n, rest ++ more) := by
  rw [readVarint_eq] at hr ⊢
  exact Varint.decode_append hr more

theorem readPair_append {stream rest : List Byte} {a b : ℕ} (hr : readPair stream = some (a, b, rest))
    (more : List Byte) : readPair (stream ++ more) = some (a, b, rest ++ more) := by
  unfold readPair at hr
  split at hr
  · obtain ⟨rfl, rfl, rfl⟩ : _ ∧ _ ∧ _ := by simpa using hr
    rfl
  · cases hr

/-- An event that is complete is read the same whatever follows. -/
theorem parseEvent_append {stream rest : List Byte} {r : Record}
    (hp : parseEvent stream = .ok (some (r, rest))) (more : List Byte) :
    parseEvent (stream ++ more) = .ok (some (r, rest ++ more)) := by
  obtain ⟨tag, stream1, htag, hr⟩ := parseEvent_cases hp
  unfold parseEvent
  rw [readVarint_append htag more]
  rcases hr with ⟨a, b, c, stream2, rfl, rfl, hpair, hc⟩ | ⟨a, b, rfl, rfl, hpair⟩ |
    ⟨c, p, stream2, rfl, rfl, hc, hpc⟩
  · simp only [readPair_append hpair more, readVarint_append hc more]
    rfl
  · simp only [readPair_append hpair more]
    rfl
  · simp only [readVarint_append hc more]
    change (do
      let (pc, stream) ← readVarint (stream2 ++ more)
      return some (Record.faultInterception c pc, stream)) = _
    rw [readVarint_append hpc more]
    rfl

theorem length_encodeU32_le_five {n : ℕ} (hn : n < 2 ^ 32) : (encodeU32 n).length ≤ 5 :=
  Varint.length_encode_le (j := 4) 4 (Nat.lt_trans hn (by decide))

theorem length_encode_le (e : TraceEvent) : (encode e).length ≤ 11 := by
  rw [← size_record]
  cases e with
  | taskSwap src dst cycles =>
    have hcycles := length_encodeU32_le_five cycles.isLt
    simp only [record, Record.size]
    omega
  | ipcTransfer endpoint bytes => exact (by decide : 3 ≤ 11)
  | faultInterception cause pc =>
    have hcause := length_encodeU32_le_five cause.isLt
    have hpc := length_encodeU32_le_five pc.isLt
    simp only [record, Record.size]
    omega

theorem toSlice_eq (e : TraceEvent) : toSlice BUF_LEN e = some (encode e) :=
  if_pos ((length_encode_le e).trans (by decide))

/-- No proper beginning of an event reads as an event: read to its end, the whole would leave bytes
over. -/
theorem parseEvent_truncated {e : TraceEvent} {start : List Byte} (hstart : start <+: encode e)
    (hne : start ≠ encode e) (r : Record × List Byte) : parseEvent start ≠ .ok (some r) := by
  intro hp
  obtain ⟨more, hmore⟩ := hstart
  obtain ⟨event, rest⟩ := r
  have hwhole := parseEvent_append hp more
  have hback := parseEvent_encode e []
  rw [List.append_nil, ← hmore, hwhole] at hback
  obtain ⟨-, hrest⟩ := Prod.mk.inj (Option.some.inj (Except.ok.inj hback))
  obtain ⟨-, rfl⟩ := List.append_eq_nil_iff.mp hrest
  rw [List.append_nil] at hmore
  exact hne hmore

theorem codec_round_trip (e : TraceEvent) :
    toSlice BUF_LEN e = some (encode e) ∧
      (∀ rest, parseEvent (encode e ++ rest) = .ok (some (record e, rest))) ∧
      ∀ start, start <+: encode e → start ≠ encode e →
        parseEvent start = .ok none ∨ parseEvent start = .error .eofError := by
  refine ⟨toSlice_eq e, parseEvent_encode e, fun start hstart hne => ?_⟩
  have hno := parseEvent_truncated hstart hne
  rcases hp : parseEvent start with err | result
  · cases err
    exact Or.inr rfl
  · cases result with
    | none => exact Or.inl rfl
    | some r => exact absurd hp (hno r)

theorem codec_round_trip_transfer :
    toSlice BUF_LEN (.ipcTransfer 2 12) = some [1, 2, 12] ∧
      parseEvent [1, 2, 12, 7] = .ok (some (.ipcTransfer 2 12, [7])) ∧
      (parseEvent [1, 2] = .ok none ∨ parseEvent [1, 2] = .error .eofError) := by
  obtain ⟨hfits, hparse, htruncated⟩ := codec_round_trip (.ipcTransfer 2 12)
  exact ⟨hfits, hparse [7], htruncated [1, 2] ⟨[12], rfl⟩ (by decide)⟩

end Cerberus.Telemetry
