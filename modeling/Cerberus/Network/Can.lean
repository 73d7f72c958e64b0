import Mathlib.Data.Fin.VecNotation
import Cerberus.Signing.Hsm

/-! # The CAN boundary filter

`CanFrame::parse` of `network/src/can.rs`: the identifier and the length are cut out of three bytes of
a raw frame, the identifier is looked up in a list, and only the announced payload is copied. -/
namespace Cerberus.Network
open Signing (CanFrame)
set_option autoImplicit false

/-- A frame as the transceiver delivers it, `[u8; 13]`. -/
abbrev RawFrame := Fin 13 → Byte

inductive CanError where
  | blockedId (id : BitVec 16)
  | invalidDlc (dlc : Byte)
  | bufferFull
  deriving DecidableEq

def BLOCKED_IDS : List (BitVec 16) := [0x7DF, 0x7E0, 0x7E1, 0x7E8]

def parseId (raw : RawFrame) : BitVec 16 :=
  ((raw 0).setWidth 16 <<< 3) ||| ((raw 1).setWidth 16 >>> 5)

def parseDlc (raw : RawFrame) : Byte := raw 2 &&& 0x0F

/-- The payload starts at zero and takes the first `dlc` bytes after the header. -/
def parsePayload (raw : RawFrame) (dlc : Byte) (i : Fin 8) : Byte :=
  if i.val < dlc.toNat then raw ⟨3 + i.val, by omega⟩ else 0

def parse (raw : RawFrame) : Except CanError CanFrame :=
  let id := parseId raw
  if id ∈ BLOCKED_IDS then .error (.blockedId id)
  else
    let dlc := parseDlc raw
    if 8 < dlc then .error (.invalidDlc dlc)
    else .ok ⟨id, dlc, parsePayload raw dlc⟩

/-! ## The fields of a raw frame -/

/-- The identifier and the length of a raw frame in plain arithmetic. -/
def rawId (raw : RawFrame) : ℕ := (raw 0).toNat * 8 + (raw 1).toNat / 32

def rawDlc (raw : RawFrame) : ℕ := (raw 2).toNat % 16

theorem toNat_parseId (raw : RawFrame) : (parseId raw).toNat = rawId raw := by
  have h0 := (raw 0).isLt
  have h1 := (raw 1).isLt
  have hlow : (raw 1).toNat / 32 < 2 ^ 3 := by omega
  have hhigh : (raw 0).toNat <<< 3 < 2 ^ 16 := by
    rw [Nat.shiftLeft_eq]
    omega
  unfold parseId rawId
  rw [BitVec.toNat_or, BitVec.toNat_shiftLeft, BitVec.toNat_ushiftRight,
    BitVec.toNat_setWidth_of_le (by decide), BitVec.toNat_setWidth_of_le (by decide),
    Nat.mod_eq_of_lt hhigh, Nat.shiftRight_eq_div_pow, ← Nat.shiftLeft_add_eq_or_of_lt hlow,
    Nat.shiftLeft_eq]

theorem parseId_lt (raw : RawFrame) : (parseId raw).toNat < 2048 := by
  have h0 := (raw 0).isLt
  have h1 := (raw 1).isLt
  rw [toNat_parseId]
  unfold rawId
  omega

theorem toNat_parseDlc (raw : RawFrame) : (parseDlc raw).toNat = rawDlc raw := by
  unfold parseDlc
  rw [BitVec.toNat_and]
  exact Nat.and_two_pow_sub_one_eq_mod (raw 2).toNat 4

theorem mem_blockedIds {id : BitVec 16} :
    id ∈ BLOCKED_IDS ↔ id.toNat = 0x7DF ∨ id.toNat = 0x7E0 ∨ id.toNat = 0x7E1 ∨ id.toNat = 0x7E8 := by
  simp [BLOCKED_IDS, BitVec.toNat_eq]

section Outcomes
variable {raw : RawFrame}

theorem parse_of_blocked (hb : parseId raw ∈ BLOCKED_IDS) :
    parse raw = .error (.blockedId (parseId raw)) := by
  unfold parse
  rw [if_pos hb]

theorem parse_of_long (hb : parseId raw ∉ BLOCKED_IDS) (hd : 8 < parseDlc raw) :
    parse raw = .error (.invalidDlc (parseDlc raw)) := by
  unfold parse
  rw [if_neg hb, if_pos hd]

theorem parse_of_short (hb : parseId raw ∉ BLOCKED_IDS) (hd : ¬ 8 < parseDlc raw) :
    parse raw = .ok ⟨parseId raw, parseDlc raw, parsePayload raw (parseDlc raw)⟩ := by
  unfold parse
  rw [if_neg hb, if_neg hd]

theorem parse_eq_blockedId_iff :
    parse raw = .error (.blockedId (parseId raw)) ↔ parseId raw ∈ BLOCKED_IDS := by
  refine ⟨fun h => ?_, parse_of_blocked⟩
  by_contra hb
  by_cases hd : 8 < parseDlc raw
  · rw [parse_of_long hb hd] at h
    cases h
  · rw [parse_of_short hb hd] at h
    cases h

theorem parse_eq_invalidDlc_iff (hb : parseId raw ∉ BLOCKED_IDS) :
    parse raw = .error (.invalidDlc (parseDlc raw)) ↔ 8 < parseDlc raw := by
  refine ⟨fun h => ?_, parse_of_long hb⟩
  by_contra hd
  rw [parse_of_short hb hd] at h
  cases h

theorem of_parse_eq_ok {frame : CanFrame} (h : parse raw = .ok frame) :
    parseId raw ∉ BLOCKED_IDS ∧ ¬ 8 < parseDlc raw ∧
      frame = ⟨parseId raw, parseDlc raw, parsePayload raw (parseDlc raw)⟩ := by
  have hb : parseId raw ∉ BLOCKED_IDS := by
    intro hb
    rw [parse_of_blocked hb] at h
    cases h
  have hd : ¬ 8 < parseDlc raw := by
    intro hd
    rw [parse_of_long hb hd] at h
    cases h
  rw [parse_of_short hb hd] at h
  exact ⟨hb, hd, (Except.ok.inj h).symm⟩

end Outcomes

/-! ## The documented filter -/

/-- The OBD-II broadcast request and the documented range `0x7E0-0x7EF` of diagnostic addresses. -/
def Diagnostic (id : ℕ) : Prop := id = 0x7DF ∨ 0x7E0 ≤ id ∧ id ≤ 0x7EF

/-- `parse` rejects the diagnostic identifiers, of the others those with a length above eight, and
nothing else. -/
structure FiltersExactly (raw : RawFrame) : Prop where
  blocked : parse raw = .error (.blockedId (BitVec.ofNat 16 (rawId raw))) ↔ Diagnostic (rawId raw)
  invalid : ¬ Diagnostic (rawId raw) →
    (parse raw = .error (.invalidDlc (BitVec.ofNat 8 (rawDlc raw))) ↔ 8 < rawDlc raw)
  accepted : ¬ Diagnostic (rawId raw) → ¬ 8 < rawDlc raw → ∃ frame, parse raw = .ok frame

/-- The identifiers of the documented range that the list leaves out. -/
def Unlisted (id : ℕ) : Prop := 0x7E2 ≤ id ∧ id ≤ 0x7E7 ∨ 0x7E9 ≤ id ∧ id ≤ 0x7EF

theorem ofNat_rawId (raw : RawFrame) : BitVec.ofNat 16 (rawId raw) = parseId raw := by
  rw [← toNat_parseId, BitVec.ofNat_toNat, BitVec.setWidth_eq]

theorem ofNat_rawDlc (raw : RawFrame) : BitVec.ofNat 8 (rawDlc raw) = parseDlc raw := by
  rw [← toNat_parseDlc, BitVec.ofNat_toNat, BitVec.setWidth_eq]

theorem lt_parseDlc_iff (raw : RawFrame) : 8 < parseDlc raw ↔ 8 < rawDlc raw := by
  rw [← toNat_parseDlc, BitVec.lt_def]
  rfl

/-- The list and the documentation agree except on the unlisted identifiers. -/
theorem parseId_mem_iff {raw : RawFrame} (hu : ¬ Unlisted (rawId raw)) :
    parseId raw ∈ BLOCKED_IDS ↔ Diagnostic (rawId raw) := by
  rw [mem_blockedIds, toNat_parseId]
  unfold Unlisted at hu
  unfold Diagnostic
  omega

theorem not_mem_of_unlisted {raw : RawFrame} (hu : Unlisted (rawId raw)) :
    parseId raw ∉ BLOCKED_IDS := by
  rw [mem_blockedIds, toNat_parseId]
  unfold Unlisted at hu
  omega

theorem filtersExactly_iff (raw : RawFrame) : FiltersExactly raw ↔ ¬ Unlisted (rawId raw) := by
  constructor
  · intro h hu
    have hblocked := h.blocked.mpr (Or.inr (by unfold Unlisted at hu; omega))
    rw [ofNat_rawId, parse_eq_blockedId_iff] at hblocked
    exact not_mem_of_unlisted hu hblocked
  · intro hu
    have hmem := parseId_mem_iff hu
    refine ⟨?_, fun hd => ?_, fun hd hlen => ?_⟩
    · rw [ofNat_rawId, parse_eq_blockedId_iff, hmem]
    · rw [ofNat_rawDlc, parse_eq_invalidDlc_iff (mt hmem.mp hd), lt_parseDlc_iff]
    · exact ⟨_, parse_of_short (mt hmem.mp hd) (mt (lt_parseDlc_iff raw).mp hlen)⟩

/-- An empty frame for `0x7E2`. -/
def unlistedRequest : RawFrame := ![0xFC, 0x40, 0, 0, 0, 0, 0, 0, 0, 0, 0, 0, 0]

theorem not_filtersExactly_unlistedRequest : ¬ FiltersExactly unlistedRequest := by
  intro h
  have hblocked := h.blocked.mpr (Or.inr (by decide))
  rw [ofNat_rawId, parse_eq_blockedId_iff] at hblocked
  exact absurd hblocked (by decide)

/-! ## The documented layout -/

/-- The buffer of `raw_frame`: zero where nothing is written. -/
def rawBytes (id : BitVec 16) (dlc : Byte) (payload : List Byte) : RawFrame := fun i =>
  if i.val = 0 then (id >>> 3).setWidth 8
  else if i.val = 1 then (id &&& 0x7).setWidth 8 <<< 5
  else if i.val = 2 then dlc
  else payload.getD (i.val - 3) 0

/-- `raw_frame` of the tests; `none` is the panic of its slice on a payload of more than ten bytes. -/
def rawFrame (id : BitVec 16) (dlc : Byte) (payload : List Byte) : Option RawFrame :=
  if payload.length ≤ 10 then some (rawBytes id dlc payload) else none

/-- The bytes of the payload the length announces. -/
def announced (frame : CanFrame) : List Byte := (List.ofFn frame.payload).take frame.dlc.toNat

/-- Two buffers that differ at most in the low bits of byte 1, the high bits of byte 2 and the bytes
after a payload of `n`. -/
structure AgreeOn (n : ℕ) (raw enc : RawFrame) : Prop where
  idHigh : raw 0 = enc 0
  idLow : raw 1 >>> 5 = enc 1 >>> 5
  dlc : raw 2 &&& 0x0F = enc 2 &&& 0x0F
  payload : ∀ i : Fin 13, 3 ≤ i.val → i.val < 3 + n → raw i = enc i

structure Accepted (frame : CanFrame) : Prop where
  idLt : frame.id.toNat < 2048
  listed : frame.id ∉ BLOCKED_IDS
  dlcLe : frame.dlc.toNat ≤ 8
  zero : ∀ i : Fin 8, frame.dlc.toNat ≤ i.val → frame.payload i = 0

section Layout
variable {raw : RawFrame} {frame : CanFrame}

/-- The eleven bits are where the layout puts them. -/
theorem parseId_eq_iff (hid : frame.id.toNat < 2048) :
    parseId raw = frame.id ↔
      raw 0 = rawBytes frame.id frame.dlc (announced frame) 0 ∧
        raw 1 >>> 5 = rawBytes frame.id frame.dlc (announced frame) 1 >>> 5 := by
  have h0 := (raw 0).isLt
  have h1 := (raw 1).isLt
  have hlow : frame.id.toNat &&& 7 = frame.id.toNat % 8 := Nat.and_two_pow_sub_one_eq_mod _ 3
  have hhigh : rawBytes frame.id frame.dlc (announced frame) 0 = (frame.id >>> 3).setWidth 8 := rfl
  have hnext : rawBytes frame.id frame.dlc (announced frame) 1 = (frame.id &&& 0x7).setWidth 8 <<< 5 := rfl
  rw [hhigh, hnext, BitVec.toNat_eq, BitVec.toNat_eq, BitVec.toNat_eq, toNat_parseId]
  simp only [rawId, BitVec.toNat_setWidth, BitVec.toNat_ushiftRight, BitVec.toNat_shiftLeft,
    BitVec.toNat_and, Nat.shiftRight_eq_div_pow, Nat.shiftLeft_eq]
  rw [show (7 : BitVec 16).toNat = 7 from rfl, hlow]
  omega

theorem parseDlc_eq_iff (hdlc : frame.dlc.toNat ≤ 8) :
    parseDlc raw = frame.dlc ↔
      raw 2 &&& 0x0F = rawBytes frame.id frame.dlc (announced frame) 2 &&& 0x0F := by
  have hnibble : frame.dlc &&& 0x0F = frame.dlc := by
    apply BitVec.eq_of_toNat_eq
    rw [BitVec.toNat_and]
    exact (Nat.and_two_pow_sub_one_eq_mod _ 4).trans (Nat.mod_eq_of_lt (by omega))
  change _ ↔ raw 2 &&& 0x0F = frame.dlc &&& 0x0F
  rw [hnibble]
  rfl

theorem getD_announced {i : Fin 8} (hi : i.val < frame.dlc.toNat) :
    (announced frame).getD i.val 0 = frame.payload i := by
  unfold announced
  rw [List.getD_eq_getElem?_getD, List.getElem?_take_of_lt hi, List.getElem?_ofFn, dif_pos i.isLt]
  rfl

theorem rawBytes_payload {i : Fin 8} (hi : i.val < frame.dlc.toNat) :
    rawBytes frame.id frame.dlc (announced frame) ⟨3 + i.val, by omega⟩ = frame.payload i := by
  unfold rawBytes
  rw [if_neg (by simp), if_neg (by simp; omega), if_neg (by simp; omega)]
  rw [show 3 + i.val - 3 = i.val by omega, getD_announced hi]

theorem parsePayload_eq_iff (hdlc : frame.dlc.toNat ≤ 8)
    (hzero : ∀ i : Fin 8, frame.dlc.toNat ≤ i.val → frame.payload i = 0) :
    parsePayload raw frame.dlc = frame.payload ↔
      ∀ i : Fin 13, 3 ≤ i.val → i.val < 3 + frame.dlc.toNat →
        raw i = rawBytes frame.id frame.dlc (announced frame) i := by
  constructor
  · intro h i hlow hhigh
    have hi := congrFun h ⟨i.val - 3, by omega⟩
    have hlt : i.val - 3 < frame.dlc.toNat := by omega
    have hpos : (⟨3 + (i.val - 3), by omega⟩ : Fin 13) = i := Fin.ext (by simp; omega)
    have henc := rawBytes_payload (i := ⟨i.val - 3, by omega⟩) hlt
    unfold parsePayload at hi
    rw [if_pos hlt] at hi
    simp only [hpos] at hi henc
    rw [hi, henc]
  · intro h
    funext i
    unfold parsePayload
    by_cases hi : i.val < frame.dlc.toNat
    · rw [if_pos hi, h _ (by simp) (by simp; omega), rawBytes_payload hi]
    · rw [if_neg hi, hzero i (by omega)]

theorem rawFrame_announced (hdlc : frame.dlc.toNat ≤ 8) :
    rawFrame frame.id frame.dlc (announced frame) =
      some (rawBytes frame.id frame.dlc (announced frame)) := by
  have hlen : (announced frame).length ≤ 10 := by
    unfold announced
    rw [List.length_take, List.length_ofFn]
    omega
  unfold rawFrame
  rw [if_pos hlen]

theorem toNat_le_of_not_lt {dlc : Byte} (hd : ¬ 8 < dlc) : dlc.toNat ≤ 8 := by
  rw [BitVec.lt_def] at hd
  exact Nat.le_of_not_lt hd

theorem accepted_of_parse (h : parse raw = .ok frame) : Accepted frame := by
  obtain ⟨hb, hd, rfl⟩ := of_parse_eq_ok h
  refine ⟨parseId_lt raw, hb, toNat_le_of_not_lt hd, fun i hi => ?_⟩
  exact if_neg (Nat.not_lt.mpr hi)

theorem agreeOn_of_parse (h : parse raw = .ok frame) :
    AgreeOn frame.dlc.toNat raw (rawBytes frame.id frame.dlc (announced frame)) := by
  have hframe := accepted_of_parse h
  obtain ⟨-, -, heq⟩ := of_parse_eq_ok h
  have hid : parseId raw = frame.id := by rw [heq]
  have hdlc : parseDlc raw = frame.dlc := by rw [heq]
  have hpayload : parsePayload raw frame.dlc = frame.payload := by
    rw [← hdlc, heq]
  obtain ⟨hhigh, hlow⟩ := (parseId_eq_iff hframe.idLt).mp hid
  exact ⟨hhigh, hlow, (parseDlc_eq_iff hframe.dlcLe).mp hdlc,
    (parsePayload_eq_iff hframe.dlcLe hframe.zero).mp hpayload⟩

theorem parse_of_agreeOn (hframe : Accepted frame)
    (h : AgreeOn frame.dlc.toNat raw (rawBytes frame.id frame.dlc (announced frame))) :
    parse raw = .ok frame := by
  have hid : parseId raw = frame.id := (parseId_eq_iff hframe.idLt).mpr ⟨h.idHigh, h.idLow⟩
  have hdlc : parseDlc raw = frame.dlc := (parseDlc_eq_iff hframe.dlcLe).mpr h.dlc
  have hpayload := (parsePayload_eq_iff hframe.dlcLe hframe.zero).mpr h.payload
  have hle : ¬ 8 < parseDlc raw := by
    rw [hdlc, BitVec.lt_def]
    exact Nat.not_lt.mpr hframe.dlcLe
  rw [parse_of_short (hid ▸ hframe.listed) hle, hid, hdlc, hpayload]

end Layout

/-- What `raw_frame` builds of an accepted frame is read back whatever stands in the bits the layout
does not use, and a buffer is only accepted as the frame it encodes. -/
theorem parse_inverts_layout (frame : CanFrame) :
    (Accepted frame →
      ∃ enc, rawFrame frame.id frame.dlc (announced frame) = some enc ∧
        ∀ raw, AgreeOn frame.dlc.toNat raw enc → parse raw = .ok frame) ∧
    ∀ raw, parse raw = .ok frame →
      Accepted frame ∧ ∃ enc, rawFrame frame.id frame.dlc (announced frame) = some enc ∧
        AgreeOn frame.dlc.toNat raw enc := by
  constructor
  · intro hframe
    exact ⟨_, rawFrame_announced hframe.dlcLe, fun raw h => parse_of_agreeOn hframe h⟩
  · intro raw h
    have hframe := accepted_of_parse h
    exact ⟨hframe, _, rawFrame_announced hframe.dlcLe, agreeOn_of_parse h⟩

/-- The frame of the tests. -/
def sampleFrame : CanFrame := ⟨0x123, 4, ![0xAA, 0xBB, 0xCC, 0xDD, 0, 0, 0, 0]⟩

theorem accepted_sampleFrame : Accepted sampleFrame :=
  ⟨by decide, by decide, by decide, by decide⟩

/-- The bits the layout does not use are all set. -/
def sampleRaw : RawFrame :=
  ![0x24, 0x7F, 0xF4, 0xAA, 0xBB, 0xCC, 0xDD, 0xFF, 0xFF, 0xFF, 0xFF, 0xFF, 0xFF]

theorem parse_sampleRaw : parse sampleRaw = .ok sampleFrame ∧
    ∃ enc, rawFrame sampleFrame.id sampleFrame.dlc (announced sampleFrame) = some enc ∧
      AgreeOn sampleFrame.dlc.toNat sampleRaw enc := by
  obtain ⟨hencode, hdecode⟩ := parse_inverts_layout sampleFrame
  have hparse : parse sampleRaw = .ok sampleFrame := by
    obtain ⟨enc, henc, h⟩ := hencode accepted_sampleFrame
    rw [rawFrame_announced accepted_sampleFrame.dlcLe] at henc
    obtain rfl := Option.some.inj henc
    exact h _ ⟨by decide, by decide, by decide, by decide⟩
  exact ⟨hparse, (hdecode sampleRaw hparse).2⟩

end Cerberus.Network
