import Mathlib.Data.Fin.VecNotation
import Cerberus.Signing.Hsm

/-! # The boot-time checks

`verify_secure_boot` and `verify_tampered_secure_boot` of `security/src/bootloader.rs`. The hash of the
`sha2` crate is a field of `Build`; the linkage check of the two stored buffers is a xor of their bytes,
and `linkage_forgeable` says what it is worth as a signature. -/
namespace Cerberus.Boot
open Signing
set_option autoImplicit false

def PUB_KEY_BYTES : Fin 64 → Byte :=
  ![
    0xb7, 0x0f, 0x96, 0x22, 0xf9, 0x76, 0x5f, 0x49, 0xda, 0x3b, 0x73, 0xe9, 0xff, 0xc2, 0xa1, 0xfb,
    0xed, 0x84, 0x46, 0xe4, 0x4d, 0x81, 0x53, 0x15, 0xc7, 0x8f, 0xcc, 0xb5, 0xe0, 0x2f, 0xf1, 0x78,
    0x77, 0xcc, 0xbf, 0x02, 0xc4, 0xf8, 0x2a, 0x54, 0xf9, 0xbc, 0x3b, 0x36, 0x77, 0x60, 0x06, 0xe6,
    0xe1, 0xeb, 0x08, 0xb8, 0x92, 0x48, 0x1e, 0xfd, 0x7d, 0x52, 0x30, 0x53, 0x4f, 0x3b, 0xf4, 0x56]

def SIGNATURE_BYTES : Fin 64 → Byte :=
  ![
    0x53, 0xd8, 0x26, 0x28, 0xea, 0x32, 0x36, 0x48, 0xb1, 0xba, 0x1e, 0x6d, 0x16, 0x99, 0x9e, 0x5b,
    0xdd, 0xc2, 0x4c, 0x35, 0x5a, 0x9b, 0x0c, 0x28, 0xb9, 0x84, 0xcb, 0x96, 0x53, 0x7e, 0x37, 0xe6,
    0xd3, 0x5d, 0x8c, 0x60, 0xd1, 0xcb, 0xde, 0xde, 0x51, 0xd3, 0xb5, 0x62, 0x6c, 0xc5, 0xba, 0x1d,
    0x31, 0xc6, 0x35, 0xda, 0x91, 0x38, 0x5b, 0xa5, 0x58, 0xb8, 0x35, 0xa5, 0x51, 0x2e, 0xca, 0x8c]

def TRUSTED_PAYLOAD : List Byte :=
  "cerberus-os-kernel-image-data-payload-for-verification-v1.0".toList.map fun c =>
    BitVec.ofNat 8 c.toNat

def EXPECTED_HASH : Fin 32 → Byte :=
  ![
    0xcf, 0xca, 0x73, 0xa3, 0xd7, 0x2f, 0x46, 0x25, 0xf8, 0x54, 0xec, 0xb8, 0xe0, 0xab, 0x75, 0x96,
    0x1d, 0x38, 0xb9, 0xdd, 0xa2, 0x97, 0x42, 0x21, 0xde, 0xe5, 0xdb, 0xe9, 0x46, 0xe5, 0xee, 0x4f]

def sha256Matches (B : Build) (payload : List Byte) : Bool := B.sha256 payload = EXPECTED_HASH

/-- The loop of `key_signature_linkage_ok` over any two buffers. -/
def linkageChecksum (key sig : Fin 64 → Byte) : Byte :=
  (List.finRange 64).foldl (fun checksum i => checksum ^^^ (key i ^^^ sig i)) 0

def linkageOk (key sig : Fin 64 → Byte) : Bool := linkageChecksum key sig = 0x76

def keySignatureLinkageOk : Bool := linkageOk PUB_KEY_BYTES SIGNATURE_BYTES

def verifySecureBoot (B : Build) : Bool := sha256Matches B TRUSTED_PAYLOAD && keySignatureLinkageOk

/-- A copy of the payload with its last byte mutated. -/
def tampered (payload : List Byte) : List Byte :=
  payload.set (payload.length - 1) (payload.getD (payload.length - 1) 0 ^^^ 1)

def verifyTamperedSecureBoot (B : Build) : Bool :=
  sha256Matches B (tampered TRUSTED_PAYLOAD) && keySignatureLinkageOk

/-- Only a collision of the hash lets the mutated copy pass. -/
theorem collision_of_verifyTampered {B : Build} (hboot : verifySecureBoot B = true)
    (htampered : verifyTamperedSecureBoot B = true) :
    B.sha256 (tampered TRUSTED_PAYLOAD) = B.sha256 TRUSTED_PAYLOAD ∧
      tampered TRUSTED_PAYLOAD ≠ TRUSTED_PAYLOAD := by
  have h1 := (Bool.and_eq_true_iff.mp hboot).1
  have h2 := (Bool.and_eq_true_iff.mp htampered).1
  simp only [sha256Matches, decide_eq_true_eq] at h1 h2
  exact ⟨h2.trans h1.symm, by decide +kernel⟩

/-! ## What the linkage check is worth -/

section Checksum
variable {α : Type}

/-- The xor of a list of values does not depend on where it starts. -/
theorem foldl_xor_init (f : α → Byte) (l : List α) (c d : Byte) :
    l.foldl (fun checksum i => checksum ^^^ f i) (c ^^^ d) =
      l.foldl (fun checksum i => checksum ^^^ f i) c ^^^ d := by
  induction l generalizing c with
  | nil => rfl
  | cons i l ih =>
    have hswap : c ^^^ d ^^^ f i = c ^^^ f i ^^^ d := by
      rw [BitVec.xor_assoc, BitVec.xor_comm d, ← BitVec.xor_assoc]
    rw [List.foldl_cons, List.foldl_cons, hswap, ih]

/-- A change of one value changes the xor by the difference. -/
theorem foldl_xor_update [DecidableEq α] (f : α → Byte) (i : α) (b : Byte) {l : List α} (hl : l.Nodup)
    (hi : i ∈ l)
    (c : Byte) :
    l.foldl (fun checksum j => checksum ^^^ Function.update f i b j) c =
      l.foldl (fun checksum j => checksum ^^^ f j) c ^^^ (f i ^^^ b) := by
  induction l generalizing c with
  | nil => cases hi
  | cons j l ih =>
    obtain ⟨hj, hl⟩ := List.nodup_cons.mp hl
    rw [List.foldl_cons, List.foldl_cons]
    by_cases hij : j = i
    · subst hij
      have hrest : l.foldl (fun checksum k => checksum ^^^ Function.update f j b k) (c ^^^ b) =
          l.foldl (fun checksum k => checksum ^^^ f k) (c ^^^ b) := by
        refine List.foldl_ext _ _ _ fun a k hk => ?_
        have hkj : k ≠ j := fun he => hj (he.symm ▸ hk)
        rw [Function.update_of_ne hkj]
      have hb : c ^^^ b = c ^^^ f j ^^^ (f j ^^^ b) := by
        rw [BitVec.xor_assoc, ← BitVec.xor_assoc (f j), BitVec.xor_self, BitVec.zero_xor]
      rw [Function.update_self, hrest, hb, foldl_xor_init]
    · have hi : i ∈ l := (List.mem_cons.mp hi).resolve_left (Ne.symm hij)
      rw [Function.update_of_ne hij, ih hl hi]

end Checksum

theorem linkageChecksum_update_sig (key sig : Fin 64 → Byte) (i : Fin 64) (b : Byte) :
    linkageChecksum key (Function.update sig i b) = linkageChecksum key sig ^^^ (sig i ^^^ b) := by
  have hpoint : (fun j => key j ^^^ Function.update sig i b j) =
      Function.update (fun j => key j ^^^ sig j) i (key i ^^^ b) := by
    funext j
    by_cases hj : j = i
    · rw [hj, Function.update_self, Function.update_self]
    · rw [Function.update_of_ne hj, Function.update_of_ne hj]
  have hdiff : key i ^^^ sig i ^^^ (key i ^^^ b) = sig i ^^^ b := by
    rw [BitVec.xor_comm (key i), BitVec.xor_assoc, ← BitVec.xor_assoc (key i), BitVec.xor_self,
      BitVec.zero_xor]
  have hfold := foldl_xor_update (fun j => key j ^^^ sig j) i (key i ^^^ b) (List.nodup_finRange 64)
    (List.mem_finRange i) 0
  rw [hdiff, ← hpoint] at hfold
  exact hfold

theorem linkageChecksum_comm (key sig : Fin 64 → Byte) :
    linkageChecksum key sig = linkageChecksum sig key := by
  simp only [linkageChecksum, BitVec.xor_comm]

theorem linkageChecksum_update_key (key sig : Fin 64 → Byte) (i : Fin 64) (b : Byte) :
    linkageChecksum (Function.update key i b) sig = linkageChecksum key sig ^^^ (key i ^^^ b) := by
  rw [linkageChecksum_comm, linkageChecksum_update_sig, linkageChecksum_comm]

theorem xor_eq_iff (a b c : Byte) : a ^^^ b = c ↔ b = a ^^^ c := by
  constructor
  · rintro rfl
    rw [← BitVec.xor_assoc, BitVec.xor_self, BitVec.zero_xor]
  · rintro rfl
    rw [← BitVec.xor_assoc, BitVec.xor_self, BitVec.zero_xor]

/-- Exactly one value of a byte passes when all others are fixed. -/
theorem existsUnique_xor (c a : Byte) : ∃! b, c ^^^ (a ^^^ b) = 0x76#8 := by
  refine ⟨a ^^^ (c ^^^ 0x76), ?_, fun b hb => ?_⟩
  · exact (xor_eq_iff _ _ _).mpr ((xor_eq_iff _ _ _).mpr rfl)
  · exact (xor_eq_iff _ _ _).mp ((xor_eq_iff _ _ _).mp hb)

/-- The linkage check sees every change of a single byte, and is met by one choice of any single byte:
whatever the key and the rest of the signature, and the same for a byte of the key. A change of a byte
of the key goes unnoticed with the same change of a byte of the signature. -/
theorem linkage_forgeable (key sig : Fin 64 → Byte) (i j : Fin 64) :
    (∃! b, linkageOk (Function.update key i b) sig = true) ∧
      (∃! b, linkageOk key (Function.update sig j b) = true) ∧
      ∀ d, linkageOk (Function.update key i (key i ^^^ d)) (Function.update sig j (sig j ^^^ d)) =
        linkageOk key sig := by
  refine ⟨?_, ?_, fun d => ?_⟩
  · simp only [linkageOk, decide_eq_true_eq, linkageChecksum_update_key]
    exact existsUnique_xor _ _
  · simp only [linkageOk, decide_eq_true_eq, linkageChecksum_update_sig]
    exact existsUnique_xor _ _
  · have hcancel : ∀ a b : Byte, a ^^^ (a ^^^ b) = b := fun a b => ((xor_eq_iff a _ _).mpr rfl)
    simp only [linkageOk, linkageChecksum_update_sig, linkageChecksum_update_key, hcancel,
      BitVec.xor_assoc, BitVec.xor_self, BitVec.xor_zero]

end Cerberus.Boot
