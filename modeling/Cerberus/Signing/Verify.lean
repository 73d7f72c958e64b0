import Cerberus.Foundations.Hmac
import Cerberus.Foundations.Process
import Cerberus.Signing.Protocol

/-! # Verifying a frame

`verify_frame_secure` and one round of the loop of `hsm_task` as programs over `sys_send` and
`sys_recv`, apart from the machine: what a call does to a program is its result and, for a receive,
the bytes of its buffer. `exchange_delivers` is the step from the kernel's exchange to this view. -/
namespace Cerberus.Signing
open Kernel Scheduler Sync Memory Transition Process Hmac Ipc
set_option autoImplicit false

/-! ## The programs -/

/-- A program that makes its IPC calls through capability indices. -/
abbrev Program (α : Type) := Proc ℕ Byte α

structure AuthFrame where
  frame : CanFrame
  tag : Fin HMAC_TAG_LEN → Byte

/-- `verify_frame_secure`; `frameBytes` is `auth.frame` as it lies in memory. -/
def verifyFrameSecure (frameBytes : List Byte) (auth : AuthFrame) (hsmSendCap hsmRecvCap : ℕ) :
    Program Bool :=
  .send hsmSendCap frameBytes fun res =>
    if res < 0 then .done false
    else .recv hsmRecvCap (List.replicate HMAC_TAG_LEN 0) fun res expected =>
      if res < 0 then .done false
      else .done (decide (difference expected (List.ofFn auth.tag) = 0))

/-- One round of the loop of `hsm_task`, after its check-in. The buffer is not cleared between rounds,
so a round ends with the one the next round starts from; `none` is a panic. -/
def hsmRound (B : Build) (reqBuf : List Byte) : Program (Option (List Byte)) :=
  .recv 0 reqBuf fun res reqBuf =>
    if res = CAN_FRAME_SIZE then
      match B.computeHmacLocal (B.readUnaligned reqBuf) with
      | none => .done none
      | some tag => .send 1 tag fun _ => .done (some reqBuf)
    else .done (some reqBuf)

/-- The endpoints behind the capability indices of a C-list. -/
def portsOf (caps : Fin 8 → Capability) : Ports ℕ Byte where
  sends := fun capIdx => if h : capIdx < 8 then sendRight (caps ⟨capIdx, h⟩) else none
  receives := fun capIdx => if h : capIdx < 8 then recvRight (caps ⟨capIdx, h⟩) else none

/-- Task A against HSM Task, with the C-lists of `kmain`. -/
def signingSetup (B : Build) : Setup ℕ Byte (List Byte) Byte where
  clientPorts := portsOf (cList taskASpec.capabilities)
  serverPorts := portsOf (cList hsmSpec.capabilities)
  body := hsmRound B

/-! ## The exchange of the kernel -/

section Kernel
variable {P : Platform} {x : Exchange} {k : Kernel}

theorem bytes_eq_deliver {before after : Memory} (hd : x.Delivered before after) :
    after.bytes x.bufAddr x.maxLen.toNat =
      deliver ((List.range x.msgLen.toNat).map x.message) (before.bytes x.bufAddr x.maxLen.toNat) := by
  apply List.ext_getElem?
  intro j
  by_cases hj : j < x.maxLen.toNat
  · rw [getElem?_deliver _ _ _ (by simpa [Memory.bytes] using hj)]
    simp only [Memory.bytes, List.length_map, List.length_range, List.getElem?_map,
      List.getElem?_range hj, Option.map_some]
    split
    · rename_i hjn
      rw [List.getElem?_range hjn, Option.map_some, hd.message j (by omega)]
    · rename_i hjn
      rw [hd.rest j (by omega) hj]
  · rw [List.getElem?_eq_none (by simpa [Memory.bytes] using hj),
      List.getElem?_eq_none (by simpa [Memory.bytes] using hj)]

/-- The second call of an exchange, whosever it is, delivers as `Process.meet` does: the receiver finds
the message in its buffer and the copied length in `a0`, the sender finds 0. -/
theorem exchange_delivers
    (hsecond :
      (x.Sends k ∧ Parked k x.receiver (.blockedOnIpcRecv x.endpoint x.bufAddr x.maxLen)
        x.recvTrap.userSp ∧ x.Meets P x.receiver x.sender.1 k) ∨
      (x.Receives k ∧ Parked k x.sender (.blockedOnIpcSend x.endpoint x.msgAddr x.msgLen)
        x.sendTrap.userSp ∧ x.Meets P x.sender x.receiver.1 k)) :
    ∃ h t sp k', trapHandler P h t k = .ok (sp, k') ∧
      k'.mem.bytes x.bufAddr x.maxLen.toNat = deliver ((List.range x.msgLen.toNat).map x.message)
        (k.mem.bytes x.bufAddr x.maxLen.toNat) ∧
      k'.readFrame x.sendTrap.userSp 6 = 0#32 ∧
      (k'.readFrame x.recvTrap.userSp 6).toNat = copied ((List.range x.msgLen.toNat).map x.message)
        (k.mem.bytes x.bufAddr x.maxLen.toNat) := by
  have hresult : ∀ {k' : Kernel}, x.Delivered k.mem k'.mem →
      k'.mem.bytes x.bufAddr x.maxLen.toNat = deliver ((List.range x.msgLen.toNat).map x.message)
        (k.mem.bytes x.bufAddr x.maxLen.toNat) ∧
      k'.readFrame x.sendTrap.userSp 6 = 0#32 ∧
      (k'.readFrame x.recvTrap.userSp 6).toNat = copied ((List.range x.msgLen.toNat).map x.message)
        (k.mem.bytes x.bufAddr x.maxLen.toNat) := by
    intro k' hd
    refine ⟨bytes_eq_deliver hd, hd.sender, ?_⟩
    have hr : k'.readFrame x.recvTrap.userSp 6 =
        BitVec.ofNat 32 (min x.msgLen.toNat x.maxLen.toNat) := hd.receiver
    have hlt := x.msgLen.isLt
    rw [hr, BitVec.toNat_ofNat, Nat.mod_eq_of_lt (by omega)]
    simp [copied, Memory.bytes]
  rcases hsecond with ⟨hcall, hpark, hmeets⟩ | ⟨hcall, hpark, hmeets⟩
  · obtain ⟨sp, k', hok, hd⟩ := send_delivers hcall hpark hmeets
    exact ⟨_, _, sp, k', hok, hresult hd⟩
  · obtain ⟨sp, k', hok, hd⟩ := receive_delivers hcall hpark hmeets
    exact ⟨_, _, sp, k', hok, hresult hd⟩

end Kernel

/-! ## The tag is a truncated HMAC -/

def Build.hash (B : Build) (msg : List Byte) : List Byte := List.ofFn (B.sha256 msg)

/-- The bytes `compute_hmac_local` authenticates. -/
def macMessage (frame : CanFrame) : List Byte :=
  [frame.id.setWidth 8, (frame.id >>> 8).setWidth 8, frame.dlc] ++
    (List.ofFn frame.payload).take frame.dlc.toNat

/-- The block of SHA-256. -/
def SHA256_BLOCK : ℕ := 64

def truncatedHmac (B : Build) (frame : CanFrame) : List Byte :=
  (hmac B.hash SHA256_BLOCK HMAC_KEY (macMessage frame)).take HMAC_TAG_LEN

section Tag
variable {B : Build} {frame : CanFrame}

theorem length_hmacKey : HMAC_KEY.length = 32 := by
  decide +kernel

/-- The padding loops build the padded key of the definition. -/
theorem padKey_eq (hash : List Byte → List Byte) (pad : Byte) :
    padKey pad = xorWith pad (blockKey hash SHA256_BLOCK HMAC_KEY) := by
  have hkey : HMAC_KEY.length ≤ SHA256_BLOCK := by
    rw [length_hmacKey]
    decide
  rw [xorWith_blockKey pad hkey, length_hmacKey]
  rfl

theorem computeHmacLocal_eq (hdlc : frame.dlc.toNat ≤ 8) :
    B.computeHmacLocal frame = some (truncatedHmac B frame) := by
  unfold Build.computeHmacLocal truncatedHmac hmac macMessage
  rw [if_pos hdlc, ← padKey_eq, ← padKey_eq]
  simp only [Build.hash, List.append_assoc]

theorem length_truncatedHmac : (truncatedHmac B frame).length = HMAC_TAG_LEN := by
  unfold truncatedHmac hmac Build.hash
  rw [List.length_take, List.length_ofFn]
  decide

/-- The message tells the identifier, the length and the bytes it covers. -/
theorem macMessage_eq_iff {frame' : CanFrame} :
    macMessage frame = macMessage frame' ↔
      frame.id = frame'.id ∧ frame.dlc = frame'.dlc ∧
        (List.ofFn frame.payload).take frame.dlc.toNat =
          (List.ofFn frame'.payload).take frame'.dlc.toNat := by
  have hid : ∀ a b : BitVec 16, a.setWidth 8 = b.setWidth 8 →
      (a >>> 8).setWidth 8 = (b >>> 8).setWidth 8 → a = b := by
    intro a b hlow hhigh
    have hlow' := congrArg BitVec.toNat hlow
    have hhigh' := congrArg BitVec.toNat hhigh
    have ha := a.isLt
    have hb := b.isLt
    simp only [BitVec.toNat_setWidth, BitVec.toNat_ushiftRight, Nat.shiftRight_eq_div_pow] at hlow' hhigh'
    apply BitVec.eq_of_toNat_eq
    omega
  unfold macMessage
  constructor
  · intro h
    simp only [List.cons_append, List.nil_append, List.cons.injEq] at h
    exact ⟨hid _ _ h.1 h.2.1, h.2.2⟩
  · rintro ⟨h1, h2, h3⟩
    rw [h1, h2] at *
    rw [h3]

end Tag

/-- The two programs meet twice: HSM Task gets the frame and answers with its tag. -/
theorem signing_requestReply {B : Build} {auth : AuthFrame} {frameBytes reqBuf : List Byte}
    (hdlc : auth.frame.dlc.toNat ≤ 8) (hlen : frameBytes.length = CAN_FRAME_SIZE)
    (hread : B.readUnaligned frameBytes = auth.frame) (hbuf : reqBuf.length = CAN_FRAME_SIZE) :
    RequestReply (signingSetup B) (verifyFrameSecure frameBytes auth 2 3)
      (.recv 3 (List.replicate HMAC_TAG_LEN 0) fun res expected =>
        if res < 0 then .done false
        else .done (decide (difference expected (List.ofFn auth.tag) = 0)))
      (decide (truncatedHmac B auth.frame = List.ofFn auth.tag))
      (.send 1 (truncatedHmac B auth.frame) fun _ => .done (some frameBytes)) reqBuf frameBytes := by
  have hcopied : copied frameBytes reqBuf = CAN_FRAME_SIZE := by
    unfold copied
    rw [hlen, hbuf]
    exact Nat.min_self _
  have hreply : deliver (truncatedHmac B auth.frame) (List.replicate HMAC_TAG_LEN 0) =
      truncatedHmac B auth.frame :=
    deliver_of_length_eq (by rw [length_truncatedHmac, List.length_replicate])
  have htag : difference (truncatedHmac B auth.frame) (List.ofFn auth.tag) = 0 ↔
      truncatedHmac B auth.frame = List.ofFn auth.tag :=
    difference_eq_zero_iff (by rw [length_truncatedHmac, List.length_ofFn])
  refine ⟨⟨?_, ?_, ?_⟩, ⟨?_, ?_, ?_⟩, ?_⟩
  · exact (by decide : (portsOf (cList taskASpec.capabilities)).sends 2 ≠ none)
  · exact (by decide : (portsOf (cList hsmSpec.capabilities)).receives 0 ≠ none)
  · have hports : (portsOf (cList taskASpec.capabilities)).sends 2 =
        (portsOf (cList hsmSpec.capabilities)).receives 0 := by decide
    simp only [verifyFrameSecure, signingSetup, hsmRound, meet, hports, if_true, hcopied,
      deliver_of_length_eq (hlen.trans hbuf.symm), hread, computeHmacLocal_eq hdlc]
    rfl
  · exact (by decide : (portsOf (cList taskASpec.capabilities)).receives 3 ≠ none)
  · exact (by decide : (portsOf (cList hsmSpec.capabilities)).sends 1 ≠ none)
  · have hports : (portsOf (cList taskASpec.capabilities)).receives 3 =
        (portsOf (cList hsmSpec.capabilities)).sends 1 := by decide
    have hpos : ¬ ((copied (truncatedHmac B auth.frame)
        (List.replicate HMAC_TAG_LEN (0 : Byte)) : ℕ) : ℤ) < 0 := by omega
    simp only [signingSetup, meet, hports, if_true, hreply, if_neg hpos, htag]
  · exact (by decide : (portsOf (cList hsmSpec.capabilities)).receives 0 ≠ none)

/-- However the two programs interleave, and wherever HSM Task is on its way to `sys_recv`,
`verify_frame_secure` returns after finitely many steps, and accepts exactly the truncated HMAC of the
message, which identifies what it covers. -/
theorem verify_eq_truncated_hmac (B : Build) (auth : AuthFrame) (frameBytes reqBuf : List Byte)
    (waits : Bool) (hdlc : auth.frame.dlc.toNat ≤ 8) (hlen : frameBytes.length = CAN_FRAME_SIZE)
    (hread : B.readUnaligned frameBytes = auth.frame) (hbuf : reqBuf.length = CAN_FRAME_SIZE) :
    (∀ ts l, Run (signingSetup B).Step
        ⟨⟨verifyFrameSecure frameBytes auth 2 3, false⟩, ⟨hsmRound B reqBuf, waits⟩⟩ ts l →
      ts.length ≤ 6 ∧
      ((∃ b, l.client.proc = .done b) ∨ ∃ t, ((signingSetup B).next l t).isSome) ∧
      ∀ b, l.client.proc = .done b → (b = true ↔ List.ofFn auth.tag =
        (hmac B.hash SHA256_BLOCK HMAC_KEY (macMessage auth.frame)).take HMAC_TAG_LEN)) ∧
    ∀ frame frame' : CanFrame, macMessage frame = macMessage frame' ↔
      frame.id = frame'.id ∧ frame.dlc = frame'.dlc ∧
        (List.ofFn frame.payload).take frame.dlc.toNat =
          (List.ofFn frame'.payload).take frame'.dlc.toNat := by
  refine ⟨fun ts l hrun => ?_, fun frame frame' => macMessage_eq_iff⟩
  obtain ⟨hsteps, hlive, hresult⟩ :=
    request_reply (signing_requestReply hdlc hlen hread hbuf) waits hrun
  refine ⟨hsteps, hlive.imp_left fun hdone => ⟨_, hdone⟩, fun b hb => ?_⟩
  rw [hresult b hb, decide_eq_true_eq]
  exact eq_comm

def testAuth : AuthFrame := ⟨testBuild.readUnaligned testFrame, fun i => testTag.getD i.val 0⟩

theorem verify_eq_truncated_hmac_test_frame :
    ∃ ts l, Run (signingSetup testBuild).Step ⟨⟨verifyFrameSecure testFrame testAuth 2 3, false⟩,
        ⟨hsmRound testBuild (List.replicate CAN_FRAME_SIZE 0), false⟩⟩ ts l ∧
      l.client.proc = .done true ∧ List.ofFn testAuth.tag =
        (hmac testBuild.hash SHA256_BLOCK HMAC_KEY (macMessage testAuth.frame)).take HMAC_TAG_LEN := by
  obtain ⟨l, hfold, hres⟩ := Option.bind_eq_some_iff.mp
    (by decide +kernel : ([Turn.client, .server, .server, .client].foldlM (signingSetup testBuild).next
      ⟨⟨verifyFrameSecure testFrame testAuth 2 3, false⟩,
        ⟨hsmRound testBuild (List.replicate CAN_FRAME_SIZE 0), false⟩⟩).bind
          (fun l => l.client.proc.result) = some true)
  have hrun := Run.of_foldlM hfold
  have hdone := Proc.result_eq_some hres
  obtain ⟨-, -, hiff⟩ := (verify_eq_truncated_hmac testBuild testAuth testFrame
    (List.replicate CAN_FRAME_SIZE 0) false (by decide) rfl rfl (by decide)).1 _ l hrun
  exact ⟨_, l, hrun, hdone, (hiff true hdone).mp rfl⟩

/-! ## A reply that is too short -/

/-- `verify_frame_secure` accepts only a complete tag, against every peer but one that succeeds with
fewer bytes than a tag has, where these bytes and zeros make the tag. -/
theorem verify_needs_complete_tag_iff (frameBytes : List Byte) (auth : AuthFrame)
    (hsmSendCap hsmRecvCap : ℕ) (peer : Answers Byte) (hpeer : peer.written.length ≤ HMAC_TAG_LEN) :
    ((verifyFrameSecure frameBytes auth hsmSendCap hsmRecvCap).against peer = true →
        peer.written.length = HMAC_TAG_LEN ∧ peer.written = List.ofFn auth.tag) ↔
      ¬ (0 ≤ peer.sendRes ∧ 0 ≤ peer.recvRes ∧ peer.written.length < HMAC_TAG_LEN ∧
        List.ofFn auth.tag =
          peer.written ++ List.replicate (HMAC_TAG_LEN - peer.written.length) 0) := by
  have hexpected : deliver peer.written (List.replicate HMAC_TAG_LEN (0 : Byte)) =
      peer.written ++ List.replicate (HMAC_TAG_LEN - peer.written.length) 0 := by
    unfold deliver
    rw [List.length_replicate, List.take_of_length_le hpeer, List.drop_replicate]
  have haccept : (verifyFrameSecure frameBytes auth hsmSendCap hsmRecvCap).against peer = true ↔
      0 ≤ peer.sendRes ∧ 0 ≤ peer.recvRes ∧
        List.ofFn auth.tag = peer.written ++ List.replicate (HMAC_TAG_LEN - peer.written.length) 0 := by
    have htag : difference (peer.written ++ List.replicate (HMAC_TAG_LEN - peer.written.length) 0)
        (List.ofFn auth.tag) = 0 ↔
        peer.written ++ List.replicate (HMAC_TAG_LEN - peer.written.length) 0 = List.ofFn auth.tag :=
      difference_eq_zero_iff (by
        rw [List.length_append, List.length_replicate, List.length_ofFn]
        omega)
    by_cases hs : peer.sendRes < 0
    · simp [verifyFrameSecure, Proc.against, hs]
    · by_cases hr : peer.recvRes < 0
      · simp [verifyFrameSecure, Proc.against, hs, hr]
      · simp only [verifyFrameSecure, Proc.against, if_neg hs, if_neg hr, hexpected, htag,
          decide_eq_true_eq, Int.not_lt.mp hs, Int.not_lt.mp hr, true_and]
        exact eq_comm
  rw [haccept]
  constructor
  · rintro hcomplete ⟨hs, hr, hshort, htag⟩
    have := (hcomplete ⟨hs, hr, htag⟩).1
    omega
  · rintro hno ⟨hs, hr, htag⟩
    have hfull : peer.written.length = HMAC_TAG_LEN := by
      by_contra hne
      exact hno ⟨hs, hr, by omega, htag⟩
    rw [hfull, Nat.sub_self, List.replicate_zero, List.append_nil] at htag
    exact ⟨hfull, htag.symm⟩

theorem verify_needs_complete_tag_test_frame :
    testTag.length = HMAC_TAG_LEN ∧ testTag = List.ofFn testAuth.tag :=
  (verify_needs_complete_tag_iff testFrame testAuth 2 3 ⟨0, 8, testTag⟩ (by decide)).mpr (by decide)
    (by decide)

/-- An empty reply is accepted as the all-zero tag. -/
theorem verify_accepts_empty_reply :
    (verifyFrameSecure testFrame ⟨testAuth.frame, fun _ => 0⟩ 2 3).against ⟨0, 0, []⟩ = true ∧
      ¬ ((verifyFrameSecure testFrame ⟨testAuth.frame, fun _ => 0⟩ 2 3).against ⟨0, 0, []⟩ = true →
        ([] : List Byte).length = HMAC_TAG_LEN ∧
          ([] : List Byte) = List.ofFn (fun _ : Fin HMAC_TAG_LEN => (0 : Byte))) := by
  refine ⟨by decide, fun hcomplete => ?_⟩
  have := (hcomplete (by decide)).1
  revert this
  decide

/-! ## A request HSM Task does not survive -/

/-- Where the compiler places the fields of a `CanFrame`. -/
structure FrameLayout where
  idAt : ℕ
  dlcAt : ℕ
  payloadAt : ℕ
  id_fits : idAt + 2 ≤ CAN_FRAME_SIZE
  dlc_fits : dlcAt + 1 ≤ CAN_FRAME_SIZE
  payload_fits : payloadAt + 8 ≤ CAN_FRAME_SIZE

/-- The frame of raw bytes under a layout, on the little-endian target. -/
def FrameLayout.read (L : FrameLayout) (bytes : List Byte) : CanFrame where
  id := bytes.getD (L.idAt + 1) 0 ++ bytes.getD L.idAt 0
  dlc := bytes.getD L.dlcAt 0
  payload := fun i => bytes.getD (L.payloadAt + i.val) 0

/-- A round that receives `msg` rejects it, or sends a complete tag on its second capability, and
comes to its end either way. -/
def SurvivesRequest (B : Build) (reqBuf msg : List Byte) : Prop :=
  ∃ resume, hsmRound B reqBuf = .recv 0 reqBuf resume ∧
    ((∃ next, resume (copied msg reqBuf) (deliver msg reqBuf) = .done (some next)) ∨
      ∃ tag reply, resume (copied msg reqBuf) (deliver msg reqBuf) = .send 1 tag reply ∧
        tag.length = HMAC_TAG_LEN ∧ ∀ res, ∃ next, reply res = .done (some next))

/-- HSM Task survives a request exactly when it is too short to be a frame, or the byte at the place of
`dlc` is at most 8. -/
theorem hsm_survives_iff (sha256 : List Byte → Fin 32 → Byte) (L : FrameLayout)
    (reqBuf msg : List Byte) (hbuf : reqBuf.length = CAN_FRAME_SIZE) :
    SurvivesRequest ⟨sha256, L.read⟩ reqBuf msg ↔
      msg.length < CAN_FRAME_SIZE ∨ (msg.getD L.dlcAt 0).toNat ≤ 8 := by
  have hfits := L.dlc_fits
  by_cases hshort : msg.length < CAN_FRAME_SIZE
  · refine iff_of_true ⟨_, rfl, Or.inl ⟨deliver msg reqBuf, ?_⟩⟩ (Or.inl hshort)
    have hne : ((copied msg reqBuf : ℕ) : ℤ) ≠ (CAN_FRAME_SIZE : ℕ) := by
      unfold copied
      omega
    exact if_neg hne
  · have hcopied : copied msg reqBuf = CAN_FRAME_SIZE := by
      unfold copied
      omega
    have hdlc : (L.read (deliver msg reqBuf)).dlc = msg.getD L.dlcAt 0 := by
      show (deliver msg reqBuf).getD L.dlcAt 0 = msg.getD L.dlcAt 0
      rw [List.getD_eq_getElem?_getD, List.getD_eq_getElem?_getD,
        getElem?_deliver _ _ _ (by omega), if_pos (by omega)]
    by_cases hle : (msg.getD L.dlcAt 0).toNat ≤ 8
    · refine iff_of_true ⟨_, rfl, Or.inr ⟨truncatedHmac ⟨sha256, L.read⟩ (L.read (deliver msg reqBuf)),
        fun _ => .done (some (deliver msg reqBuf)), ?_, length_truncatedHmac,
        fun _ => ⟨_, rfl⟩⟩⟩ (Or.inr hle)
      rw [← hdlc] at hle
      simp only [hcopied, if_true, computeHmacLocal_eq hle]
    · refine iff_of_false ?_ (by rintro (h | h); exacts [hshort h, hle h])
      have hpanic : Build.computeHmacLocal ⟨sha256, L.read⟩ (L.read (deliver msg reqBuf)) = none := by
        unfold Build.computeHmacLocal
        rw [if_neg (by rw [hdlc]; exact hle)]
      rintro ⟨resume, hround, hend⟩
      obtain rfl : (fun res reqBuf => if res = (CAN_FRAME_SIZE : ℤ) then
          match Build.computeHmacLocal ⟨sha256, L.read⟩ (L.read reqBuf) with
          | none => Proc.done none
          | some tag => .send 1 tag fun _ => .done (some reqBuf)
        else .done (some reqBuf)) = resume := (Proc.recv.inj hround).2.2
      simp only [hcopied, if_true, hpanic] at hend
      rcases hend with ⟨next, hnext⟩ | ⟨tag, reply, hsend, -⟩
      · cases hnext
      · cases hsend

/-- The fields in the order of their declaration. -/
def declaredLayout : FrameLayout := ⟨0, 2, 3, by decide, by decide, by decide⟩

theorem hsm_survives_test_frame :
    SurvivesRequest ⟨testBuild.sha256, declaredLayout.read⟩ (List.replicate CAN_FRAME_SIZE 0)
      testFrame :=
  (hsm_survives_iff testBuild.sha256 declaredLayout (List.replicate CAN_FRAME_SIZE 0) testFrame
    (by decide)).mpr (Or.inr (by decide))

/-- Twelve bytes with 9 at the place of `dlc`. -/
def longFrame : List Byte := [0x3E, 0, 9, 0, 0, 0, 0, 0, 0, 0, 0, 0]

theorem hsm_panics_on_long_frame :
    Build.computeHmacLocal testBuild (declaredLayout.read longFrame) = none ∧
      ¬ SurvivesRequest ⟨testBuild.sha256, declaredLayout.read⟩ (List.replicate CAN_FRAME_SIZE 0)
        longFrame := by
  refine ⟨by decide, ?_⟩
  rintro ⟨resume, hround, hend⟩
  have hresume : resume (copied longFrame (List.replicate CAN_FRAME_SIZE 0))
      (deliver longFrame (List.replicate CAN_FRAME_SIZE 0)) = .done none := by
    rw [← (Proc.recv.inj hround).2.2]
    rfl
  rw [hresume] at hend
  rcases hend with ⟨next, hnext⟩ | ⟨tag, reply, hsend, -⟩
  · cases hnext
  · cases hsend

end Cerberus.Signing
