import Mathlib.Tactic.MkIffOfInductiveProp
import Cerberus.Ipc.Order
import Cerberus.Ipc.Rendezvous
import Cerberus.Watchdog.Restart

/-! # HSM Task and its session with Task A

`compute_hmac_local` and the loop of `hsm_task`, followed through the system. A session is a state of
the system, the point HSM Task has reached in its loop, and the bytes of the last message that was
transferred on endpoint 2. The point is not stored anywhere: it is read off the transfers, the recorded
state of the task and its calls, and a restart sets it back to the top. -/
namespace Cerberus.Signing
open Kernel Scheduler Sync Memory Transition Watchdog
set_option autoImplicit false

/-! ## The tag of a frame -/

structure CanFrame where
  id : BitVec 16
  dlc : Byte
  payload : Fin 8 → Byte

/-- `size_of::<CanFrame>()`: eleven bytes, padded to the alignment of `id`. -/
def CAN_FRAME_SIZE : ℕ := 12

def HMAC_TAG_LEN : ℕ := 8

def HMAC_KEY : List Byte :=
  "cerberus-os-dev-key-not-for-prod".toList.map fun c => BitVec.ofNat 8 c.toNat

/-- What comes from outside the repository: the hash of the `sha2` crate, and where the compiler places
the fields of a `CanFrame` that is read from raw bytes. -/
structure Build where
  sha256 : List Byte → Fin 32 → Byte
  readUnaligned : List Byte → CanFrame

/-- `[pad; 64]` with the key xored into its first 32 bytes. -/
def padKey (pad : Byte) : List Byte :=
  List.ofFn fun i : Fin 64 => if i.val < 32 then pad ^^^ HMAC_KEY.getD i.val 0 else pad

/-- `none` is the panic of `payload[..dlc]` on a `dlc` above 8. -/
def Build.computeHmacLocal (B : Build) (frame : CanFrame) : Option (List Byte) :=
  if frame.dlc.toNat ≤ 8 then
    let innerHash := B.sha256 (padKey 0x36 ++
      [frame.id.setWidth 8, (frame.id >>> 8).setWidth 8, frame.dlc] ++
      (List.ofFn frame.payload).take frame.dlc.toNat)
    let fullMac := B.sha256 (padKey 0x5C ++ List.ofFn innerHash)
    some ((List.ofFn fullMac).take HMAC_TAG_LEN)
  else none

/-! ## The session -/

/-- Where HSM Task is in its loop: between the top and the return of `sys_recv`; between that return,
with a frame in `req_buf`, and the call of `sys_send`; blocked in `sys_send` with its `tag`. -/
inductive Phase where
  | listening
  | serving (reqBuf : Word)
  | replying (tag : Word)

/-- The bytes of its stack HSM Task counts on. -/
def Phase.live : Phase → Word × ℕ
  | .listening => (0, 0)
  | .serving reqBuf => (reqBuf, CAN_FRAME_SIZE)
  | .replying tag => (tag, HMAC_TAG_LEN)

/-- The rendezvous an event completes: its endpoint, its plan, and the memory the copy reads. -/
def completed (k : Kernel) : Event → Option (Byte × Plan × Memory)
  | .trap h t m => (transferEndpoint (k.setMem m) h t).bind fun e =>
      (transferPlan (k.setMem m) h t).map fun p => (e, p, m)
  | _ => none

/-- The trap the running task takes, with the memory its handler finds. -/
def firstTrap : Event → Option (Hart × Trap × Memory)
  | .trap h t m => some (h, t, m)
  | .nestedTrap h t m _ _ => some (h, t, m)
  | _ => none

/-- Task `x` makes a system call. -/
def calls (k : Kernel) (x : TaskId) (ev : Event) : Prop :=
  ∃ h t m, firstTrap ev = some (h, t, m) ∧ (h, k.current h) = x ∧ t.mcause = ECALL_UMODE

instance (k : Kernel) (x : TaskId) (ev : Event) : Decidable (calls k x ev) :=
  match he : firstTrap ev with
  | none => isFalse fun ⟨_, _, _, hc, _⟩ => by cases he.symm.trans hc
  | some (h, t, m) => decidable_of_iff ((h, k.current h) = x ∧ t.mcause = ECALL_UMODE)
    ⟨fun hc => ⟨h, t, m, he, hc⟩, fun ⟨_, _, _, hc, hx⟩ => by
      obtain ⟨rfl, rfl, rfl⟩ : _ ∧ _ ∧ _ := by simpa using he.symm.trans hc
      exact hx⟩

structure Session where
  sys : System
  phase : Phase
  request : Option (List Byte)

namespace Session
variable (σ : Session)

/-- Where a transfer on `e` leaves HSM Task: with a frame if the received length is that of one, or
past `sys_send`. -/
def afterTransfer (e : Byte) (p : Plan) : Option Phase :=
  if e = 2 then some (if p.len.toNat = CAN_FRAME_SIZE then .serving p.dst else .listening)
  else if e = 3 then some .listening
  else none

def nextPhase (ev : Event) (k' : Kernel) : Phase :=
  ((completed σ.sys.kernel ev).bind fun c => afterTransfer c.1 c.2.1).getD <|
    match k'.stateOf 0 4 with
    | some (.blockedOnIpcSend _ msgAddr _) => .replying msgAddr
    | _ =>
      if calls σ.sys.kernel hsmTask ev ∨ ev.restartsNow σ.sys.kernel = some hsmTask then .listening
      else σ.phase

/-- The bytes of the message, if the event completes a transfer on endpoint 2. -/
def nextRequest (ev : Event) : Option (List Byte) :=
  ((completed σ.sys.kernel ev).bind fun c =>
    if c.1 = 2 then some (c.2.2.bytes c.2.1.src c.2.1.len.toNat) else none).or σ.request

def next (P : Platform) (ev : Event) : Option Session :=
  (σ.sys.next P ev).map fun s' => ⟨s', σ.nextPhase ev s'.kernel, σ.nextRequest ev⟩

end Session

def SessionStep (P : Platform) (σ : Session) (ev : Event) (σ' : Session) : Prop :=
  σ.next P ev = some σ'

def SessionInitial (P : Platform) (σ : Session) : Prop :=
  Initial P σ.sys ∧ σ.phase = .listening ∧ σ.request = none

/-! ## The programs -/

/-- What `hsm_task` calls: a check-in and `sys_recv` before it has a frame, then `sys_send` with the
tag of the frame in `req_buf`. -/
def HsmCalls (B : Build) (phase : Phase) (k : Kernel) (t : Trap) : Prop :=
  match phase with
  | .serving reqBuf => (k.readFrame t.userSp 13).toNat = 6 ∧ k.readFrame t.userSp 6 = 1 ∧
      (k.readFrame t.userSp 8).toNat = HMAC_TAG_LEN ∧
      B.computeHmacLocal (B.readUnaligned (k.mem.bytes reqBuf CAN_FRAME_SIZE)) =
        some (k.mem.bytes (k.readFrame t.userSp 7) HMAC_TAG_LEN)
  | _ => (k.readFrame t.userSp 13).toNat = 5 ∨ ((k.readFrame t.userSp 13).toNat = 7 ∧
      k.readFrame t.userSp 6 = 0 ∧ (k.readFrame t.userSp 8).toNat = CAN_FRAME_SIZE)

instance (B : Build) (phase : Phase) (k : Kernel) (t : Trap) : Decidable (HsmCalls B phase k t) := by
  unfold HsmCalls
  split <;> infer_instance

/-- What the programs of the tasks promise of a trap they take. `idle_task` makes no call and cannot
fault, nobody terminates an idle task, and `hsm_task` is the loop above. The frame of a trap and the
message or buffer of a call are on the stack of HSM Task if it is the caller and elsewhere if not,
apart from each other. -/
@[mk_iff] structure Programs (P : Platform) (B : Build) (phase : Phase) (h : Hart) (t : Trap)
    (k : Kernel) : Prop where
  idle : k.current h = 31 → t.mcause = TIMER_INTERRUPT ∨ t.mcause = SOFTWARE_INTERRUPT
  terminate : t.mcause = ECALL_UMODE → (k.readFrame t.userSp 13).toNat = 8 →
    (k.readFrame t.userSp 6).toNat ≠ 31
  hsm : (h, k.current h) = hsmTask → t.mcause = ECALL_UMODE → HsmCalls B phase k t
  frame : ∀ a, InRange t.userSp 128 a → (P.layout.InStack .hsm a ↔ (h, k.current h) = hsmTask)
  buffer : t.mcause = ECALL_UMODE →
    (k.readFrame t.userSp 13).toNat = 6 ∨ (k.readFrame t.userSp 13).toNat = 7 →
    ∀ a, InRange (k.readFrame t.userSp 7) (k.readFrame t.userSp 8).toNat a →
      (P.layout.InStack .hsm a ↔ (h, k.current h) = hsmTask) ∧ ¬ InRange t.userSp 128 a

/-- A step as the programs take it. The saved frames of the other tasks are not on the stack of HSM
Task; and nobody writes the bytes it counts on, or has a frame there. -/
@[mk_iff] structure Honest (P : Platform) (B : Build) (σ : Session) (ev : Event) : Prop where
  programs : ∀ h t m, firstTrap ev = some (h, t, m) →
    Programs P B σ.phase h t (σ.sys.kernel.setMem m)
  saved : ∀ y sp, y ≠ hsmTask → savedSpOf σ.sys.kernel y = some sp → ∀ a, InRange sp 128 a →
    ¬ P.layout.InStack .hsm a
  live : ∀ h t m, lastTrap ev = some (h, t, m) → ∀ a, InRange σ.phase.live.1 σ.phase.live.2 a →
    m a = σ.sys.kernel.mem a ∧ ¬ InRange t.userSp 128 a

/-! ### Deciding them -/

instance (P : Platform) (B : Build) (phase : Phase) (h : Hart) (t : Trap) (k : Kernel) :
    Decidable (Programs P B phase h t k) := decidable_of_iff' _ (programs_iff P B phase h t k)

instance (o : Option (Hart × Trap × Memory)) (Q : Hart → Trap → Memory → Prop)
    [∀ h t m, Decidable (Q h t m)] : Decidable (∀ h t m, o = some (h, t, m) → Q h t m) :=
  match o with
  | none => isTrue fun _ _ _ ho => by cases ho
  | some (h, t, m) => decidable_of_iff (Q h t m)
    ⟨fun hq _ _ _ ho => by
      obtain ⟨rfl, rfl, rfl⟩ : _ ∧ _ ∧ _ := by simpa using ho
      exact hq, fun hall => hall h t m rfl⟩

instance (k : Kernel) (x : TaskId) (Q : Word → Prop) [DecidablePred Q] :
    Decidable (∀ y sp, y ≠ x → savedSpOf k y = some sp → Q sp) :=
  decidable_of_iff (slots.all fun y => (savedSpOf k y).all fun sp => decide (y ≠ x → Q sp))
    (by
      simp only [List.all_eq_true, Option.all_eq_true, decide_eq_true_eq]
      exact ⟨fun hall y sp hy hsp => hall y (Ipc.mem_slots y) sp hsp hy,
        fun hall y _ sp hsp hy => hall y sp hy hsp⟩)

instance (P : Platform) (B : Build) (σ : Session) (ev : Event) : Decidable (Honest P B σ ev) :=
  decidable_of_iff' _ (honest_iff P B σ ev)

end Cerberus.Signing
