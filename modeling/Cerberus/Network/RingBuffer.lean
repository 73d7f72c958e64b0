import Mathlib.Data.Fin.Basic
import Mathlib.Data.List.Infix
import Mathlib.Logic.Function.Basic
import Cerberus.Foundations.Transition

/-! # The CAN ring buffer

`CanRingBuffer` of `network/src/can.rs`, sequentially and as the memory steps of one producer and one
consumer. Frames are only stored and taken, so they are of any type. Indices are private to the
buffer and masked whenever they are written, so they are below the capacity by type. -/
namespace Cerberus.Network
open Transition
set_option autoImplicit false

def RING_CAPACITY : ℕ := 16

/-- `index & (RING_CAPACITY - 1)`. -/
def mask (i : ℕ) : Fin RING_CAPACITY :=
  ⟨i &&& (RING_CAPACITY - 1), Nat.lt_of_le_of_lt Nat.and_le_right (by decide)⟩

structure CanRingBuffer (F : Type) where
  frames : Fin RING_CAPACITY → Option F
  head : Fin RING_CAPACITY
  tail : Fin RING_CAPACITY

namespace CanRingBuffer

variable {F : Type} (b : CanRingBuffer F)

def new (F : Type) : CanRingBuffer F := ⟨fun _ => none, mask 0, mask 0⟩

def isFull : Bool := mask (b.tail.val + 1) = b.head

def isEmpty : Bool := b.head = b.tail

def writeSlot (frame : F) : CanRingBuffer F :=
  { b with frames := Function.update b.frames b.tail (some frame) }

def advanceTail : CanRingBuffer F := { b with tail := mask (b.tail.val + 1) }

/-- `self.frames[self.head].take()` leaves the slot empty. -/
def takeSlot : CanRingBuffer F := { b with frames := Function.update b.frames b.head none }

def advanceHead : CanRingBuffer F := { b with head := mask (b.head.val + 1) }

/-- `none` is `Err(CanError::BufferFull)`. -/
def push (frame : F) : Option (CanRingBuffer F) :=
  if b.isFull then none else some (b.writeSlot frame).advanceTail

def pop : Option F × CanRingBuffer F :=
  if b.isEmpty then (none, b) else (b.frames b.head, b.takeSlot.advanceHead)

end CanRingBuffer

/-! ## The two parties -/

inductive Producer (F : Type) where
  | idle
  | writing (frame : F)
  | advancing (frame : F)

inductive Consumer where
  | idle
  | taking
  | advancing

/-- The buffer, where the two parties are in `push` and `pop`, the frames whose `push` has returned
`Ok`, and what `pop` has taken from a slot after it found the buffer not empty. -/
structure Session (F : Type) where
  ring : CanRingBuffer F
  producer : Producer F
  consumer : Consumer
  pushed : List F
  popped : List (Option F)

inductive Action (F : Type) where
  | checkNotFull (frame : F)
  | writeSlot
  | advanceTail
  | checkNotEmpty
  | takeSlot
  | advanceHead

namespace Session

variable {F : Type}

/-- One memory step of either party; `none` if it is not the party's next one. A `push` that finds
the buffer full returns, and so does a `pop` that finds it empty. -/
def next (s : Session F) : Action F → Option (Session F)
  | .checkNotFull frame =>
    match s.producer with
    | .idle => some (if s.ring.isFull then s else { s with producer := .writing frame })
    | _ => none
  | .writeSlot =>
    match s.producer with
    | .writing frame =>
      some { s with ring := s.ring.writeSlot frame, producer := .advancing frame }
    | _ => none
  | .advanceTail =>
    match s.producer with
    | .advancing frame =>
      some { s with ring := s.ring.advanceTail, producer := .idle, pushed := s.pushed ++ [frame] }
    | _ => none
  | .checkNotEmpty =>
    match s.consumer with
    | .idle => some (if s.ring.isEmpty then s else { s with consumer := .taking })
    | _ => none
  | .takeSlot =>
    match s.consumer with
    | .taking => some { s with
        ring := s.ring.takeSlot
        consumer := .advancing
        popped := s.popped ++ [s.ring.frames s.ring.head] }
    | _ => none
  | .advanceHead =>
    match s.consumer with
    | .advancing => some { s with ring := s.ring.advanceHead, consumer := .idle }
    | _ => none

def initial (F : Type) : Session F := ⟨.new F, .idle, .idle, [], []⟩

end Session

def RingStep {F : Type} (s : Session F) (a : Action F) (s' : Session F) : Prop := s.next a = some s'

/-! ## The representation -/

theorem val_mask (i : ℕ) : (mask i).val = i % 16 := Nat.and_two_pow_sub_one_eq_mod i 4

theorem mask_eq_iff {i j : ℕ} : mask i = mask j ↔ i % 16 = j % 16 := by
  rw [← Fin.val_inj, val_mask, val_mask]

def Consumer.ahead : Consumer → ℕ
  | .advancing => 1
  | .idle | .taking => 0

/-- The indices are the numbers of completed operations modulo the capacity, `popsDone` being that of
the consumer. A frame that was pushed and not taken is in its slot, and so is the one the producer has
written and not yet counted. -/
structure RingInv {F : Type} (s : Session F) (popsDone : ℕ) : Prop where
  head : s.ring.head = mask popsDone
  tail : s.ring.tail = mask s.pushed.length
  room : s.pushed.length ≤ popsDone + 15
  taken : s.popped.length = popsDone + s.consumer.ahead
  order : s.popped.length ≤ s.pushed.length
  taking : s.consumer = .taking → popsDone < s.pushed.length
  space : ∀ f, s.producer = .writing f ∨ s.producer = .advancing f →
    s.pushed.length < popsDone + 15
  written : ∀ f, s.producer = .advancing f → s.ring.frames s.ring.tail = some f
  stored : ∀ j f, s.popped.length ≤ j → s.pushed[j]? = some f → s.ring.frames (mask j) = some f
  fifo : s.popped <+: s.pushed.map some

section Steps
variable {F : Type} {s : Session F} {popsDone : ℕ}

theorem RingInv.isFull_iff (hs : RingInv s popsDone) :
    s.ring.isFull = true ↔ s.pushed.length = popsDone + 15 := by
  have hroom := hs.room
  have horder := hs.order
  have htaken := hs.taken
  have hahead : s.consumer.ahead ≤ 1 := by cases s.consumer <;> simp [Consumer.ahead]
  rw [CanRingBuffer.isFull, decide_eq_true_eq, hs.head, hs.tail, val_mask, mask_eq_iff]
  omega

theorem RingInv.isEmpty_iff (hs : RingInv s popsDone) :
    s.ring.isEmpty = true ↔ s.pushed.length = popsDone := by
  have hroom := hs.room
  have horder := hs.order
  have htaken := hs.taken
  rw [CanRingBuffer.isEmpty, decide_eq_true_eq, hs.head, hs.tail, mask_eq_iff]
  omega

theorem ringInv_initial (F : Type) : RingInv (Session.initial F) 0 where
  head := rfl
  tail := rfl
  room := by simp [Session.initial]
  taken := rfl
  order := by simp [Session.initial]
  taking := fun h => by cases h
  space := fun f h => by rcases h with h | h <;> cases h
  written := fun f h => by cases h
  stored := fun j f _ hj => by cases hj
  fifo := List.nil_prefix

theorem RingInv.checkNotFull (hs : RingInv s popsDone) (frame : F) (hfull : s.ring.isFull = false) :
    RingInv { s with producer := .writing frame } popsDone where
  head := hs.head
  tail := hs.tail
  room := hs.room
  taken := hs.taken
  order := hs.order
  taking := hs.taking
  space := fun f _ => by
    have hne : s.pushed.length ≠ popsDone + 15 := fun h => by
      rw [hs.isFull_iff.mpr h] at hfull
      cases hfull
    exact Nat.lt_of_le_of_ne hs.room hne
  written := fun f h => by cases h
  stored := hs.stored
  fifo := hs.fifo

theorem RingInv.writeSlot (hs : RingInv s popsDone) {frame : F} (hp : s.producer = .writing frame) :
    RingInv { s with ring := s.ring.writeSlot frame, producer := .advancing frame } popsDone where
  head := hs.head
  tail := hs.tail
  room := hs.room
  taken := hs.taken
  order := hs.order
  taking := hs.taking
  space := fun f _ => hs.space frame (Or.inl hp)
  written := fun f h => by
    obtain rfl : frame = f := by simpa using h
    exact Function.update_self _ _ _
  stored := fun j f hj hf => by
    -- the slot at the tail is none of the slots in use, which are fewer than 16
    have hlt : j < s.pushed.length := (List.getElem?_eq_some_iff.mp hf).1
    have hfrom : s.popped.length ≤ j := hj
    have hspace := hs.space frame (Or.inl hp)
    have htaken := hs.taken
    have hne : mask j ≠ s.ring.tail := by
      rw [hs.tail, Ne, mask_eq_iff]
      omega
    exact (Function.update_of_ne hne _ _).trans (hs.stored j f hj hf)
  fifo := hs.fifo

theorem RingInv.advanceTail (hs : RingInv s popsDone) {frame : F}
    (hp : s.producer = .advancing frame) :
    RingInv { s with
      ring := s.ring.advanceTail, producer := .idle, pushed := s.pushed ++ [frame] } popsDone where
  head := hs.head
  tail := by
    have htail := congrArg Fin.val hs.tail
    rw [val_mask] at htail
    show mask (s.ring.tail.val + 1) = mask (s.pushed ++ [frame]).length
    rw [mask_eq_iff, List.length_append, List.length_singleton, htail]
    omega
  room := by
    have hspace := hs.space frame (Or.inr hp)
    simp only [List.length_append, List.length_singleton]
    omega
  taken := hs.taken
  order := by
    have horder := hs.order
    simp only [List.length_append, List.length_singleton]
    omega
  taking := fun h => by
    have hlt := hs.taking h
    simp only [List.length_append, List.length_singleton]
    omega
  space := fun f h => by rcases h with h | h <;> cases h
  written := fun f h => by cases h
  stored := fun j f hj hf => by
    by_cases hlast : j = s.pushed.length
    · subst hlast
      rw [List.getElem?_concat_length] at hf
      rw [← Option.some.inj hf, ← hs.tail]
      exact hs.written frame hp
    · have hlt := (List.getElem?_eq_some_iff.mp hf).1
      rw [List.length_append, List.length_singleton] at hlt
      rw [List.getElem?_append_left (by omega)] at hf
      exact hs.stored j f hj hf
  fifo := by
    rw [List.map_append]
    exact hs.fifo.trans (List.prefix_append _ _)

theorem RingInv.checkNotEmpty (hs : RingInv s popsDone) (hidle : s.consumer = .idle)
    (hempty : s.ring.isEmpty = false) : RingInv { s with consumer := .taking } popsDone where
  head := hs.head
  tail := hs.tail
  room := hs.room
  taken := by
    have htaken := hs.taken
    rw [hidle] at htaken
    exact htaken
  order := hs.order
  taking := fun _ => by
    have htaken := hs.taken
    have horder := hs.order
    rw [hidle, Consumer.ahead] at htaken
    have hne : s.pushed.length ≠ popsDone := fun h => by
      rw [hs.isEmpty_iff.mpr h] at hempty
      cases hempty
    show popsDone < s.pushed.length
    omega
  space := hs.space
  written := hs.written
  stored := hs.stored
  fifo := hs.fifo

theorem RingInv.takeSlot (hs : RingInv s popsDone) (hc : s.consumer = .taking) :
    RingInv { s with
      ring := s.ring.takeSlot
      consumer := .advancing
      popped := s.popped ++ [s.ring.frames s.ring.head] } popsDone := by
  have htaken := hs.taken
  rw [hc, Consumer.ahead, Nat.add_zero] at htaken
  have hlt := hs.taking hc
  have hget : s.pushed[popsDone]? = some s.pushed[popsDone] := List.getElem?_eq_getElem hlt
  -- what is taken is the oldest frame not taken yet
  have hslot : s.ring.frames s.ring.head = some s.pushed[popsDone] := by
    rw [hs.head]
    exact hs.stored popsDone _ htaken.le hget
  have hroom := hs.room
  refine ⟨hs.head, hs.tail, hs.room, ?_, ?_, fun h => ?_, hs.space, fun f hf => ?_,
    fun j f hj hf => ?_, ?_⟩
  · rw [List.length_append, List.length_singleton, htaken]
    rfl
  · rw [List.length_append, List.length_singleton, htaken]
    exact hlt
  · cases h
  · have hspace := hs.space f (Or.inr hf)
    have hne : s.ring.tail ≠ s.ring.head := by
      rw [hs.tail, hs.head, Ne, mask_eq_iff]
      omega
    exact (Function.update_of_ne hne _ _).trans (hs.written f hf)
  · rw [List.length_append, List.length_singleton, htaken] at hj
    have hjlt : j < s.pushed.length := (List.getElem?_eq_some_iff.mp hf).1
    have hne : mask j ≠ s.ring.head := by
      rw [hs.head, Ne, mask_eq_iff]
      omega
    exact (Function.update_of_ne hne _ _).trans (hs.stored j f (by omega) hf)
  · have hpre := List.prefix_iff_eq_take.mp hs.fifo
    rw [htaken] at hpre
    show s.popped ++ [s.ring.frames s.ring.head] <+: s.pushed.map some
    rw [hslot, List.prefix_iff_eq_take, List.length_append, List.length_singleton, htaken,
      List.take_add_one, ← hpre, List.getElem?_map, hget]
    rfl

theorem RingInv.advanceHead (hs : RingInv s popsDone) (hc : s.consumer = .advancing) :
    RingInv { s with ring := s.ring.advanceHead, consumer := .idle } (popsDone + 1) := by
  have htaken := hs.taken
  rw [hc, Consumer.ahead] at htaken
  have hroom := hs.room
  refine ⟨?_, hs.tail, ?_, htaken, hs.order, fun h => ?_, fun f hf => ?_, hs.written, hs.stored,
    hs.fifo⟩
  · have hhead := congrArg Fin.val hs.head
    rw [val_mask] at hhead
    show mask (s.ring.head.val + 1) = mask (popsDone + 1)
    rw [mask_eq_iff, hhead]
    omega
  · show s.pushed.length ≤ popsDone + 1 + 15
    omega
  · cases h
  · have hspace := hs.space f hf
    show s.pushed.length < popsDone + 1 + 15
    omega

theorem ringInv_step {s' : Session F} {a : Action F} (hs : RingInv s popsDone)
    (hstep : RingStep s a s') : ∃ popsDone', RingInv s' popsDone' := by
  unfold RingStep Session.next at hstep
  cases a with
  | checkNotFull frame =>
    cases hp : s.producer <;> rw [hp] at hstep <;> cases hstep
    by_cases hfull : s.ring.isFull = true
    · rw [if_pos hfull]
      exact ⟨popsDone, hs⟩
    · rw [if_neg hfull]
      exact ⟨popsDone, hs.checkNotFull frame (by simpa using hfull)⟩
  | writeSlot =>
    cases hp : s.producer <;> rw [hp] at hstep <;> cases hstep
    exact ⟨popsDone, hs.writeSlot hp⟩
  | advanceTail =>
    cases hp : s.producer <;> rw [hp] at hstep <;> cases hstep
    exact ⟨popsDone, hs.advanceTail hp⟩
  | checkNotEmpty =>
    cases hc : s.consumer <;> rw [hc] at hstep <;> cases hstep
    by_cases hempty : s.ring.isEmpty = true
    · rw [if_pos hempty]
      exact ⟨popsDone, hs⟩
    · rw [if_neg hempty]
      exact ⟨popsDone, hs.checkNotEmpty hc (by simpa using hempty)⟩
  | takeSlot =>
    cases hc : s.consumer <;> rw [hc] at hstep <;> cases hstep
    exact ⟨popsDone, hs.takeSlot hc⟩
  | advanceHead =>
    cases hc : s.consumer <;> rw [hc] at hstep <;> cases hstep
    exact ⟨popsDone + 1, hs.advanceHead hc⟩

end Steps

theorem ringInv_run {F : Type} {s : Session F} {as : List (Action F)}
    (hrun : Run RingStep (Session.initial F) as s) : ∃ popsDone, RingInv s popsDone :=
  hrun.invariant (I := fun s => ∃ popsDone, RingInv s popsDone)
    (fun _ _ _ ⟨_, hs⟩ hstep => ringInv_step hs hstep) ⟨0, ringInv_initial F⟩

/-! ## A bounded FIFO -/

theorem CanRingBuffer.isFull_iff {F : Type} (b : CanRingBuffer F) :
    b.isFull = true ↔ (b.tail.val + RING_CAPACITY - b.head.val) % RING_CAPACITY = 15 := by
  have htail : b.tail.val < 16 := b.tail.isLt
  have hhead : b.head.val < 16 := b.head.isLt
  rw [CanRingBuffer.isFull, decide_eq_true_eq, ← Fin.val_inj, val_mask]
  show (b.tail.val + 1) % 16 = b.head.val ↔ (b.tail.val + 16 - b.head.val) % 16 = 15
  omega

/-- The steps of an undisturbed `push` are the function of the source. -/
theorem push_steps {F : Type} (s : Session F) (frame : F) (hidle : s.producer = .idle) :
    (s.ring.push frame = none → s.next (.checkNotFull frame) = some s) ∧
    ∀ b, s.ring.push frame = some b →
      [.checkNotFull frame, .writeSlot, .advanceTail].foldlM Session.next s =
        some { s with ring := b, pushed := s.pushed ++ [frame] } := by
  obtain ⟨b, p, c, pushed, popped⟩ := s
  obtain rfl : p = .idle := hidle
  by_cases hfull : b.isFull = true
  · simp [CanRingBuffer.push, Session.next, hfull]
  · simp [CanRingBuffer.push, Session.next, hfull]

theorem pop_steps {F : Type} (s : Session F) (hidle : s.consumer = .idle)
    (hempty : s.ring.isEmpty = false) :
    [.checkNotEmpty, .takeSlot, .advanceHead].foldlM Session.next s =
      some { s with ring := s.ring.pop.2, popped := s.popped ++ [s.ring.pop.1] } := by
  obtain ⟨b, p, c, pushed, popped⟩ := s
  obtain rfl : c = .idle := hidle
  have hempty' : b.isEmpty = false := hempty
  simp [CanRingBuffer.pop, Session.next, hempty']

/-- In every state the two parties reach, what was popped is a prefix of what was pushed, without an
empty slot among it, and at most 15 frames behind; and whenever a `push` checks, it is refused exactly
when the indices are 15 apart, and then nothing changes. -/
theorem can_ring_fifo {F : Type} {s : Session F} {as : List (Action F)}
    (hrun : Run RingStep (Session.initial F) as s) :
    s.popped <+: s.pushed.map some ∧ s.pushed.length ≤ s.popped.length + 15 ∧
      (s.producer = .idle → ∀ frame,
        (s.ring.push frame = none ↔
          (s.ring.tail.val + RING_CAPACITY - s.ring.head.val) % RING_CAPACITY = 15) ∧
        s.next (.checkNotFull frame) =
          some (if s.ring.push frame = none then s else { s with producer := .writing frame })) := by
  obtain ⟨popsDone, hs⟩ := ringInv_run hrun
  refine ⟨hs.fifo, ?_, fun hidle frame => ?_⟩
  · have hroom := hs.room
    have htaken := hs.taken
    omega
  · have hrefused : s.ring.push frame = none ↔ s.ring.isFull = true := by
      simp [CanRingBuffer.push]
    refine ⟨hrefused.trans s.ring.isFull_iff, ?_⟩
    simp only [Session.next, hidle, hrefused]

def wrapAround : List (Action ℕ) :=
  (List.range 17).flatMap fun i => [.checkNotFull i, .writeSlot, .checkNotEmpty, .advanceTail,
    .checkNotEmpty, .takeSlot, .advanceHead]

/-- Seventeen frames go through the buffer, so that both indices wrap around. -/
theorem can_ring_fifo_wraps : ∃ s, Run RingStep (Session.initial ℕ) wrapAround s ∧
    s.popped = (List.range 17).map some ∧ s.popped <+: s.pushed.map some := by
  have heval : (wrapAround.foldlM Session.next (Session.initial ℕ)).map (·.popped) =
      some ((List.range 17).map some) := by decide +kernel
  obtain ⟨s, hs, hpopped⟩ := Option.map_eq_some_iff.mp heval
  have hrun : Run RingStep (Session.initial ℕ) wrapAround s := Run.of_foldlM hs
  exact ⟨s, hrun, hpopped, (can_ring_fifo hrun).1⟩

end Cerberus.Network
