import Cerberus.Telemetry.Codec

/-! # The telemetry broker

The loop of `tail_file` in `host/telemetry_broker.py`: every chunk read from the file is written to an
in-memory stream, from which events are parsed until none is complete. -/
namespace Cerberus.Telemetry
open Kernel
set_option autoImplicit false

/-- `io.BytesIo`: the bytes before the stream position and those from it on. -/
structure BytesIo where
  before : List Byte
  after : List Byte
  deriving DecidableEq

namespace BytesIo

variable (stream : BytesIo)

def new : BytesIo := ⟨[], []⟩

def tell : ℕ := stream.before.length

def seek (pos : ℕ) : BytesIo :=
  ⟨(stream.before ++ stream.after).take pos, (stream.before ++ stream.after).drop pos⟩

/-- Bytes after the position are overwritten. -/
def write (bytes : List Byte) : BytesIo :=
  ⟨stream.before ++ bytes, stream.after.drop bytes.length⟩

/-- The stream once a parser has left only `rest` unread. -/
def readTo (rest : List Byte) : BytesIo :=
  ⟨stream.before ++ stream.after.take (stream.after.length - rest.length), rest⟩

@[simp] theorem seek_zero : stream.seek 0 = ⟨[], stream.before ++ stream.after⟩ := rfl

@[simp] theorem seek_tell : stream.seek stream.tell = stream := by
  simp [seek, tell]

end BytesIo

/-- The inner loop: what it broadcasts, and the stream it leaves for the next chunk. -/
def drain (stream : BytesIo) : List Record × BytesIo :=
  match _hp : parseEvent stream.after with
  | .ok (some (event, rest)) =>
    let r := drain (stream.readTo rest)
    (event :: r.1, r.2)
  | .ok none | .error _ =>
    let remaining := (stream.seek stream.tell).after
    ([], (BytesIo.new.write remaining).seek 0)
termination_by stream.after.length
decreasing_by
  have hsize := size_le_of_parseEvent _hp
  have hpos := event.size_pos
  simp only [BytesIo.readTo]
  omega

/-- The outer loop, over the chunks `f.read` returns. -/
def tailFile (stream : BytesIo) : List (List Byte) → List Record
  | [] => []
  | chunk :: chunks =>
    let r := drain ((stream.write chunk).seek 0)
    r.1 ++ tailFile r.2 chunks

/-! ## Whole events -/

theorem drain_event {stream : BytesIo} {event : Record} {rest : List Byte}
    (hp : parseEvent stream.after = .ok (some (event, rest))) :
    drain stream = (event :: (drain (stream.readTo rest)).1, (drain (stream.readTo rest)).2) := by
  rw [drain]
  split
  · rename_i event' rest' hp'
    rw [hp] at hp'
    obtain ⟨rfl, rfl⟩ : event = event' ∧ rest = rest' := by simpa using hp'
    rfl
  · rename_i hp'
    rw [hp] at hp'
    cases hp'
  · rename_i hp'
    rw [hp] at hp'
    cases hp'

theorem drain_stop {stream : BytesIo} (hp : ∀ r, parseEvent stream.after ≠ .ok (some r)) :
    drain stream = ([], ⟨[], stream.after⟩) := by
  have hbuffer : (BytesIo.new.write (stream.seek stream.tell).after).seek 0 =
      ⟨[], stream.after⟩ := by
    simp [BytesIo.new, BytesIo.write]
  rw [drain]
  split
  · rename_i hp'
    exact absurd hp' (hp _)
  · exact congrArg (Prod.mk []) hbuffer
  · exact congrArg (Prod.mk []) hbuffer

theorem parseEvent_nil : parseEvent [] = .ok none := rfl

theorem drain_encodeAll (before : List Byte) (events : List TraceEvent) :
    drain ⟨before, encodeAll events⟩ = (events.map record, BytesIo.new) := by
  induction events generalizing before with
  | nil =>
    refine drain_stop fun r hr => ?_
    have hnil : parseEvent [] = .ok (some r) := hr
    rw [parseEvent_nil] at hnil
    cases hnil
  | cons e events ih =>
    have hp : parseEvent (encodeAll (e :: events)) = .ok (some (record e, encodeAll events)) :=
      parseEvent_encode e (encodeAll events)
    rw [drain_event hp, BytesIo.readTo, ih]
    rfl

/-! ## No byte is read twice -/

def sizes (records : List Record) : ℕ := (records.map Record.size).sum

@[simp] theorem sizes_append (rs ss : List Record) : sizes (rs ++ ss) = sizes rs + sizes ss := by
  simp [sizes]

theorem sizes_record (events : List TraceEvent) :
    sizes (events.map record) = (encodeAll events).length := by
  induction events with
  | nil => rfl
  | cons e events ih =>
    simp only [sizes, List.map_cons, List.sum_cons, size_record, encodeAll, List.flatMap_cons,
      List.length_append] at ih ⊢
    rw [ih]

theorem drain_sizes (stream : BytesIo) :
    sizes (drain stream).1 + (drain stream).2.after.length ≤ stream.after.length ∧
      (drain stream).2.before = [] := by
  induction hn : stream.after.length using Nat.strongRecOn generalizing stream with
  | ind n ih =>
    by_cases hp : ∃ r, parseEvent stream.after = .ok (some r)
    · obtain ⟨⟨event, rest⟩, hp⟩ := hp
      have hsize := size_le_of_parseEvent hp
      have hpos := event.size_pos
      obtain ⟨hle, hbefore⟩ := ih rest.length (by omega) (stream.readTo rest) rfl
      rw [drain_event hp]
      refine ⟨?_, hbefore⟩
      simp only [sizes, List.map_cons, List.sum_cons] at hle ⊢
      omega
    · rw [drain_stop (not_exists.mp hp)]
      refine ⟨?_, rfl⟩
      simp only [sizes, List.map_nil, List.sum_nil, Nat.zero_add]
      exact hn.le

/-- Before a chunk is drained: it has overwritten what was carried over. -/
theorem write_seek {stream : BytesIo} (hbefore : stream.before = []) (chunk : List Byte) :
    (stream.write chunk).seek 0 = ⟨[], chunk ++ stream.after.drop chunk.length⟩ := by
  simp [BytesIo.write, hbefore]

theorem tailFile_sizes {stream : BytesIo} (hbefore : stream.before = [])
    (chunks : List (List Byte)) :
    sizes (tailFile stream chunks) ≤ stream.after.length + chunks.flatten.length := by
  induction chunks generalizing stream with
  | nil => simp [tailFile, sizes]
  | cons chunk chunks ih =>
    obtain ⟨hle, hb⟩ := drain_sizes ((stream.write chunk).seek 0)
    have hrest := ih hb
    rw [write_seek hbefore] at hle hrest
    simp only [tailFile, write_seek hbefore, sizes_append, List.flatten_cons, List.length_append,
      List.length_drop] at hle hrest ⊢
    omega

/-- A chunk that finds bytes carried over loses some of them. -/
theorem tailFile_loses {stream : BytesIo} (hbefore : stream.before = []) {chunk : List Byte}
    (hchunk : chunk ≠ []) (chunks : List (List Byte)) (hafter : stream.after ≠ []) :
    sizes (tailFile stream (chunk :: chunks)) <
      stream.after.length + (chunk :: chunks).flatten.length := by
  obtain ⟨hle, hb⟩ := drain_sizes ((stream.write chunk).seek 0)
  have hrest := tailFile_sizes hb chunks
  have hc := List.length_pos_of_ne_nil hchunk
  have ha := List.length_pos_of_ne_nil hafter
  rw [write_seek hbefore] at hle hrest
  simp only [tailFile, write_seek hbefore, sizes_append, List.flatten_cons, List.length_append,
    List.length_drop] at hle hrest ⊢
  omega

/-! ## Chunks that end between events -/

/-- Every chunk ends where an event ends. -/
def Aligned (events : List TraceEvent) (chunks : List (List Byte)) : Prop :=
  ∀ j, ∃ n, (chunks.take j).flatten = encodeAll (events.take n)

theorem encodeAll_split (events : List TraceEvent) (n : ℕ) :
    encodeAll events = encodeAll (events.take n) ++ encodeAll (events.drop n) := by
  rw [encodeAll, encodeAll, encodeAll, ← List.flatMap_append, List.take_append_drop]

theorem tailFile_cons_of_whole {chunk : List Byte} {events : List TraceEvent}
    (hchunk : chunk = encodeAll events) (chunks : List (List Byte)) :
    tailFile BytesIo.new (chunk :: chunks) = events.map record ++ tailFile BytesIo.new chunks := by
  have hwrite : (BytesIo.new.write chunk).seek 0 = ⟨[], encodeAll events⟩ := by
    rw [write_seek rfl, hchunk]
    simp [BytesIo.new]
  simp only [tailFile, hwrite, drain_encodeAll]

theorem Aligned.tail {chunk : List Byte} {chunks : List (List Byte)} {events : List TraceEvent}
    {n : ℕ} (hal : Aligned events (chunk :: chunks)) (hchunk : chunk = encodeAll (events.take n)) :
    Aligned (events.drop n) chunks := by
  intro j
  obtain ⟨n', hn'⟩ := hal (j + 1)
  rw [List.take_succ_cons, List.flatten_cons, hchunk] at hn'
  by_cases hle : n ≤ n'
  · refine ⟨n' - n, ?_⟩
    have hsplit := encodeAll_split (events.take n') n
    rw [List.take_take, Nat.min_eq_left hle, List.drop_take] at hsplit
    exact List.append_cancel_left (hn'.trans hsplit)
  · -- no byte lies between the two boundaries
    refine ⟨0, ?_⟩
    have hsplit := encodeAll_split (events.take n) n'
    rw [List.take_take, Nat.min_eq_left (Nat.le_of_not_le hle)] at hsplit
    rw [hsplit, List.append_assoc] at hn'
    have hnil := List.append_eq_nil_iff.mp (List.append_right_eq_self.mp hn')
    rw [hnil.2]
    rfl

theorem aligned_nil (events : List TraceEvent) : Aligned events [] := fun j => ⟨0, by simp [encodeAll]⟩

theorem Aligned.cons {chunk : List Byte} {chunks : List (List Byte)} {events : List TraceEvent} {n : ℕ}
    (hchunk : chunk = encodeAll (events.take n)) (hal : Aligned (events.drop n) chunks) :
    Aligned events (chunk :: chunks) := by
  intro j
  cases j with
  | zero => exact ⟨0, rfl⟩
  | succ j =>
    obtain ⟨n', hn'⟩ := hal j
    refine ⟨n + n', ?_⟩
    rw [List.take_succ_cons, List.flatten_cons, hn', hchunk, List.take_add, encodeAll, encodeAll,
      encodeAll, List.flatMap_append]

theorem tailFile_of_aligned {events : List TraceEvent} {chunks : List (List Byte)}
    (hbytes : chunks.flatten = encodeAll events) (hal : Aligned events chunks) :
    tailFile BytesIo.new chunks = events.map record := by
  induction chunks generalizing events with
  | nil =>
    have hlen := sizes_record events
    rw [← hbytes] at hlen
    cases events with
    | nil => rfl
    | cons e events =>
      have hpos := (record e).size_pos
      simp only [sizes, List.map_cons, List.sum_cons, List.flatten_nil, List.length_nil] at hlen
      omega
  | cons chunk chunks ih =>
    obtain ⟨n, hn⟩ := hal 1
    have hchunk : chunk = encodeAll (events.take n) := by simpa using hn
    have hrest : chunks.flatten = encodeAll (events.drop n) := by
      rw [List.flatten_cons, hchunk, encodeAll_split events n] at hbytes
      exact List.append_cancel_left hbytes
    rw [tailFile_cons_of_whole hchunk, ih hrest (hal.tail hchunk), ← List.map_append,
      List.take_append_drop]

/-- If nothing is lost, every chunk finds an empty stream and holds whole events. -/
theorem aligned_of_tailFile {events : List TraceEvent} {chunks : List (List Byte)}
    (hne : ∀ c ∈ chunks, c ≠ []) (hbytes : chunks.flatten = encodeAll events)
    (hall : tailFile BytesIo.new chunks = events.map record) : Aligned events chunks := by
  induction chunks generalizing events with
  | nil => exact aligned_nil events
  | cons chunk chunks ih =>
    have htotal := congrArg sizes hall
    rw [sizes_record, ← hbytes, List.flatten_cons, List.length_append] at htotal
    have hwrite : (BytesIo.new.write chunk).seek 0 = ⟨[], chunk⟩ := by
      rw [write_seek rfl]
      simp [BytesIo.new]
    have hdrain := drain_sizes ⟨[], chunk⟩
    simp only [tailFile, hwrite, sizes_append] at hall htotal
    generalize drain ⟨[], chunk⟩ = r at hdrain hall htotal
    obtain ⟨records, before, after⟩ := r
    obtain ⟨hle, hbefore⟩ := hdrain
    obtain rfl : before = [] := hbefore
    have hle' : sizes records + after.length ≤ chunk.length := hle
    have hrest : sizes (tailFile ⟨[], after⟩ chunks) ≤ after.length + chunks.flatten.length :=
      tailFile_sizes rfl chunks
    -- no bytes are carried over, unless this is the last chunk
    have hempty : chunks = [] ∨ after = [] := by
      cases chunks with
      | nil => exact Or.inl rfl
      | cons c cs =>
        refine Or.inr (by_contra fun hafter => ?_)
        have hlt : sizes (tailFile ⟨[], after⟩ (c :: cs)) <
            after.length + (c :: cs).flatten.length :=
          tailFile_loses rfl (hne c (by simp)) cs hafter
        simp only at htotal
        omega
    rcases hempty with rfl | rfl
    · refine Aligned.cons (n := events.length) ?_ (aligned_nil _)
      rw [List.take_length, ← hbytes]
      simp
    · have hall' : records ++ tailFile BytesIo.new chunks = events.map record := hall
      -- what the chunk gives is a first part of the events, and takes all its bytes
      have hfirst : records = (events.take records.length).map record := by
        rw [List.map_take, ← hall', List.take_left]
      have hlast : tailFile BytesIo.new chunks = (events.drop records.length).map record := by
        rw [List.map_drop, ← hall', List.drop_left]
      generalize records.length = n at hfirst hlast
      have hlen : chunk.length = (encodeAll (events.take n)).length := by
        rw [← sizes_record, ← hfirst]
        simp only [List.length_nil] at hle' hrest htotal
        omega
      have hsplit : chunk ++ chunks.flatten =
          encodeAll (events.take n) ++ encodeAll (events.drop n) := by
        rw [← encodeAll_split, ← hbytes, List.flatten_cons]
      obtain ⟨hchunk, hchunks⟩ := List.append_inj hsplit hlen
      exact .cons hchunk (ih (fun c hc => hne c (List.mem_cons_of_mem _ hc)) hchunks hlast)

/-- The broker sends the events it was given if and only if every chunk ends where an event ends. -/
theorem broadcast_exact_iff {events : List TraceEvent} {chunks : List (List Byte)}
    (hne : ∀ c ∈ chunks, c ≠ []) (hbytes : chunks.flatten = encodeAll events) :
    tailFile BytesIo.new chunks = events.map record ↔
      ∀ j, ∃ n, (chunks.take j).flatten = encodeAll (events.take n) :=
  ⟨aligned_of_tailFile hne hbytes, tailFile_of_aligned hbytes⟩

theorem broadcast_exact_iff_two_chunks :
    tailFile BytesIo.new [[1, 2, 64], [0, 1, 2, 0xAC, 0x02]] =
      [.ipcTransfer 2 64, .taskSwap 1 2 300] := by
  have hbytes : [[1, 2, 64], [0, 1, 2, 0xAC, 0x02]].flatten =
      encodeAll [.ipcTransfer 2 64, .taskSwap 1 2 300] := by decide
  refine (broadcast_exact_iff (by decide) hbytes).mpr fun j => ?_
  match j with
  | 0 => exact ⟨0, rfl⟩
  | 1 => exact ⟨1, by decide⟩
  | j + 2 => exact ⟨2, by simp; decide⟩

/-- An `IpcTransfer` whose first byte comes in a chunk of its own: the second chunk overwrites that
byte, and what is left is not an event. -/
theorem split_event_lost :
    [[1], [2, 64]].flatten = encodeAll [.ipcTransfer 2 64] ∧ (∀ c ∈ [[1], [2, 64]], c ≠ []) ∧
      tailFile BytesIo.new [[1], [2, 64]] ≠ [TraceEvent.ipcTransfer 2 64].map record := by
  refine ⟨by decide, by decide, ?_⟩
  have h1 : drain ⟨[], [1#8]⟩ = ([], ⟨[], [1#8]⟩) := drain_stop fun r hr => by cases hr
  have h2 : drain ⟨[], [2#8, 64#8]⟩ = ([], ⟨[], [2#8, 64#8]⟩) := drain_stop fun r hr => by cases hr
  simp [tailFile, BytesIo.new, BytesIo.write, h1, h2]

end Cerberus.Telemetry
