import Cerberus.Foundations.Transition
import Cerberus.Telemetry.Broker

/-! # From the telemetry file to the clients

The threads of `host/telemetry_broker.py` and the list that `host/dashboard.py` shows. `tail_file` parses
and broadcasts one event after the other while the file grows and clients come and go; `clients_lock` makes
a broadcast and the entry of a new client atomic. A client is a socket: one that connects again is a new
one. Time stamps and the JSON text are left out. -/
namespace Cerberus.Telemetry
open Kernel Transition
set_option autoImplicit false

/-! ## The broker -/

structure Broker where
  file : List Byte
  /-- `f.tell()` -/
  pos : ℕ
  stream : BytesIo
  /-- whether `tail_file` is in its inner loop -/
  parsing : Bool
  /-- the events broadcast so far -/
  broadcasts : List Record
  clients : List ℕ
  /-- what was sent to a client -/
  inbox : ℕ → List Record

def CHUNK : ℕ := 4096

namespace Broker
variable (s : Broker)

/-- A client whose `sendall` fails is removed. -/
def broadcast (failed : List ℕ) (event : Record) : Broker :=
  { s with
    broadcasts := s.broadcasts ++ [event]
    clients := s.clients.filter fun c => c ∉ failed
    inbox := fun c => if c ∈ s.clients ∧ c ∉ failed then s.inbox c ++ [event] else s.inbox c }

def readChunk : Broker :=
  let chunk := (s.file.drop s.pos).take CHUNK
  if chunk = [] then
    if s.file.length < s.pos then { s with pos := 0 } else s
  else
    { s with
      pos := s.pos + chunk.length
      stream := (s.stream.write chunk).seek 0
      parsing := true }

/-- One round of the inner loop. -/
def parseNext (failed : List ℕ) : Broker :=
  match parseEvent s.stream.after with
  | .ok (some (event, rest)) => { s with stream := s.stream.readTo rest }.broadcast failed event
  | .ok none | .error _ =>
    { s with
      stream := (BytesIo.new.write (s.stream.seek s.stream.tell).after).seek 0
      parsing := false }

end Broker

inductive BrokerEvent where
  | append (bytes : List Byte)
  | read
  | parse (failed : List ℕ)
  | connect (c : ℕ)

def Broker.next (s : Broker) : BrokerEvent → Option Broker
  | .append bytes => some { s with file := s.file ++ bytes }
  | .read => if s.parsing = true then none else some s.readChunk
  | .parse failed => if s.parsing = true then some (s.parseNext failed) else none
  | .connect c =>
    if c ∈ s.clients then none
    else some { s with clients := s.clients ++ [c], inbox := Function.update s.inbox c [] }

def BrokerStep (s : Broker) (ev : BrokerEvent) (s' : Broker) : Prop := s.next ev = some s'

structure BrokerInitial (s : Broker) : Prop where
  pos : s.pos = 0
  stream : s.stream = BytesIo.new
  parsing : s.parsing = false
  broadcasts : s.broadcasts = []

/-- What a step does to the clients: nothing, one broadcast or one connection. -/
inductive ClientCase (s : Broker) : BrokerEvent → Broker → Prop where
  | same {ev : BrokerEvent} {s' : Broker} (hno : ∀ c, ev ≠ .connect c)
      (hsent : s'.broadcasts = s.broadcasts) (hclients : s'.clients = s.clients)
      (hinbox : s'.inbox = s.inbox) : ClientCase s ev s'
  | broadcast {failed : List ℕ} {event : Record} {s' u : Broker} (hu : u.broadcasts = s.broadcasts ∧
      u.clients = s.clients ∧ u.inbox = s.inbox) (hs' : s' = u.broadcast failed event) :
      ClientCase s (.parse failed) s'
  | connect {c : ℕ} (hc : c ∉ s.clients) : ClientCase s (.connect c)
      { s with clients := s.clients ++ [c], inbox := Function.update s.inbox c [] }

theorem clientCase_of_step {s s' : Broker} {ev : BrokerEvent} (hstep : BrokerStep s ev s') :
    ClientCase s ev s' := by
  unfold BrokerStep Broker.next at hstep
  cases ev with
  | append bytes =>
    rw [← Option.some.inj hstep]
    exact .same (fun _ he => by cases he) rfl rfl rfl
  | read =>
    dsimp only at hstep
    split at hstep
    · cases hstep
    · rw [← Option.some.inj hstep]
      have hsame : s.readChunk.broadcasts = s.broadcasts ∧ s.readChunk.clients = s.clients ∧
          s.readChunk.inbox = s.inbox := by
        unfold Broker.readChunk
        dsimp only
        split
        · split
          · exact ⟨rfl, rfl, rfl⟩
          · exact ⟨rfl, rfl, rfl⟩
        · exact ⟨rfl, rfl, rfl⟩
      exact .same (fun _ he => by cases he) hsame.1 hsame.2.1 hsame.2.2
  | parse failed =>
    dsimp only at hstep
    split at hstep
    · rw [← Option.some.inj hstep]
      unfold Broker.parseNext
      split
      · rename_i event rest _
        exact .broadcast (u := { s with stream := s.stream.readTo rest }) ⟨rfl, rfl, rfl⟩ rfl
      · exact .same (fun _ he => by cases he) rfl rfl rfl
      · exact .same (fun _ he => by cases he) rfl rfl rfl
    · cases hstep
  | connect c =>
    dsimp only at hstep
    split at hstep
    · cases hstep
    · rw [← Option.some.inj hstep]
      exact .connect ‹_›

/-! ## What is broadcast -/

/-- What has been read after a read ends where an event ends. -/
def WholeEvents (events : List TraceEvent) (s : Broker) : BrokerEvent → Prop
  | .read => ∃ es, es <+: events ∧ s.file.take (s.pos + CHUNK) = encodeAll es
  | _ => True

theorem wholeEvents_read {events : List TraceEvent} {s : Broker} :
    (∃ n, n < events.length + 1 ∧ s.file.take (s.pos + CHUNK) = encodeAll (events.take n)) ↔
      WholeEvents events s .read := by
  constructor
  · rintro ⟨n, -, hn⟩
    exact ⟨events.take n, List.take_prefix n events, hn⟩
  · rintro ⟨es, hes, htake⟩
    refine ⟨es.length, Nat.lt_succ_of_le hes.length_le, ?_⟩
    rw [← List.prefix_iff_eq_take.mp hes]
    exact htake

instance (events : List TraceEvent) (s : Broker) (ev : BrokerEvent) : Decidable (WholeEvents events s ev) :=
  match ev with
  | .read => decidable_of_iff _ wholeEvents_read
  | .append _ | .parse _ | .connect _ => isTrue trivial

/-- `done` has been broadcast, and `todo` is what is left of the chunk. -/
structure Parsed (events done todo : List TraceEvent) (s : Broker) : Prop where
  upto : done ++ todo <+: events
  broadcasts : s.broadcasts = done.map record
  bytes : s.file.take s.pos = encodeAll (done ++ todo)
  pos : s.pos ≤ s.file.length
  after : s.stream.after = encodeAll todo
  idle : s.parsing = false → todo = [] ∧ s.stream = BytesIo.new

def BrokerInv (events : List TraceEvent) (s : Broker) : Prop := ∃ done todo, Parsed events done todo s

section Parse
variable {events done todo : List TraceEvent} {s s' : Broker}

theorem encodeAll_append (xs ys : List TraceEvent) : encodeAll (xs ++ ys) = encodeAll xs ++ encodeAll ys := by
  simp [encodeAll]

/-- Bytes between two ends of events are whole events. -/
theorem whole_between {es : List TraceEvent} {chunk : List Byte} (hdone : done <+: events)
    (hes : es <+: events) (hchunk : chunk ≠ []) (hbytes : encodeAll done ++ chunk = encodeAll es) :
    ∃ todo, es = done ++ todo ∧ chunk = encodeAll todo := by
  rcases List.prefix_or_prefix_of_prefix hdone hes with ⟨todo, rfl⟩ | ⟨rest, rfl⟩
  · rw [encodeAll_append] at hbytes
    exact ⟨todo, rfl, List.append_cancel_left hbytes⟩
  · rw [encodeAll_append, List.append_assoc] at hbytes
    have hnil := List.append_right_eq_self.mp hbytes
    exact absurd (List.append_eq_nil_iff.mp hnil).2 hchunk

theorem Parsed.read (hs : Parsed events done todo s) (hparsing : s.parsing = false)
    (hwhole : WholeEvents events s .read) : BrokerInv events s.readChunk := by
  obtain ⟨rfl, hstream⟩ := hs.idle hparsing
  obtain ⟨es, hes, htake⟩ := hwhole
  have hbytes := hs.bytes
  rw [List.append_nil] at hbytes
  unfold Broker.readChunk
  dsimp only
  split
  · rw [if_neg (Nat.not_lt.mpr hs.pos)]
    exact ⟨done, [], hs⟩
  · rename_i hchunk
    rw [List.take_add, hbytes] at htake
    have hdone : done <+: events := List.append_nil done ▸ hs.upto
    obtain ⟨todo, rfl, htodo⟩ := whole_between hdone hes hchunk htake
    refine ⟨done, todo, hes, hs.broadcasts, ?_, ?_, ?_, fun hno => by cases hno⟩
    · show s.file.take (s.pos + _) = _
      have hlen : (s.file.drop s.pos).take ((s.file.drop s.pos).take CHUNK).length =
          (s.file.drop s.pos).take CHUNK :=
        List.take_eq_take_iff.mpr (by rw [List.length_take]; omega)
      rw [List.take_add, hbytes, hlen, ← htake]
    · show s.pos + ((s.file.drop s.pos).take CHUNK).length ≤ s.file.length
      have hpos := hs.pos
      rw [List.length_take, List.length_drop]
      omega
    · show ((s.stream.write _).seek 0).after = _
      rw [hstream, write_seek rfl]
      simpa [BytesIo.new] using htodo

theorem Parsed.parse (hs : Parsed events done todo s) (failed : List ℕ) :
    BrokerInv events (s.parseNext failed) := by
  unfold Broker.parseNext
  rw [hs.after]
  cases todo with
  | nil =>
    refine ⟨done, [], hs.upto, hs.broadcasts, hs.bytes, hs.pos, ?_, fun _ => ⟨rfl, ?_⟩⟩
    · show ((BytesIo.new.write (s.stream.seek s.stream.tell).after).seek 0).after = _
      rw [BytesIo.seek_tell, hs.after]
      rfl
    · show (BytesIo.new.write (s.stream.seek s.stream.tell).after).seek 0 = _
      rw [BytesIo.seek_tell, hs.after]
      rfl
  | cons e todo =>
    have hparse : parseEvent (encodeAll (e :: todo)) = .ok (some (record e, encodeAll todo)) :=
      parseEvent_encode e (encodeAll todo)
    have hsplit : done ++ e :: todo = done ++ [e] ++ todo := by simp
    rw [hparse]
    refine ⟨done ++ [e], todo, hsplit ▸ hs.upto, ?_, hsplit ▸ hs.bytes, hs.pos, rfl, ?_⟩
    · show s.broadcasts ++ [record e] = _
      rw [hs.broadcasts, List.map_append]
      rfl
    · intro hidle
      have htodo := (hs.idle hidle).1
      cases htodo

theorem brokerInv_step (s : Broker) (ev : BrokerEvent) (s' : Broker) (hinv : BrokerInv events s)
    (hstep : Guarded BrokerStep (WholeEvents events) s ev s') : BrokerInv events s' := by
  obtain ⟨done, todo, hs⟩ := hinv
  obtain ⟨hnext, hwhole⟩ := hstep
  unfold BrokerStep Broker.next at hnext
  cases ev with
  | append bytes =>
    rw [← Option.some.inj hnext]
    refine ⟨done, todo, hs.upto, hs.broadcasts, ?_, ?_, hs.after, hs.idle⟩
    · show (s.file ++ bytes).take s.pos = _
      rw [List.take_append_of_le_length hs.pos]
      exact hs.bytes
    · show s.pos ≤ (s.file ++ bytes).length
      rw [List.length_append]
      exact hs.pos.trans (Nat.le_add_right _ _)
  | read =>
    dsimp only at hnext
    split at hnext
    · cases hnext
    · rw [← Option.some.inj hnext]
      exact hs.read (Bool.eq_false_iff.mpr ‹_›) hwhole
  | parse failed =>
    dsimp only at hnext
    split at hnext
    · rw [← Option.some.inj hnext]
      exact hs.parse failed
    · cases hnext
  | connect c =>
    dsimp only at hnext
    split at hnext
    · cases hnext
    · rw [← Option.some.inj hnext]
      exact ⟨done, todo, hs.upto, hs.broadcasts, hs.bytes, hs.pos, hs.after, hs.idle⟩

theorem brokerInv_initial (hs : BrokerInitial s) : BrokerInv events s := by
  refine ⟨[], [], List.nil_prefix, hs.broadcasts, ?_, ?_, ?_, fun _ => ⟨rfl, hs.stream⟩⟩
  · rw [hs.pos]
    rfl
  · rw [hs.pos]
    exact Nat.zero_le _
  · rw [hs.stream]
    rfl

end Parse

/-! ## What a client gets -/

/-- Since `base` had been broadcast, the client got what was broadcast, up to its first failure. -/
def Receives (base : List Record) (c : ℕ) (s : Broker) : Prop :=
  ∃ sent, s.broadcasts = base ++ sent ∧ s.inbox c <+: sent ∧ (c ∈ s.clients → s.inbox c = sent)

theorem receives_of_connect {s s' : Broker} {c : ℕ} (hstep : BrokerStep s (.connect c) s') :
    Receives s.broadcasts c s' := by
  cases clientCase_of_step hstep with
  | same hno => exact absurd rfl (hno c)
  | connect hc =>
    refine ⟨[], (List.append_nil _).symm, ?_, fun _ => Function.update_self ..⟩
    show Function.update s.inbox c [] c <+: []
    rw [Function.update_self]

theorem receives_step {base : List Record} {c : ℕ} {s s' : Broker} {ev : BrokerEvent}
    (hs : Receives base c s) (hstep : BrokerStep s ev s') (hev : ev ≠ .connect c) :
    Receives base c s' := by
  obtain ⟨sent, hsent, hpre, hexact⟩ := hs
  cases clientCase_of_step hstep with
  | same hno hp hc hi =>
    refine ⟨sent, hp.trans hsent, ?_, ?_⟩
    · rw [hi]
      exact hpre
    · rw [hi, hc]
      exact hexact
  | @broadcast failed event _ u hu hs' =>
    obtain ⟨hp, hc, hi⟩ := hu
    subst hs'
    refine ⟨sent ++ [event], ?_, ?_, ?_⟩
    · show u.broadcasts ++ [event] = _
      rw [hp, hsent, List.append_assoc]
    · show (if c ∈ u.clients ∧ c ∉ failed then u.inbox c ++ [event] else u.inbox c) <+: _
      rw [hc, hi]
      split
      · rename_i hin
        rw [hexact hin.1]
      · exact hpre.trans (List.prefix_append _ _)
    · intro hmem
      have hin : c ∈ u.clients ∧ c ∉ failed := by simpa [Broker.broadcast] using hmem
      show (if c ∈ u.clients ∧ c ∉ failed then u.inbox c ++ [event] else u.inbox c) = _
      rw [if_pos hin, hi, hexact (hc ▸ hin.1)]
  | @connect d hd =>
    have hne : c ≠ d := fun he => hev (by rw [he])
    refine ⟨sent, hsent, ?_, fun hmem => ?_⟩
    · show Function.update s.inbox d [] c <+: _
      rw [Function.update_of_ne hne]
      exact hpre
    · show Function.update s.inbox d [] c = _
      rw [Function.update_of_ne hne]
      exact hexact ((List.mem_append.mp hmem).resolve_right fun hcd => hne (List.mem_singleton.mp hcd))

theorem receives_run {base : List Record} {c : ℕ} {s s' : Broker} {es : List BrokerEvent}
    (hs : Receives base c s) (hes : .connect c ∉ es) (hrun : Run BrokerStep s es s') :
    Receives base c s' := by
  induction es generalizing s with
  | nil =>
    have heq : s = s' := hrun
    exact heq ▸ hs
  | cons ev es ih =>
    obtain ⟨u, hstep, hrest⟩ := hrun
    obtain ⟨hev, hes⟩ := not_or.mp fun h => hes (List.mem_cons.mpr h)
    exact ih (receives_step hs hstep (Ne.symm hev)) hes hrest

/-! ## The dashboard -/

/-- `append`, and `pop(0)` beyond `n` entries. -/
def keepLast {α : Type} (n : ℕ) (entries : List α) (entry : α) : List α :=
  if n < (entries ++ [entry]).length then (entries ++ [entry]).tail else entries ++ [entry]

theorem foldl_keepLast {α : Type} (n : ℕ) (entries : List α) :
    entries.foldl (keepLast n) [] = entries.drop (entries.length - n) := by
  induction entries using List.reverseRecOn with
  | nil => simp
  | append_singleton entries entry ih =>
    have hdrop : entries.drop (entries.length - n) ++ [entry] =
        (entries ++ [entry]).drop (entries.length - n) :=
      (List.drop_append_of_le_length (Nat.sub_le _ _)).symm
    rw [List.foldl_append, ih]
    show keepLast n _ entry = _
    unfold keepLast
    rw [hdrop, List.length_drop, List.length_append, List.length_singleton]
    split
    · rw [List.tail_drop]
      congr 1
      omega
    · congr 1
      omega

def MAX_EVENTS : ℕ := 5000

/-- What `socket_reader` does with the events of the session for each line. -/
def socketReader : List Record → Record → List Record := keepLast MAX_EVENTS

/-- After `k` lines of a client that got a first part of `sent`. -/
theorem shown_eq {inbox sent : List Record} (hpre : inbox <+: sent) {k : ℕ} (hk : k ≤ inbox.length) :
    (inbox.take k).foldl socketReader [] = (sent.take k).drop (k - MAX_EVENTS) := by
  obtain ⟨rest, rfl⟩ := hpre
  have hshown := foldl_keepLast MAX_EVENTS (inbox.take k)
  rw [List.length_take, Nat.min_eq_left hk] at hshown
  rw [List.take_append_of_le_length hk]
  exact hshown

/-- In every interleaving of the broker's threads in which each read ends between two events: what is
broadcast are the first events of the log, and all that was read once `tail_file` waits; a client gets,
without a gap, what is broadcast after it has connected, all of it while its socket works; and the
dashboard behind it shows the last of what it has read. -/
theorem delivery_exact (events : List TraceEvent) (s0 s1 s2 s : Broker) (es fs : List BrokerEvent) (c : ℕ)
    (hs0 : BrokerInitial s0) (hrun1 : Run (Guarded BrokerStep (WholeEvents events)) s0 es s1)
    (hconnect : BrokerStep s1 (.connect c) s2)
    (hrun2 : Run (Guarded BrokerStep (WholeEvents events)) s2 fs s) (hfs : .connect c ∉ fs) :
    (∃ done, done <+: events ∧ s.broadcasts = done.map record ∧
      (s.parsing = false → s.file.take s.pos = encodeAll done)) ∧
    ∃ sent, s.broadcasts = s1.broadcasts ++ sent ∧ s.inbox c <+: sent ∧
      (c ∈ s.clients → s.inbox c = sent) ∧
      ∀ k ≤ (s.inbox c).length,
        ((s.inbox c).take k).foldl socketReader [] = (sent.take k).drop (k - MAX_EVENTS) := by
  have hinv1 : BrokerInv events s1 := hrun1.invariant brokerInv_step (brokerInv_initial hs0)
  have hinv2 : BrokerInv events s2 := brokerInv_step s1 _ s2 hinv1 ⟨hconnect, trivial⟩
  obtain ⟨done, todo, hparsed⟩ : BrokerInv events s := hrun2.invariant brokerInv_step hinv2
  obtain ⟨sent, hsent, hpre, hexact⟩ := receives_run (receives_of_connect hconnect) hfs hrun2.unguard
  refine ⟨⟨done, (List.prefix_append _ _).trans hparsed.upto, hparsed.broadcasts, fun hidle => ?_⟩,
    sent, hsent, hpre, hexact, fun k hk => shown_eq hpre hk⟩
  have hbytes := hparsed.bytes
  rw [(hparsed.idle hidle).1, List.append_nil] at hbytes
  exact hbytes

def newBroker : Broker := ⟨[], 0, BytesIo.new, false, [], [], fun _ => []⟩

def threeEvents : List TraceEvent := [.taskSwap 0 1 7, .ipcTransfer 2 12, .taskSwap 1 4 300]

/-- Client 5 is there for the first two events. -/
def beforeClient : List BrokerEvent :=
  [.append (encodeAll (threeEvents.take 2)), .connect 5, .read, .parse [], .parse []]

/-- The third event is in a chunk of its own, and does not reach client 5. -/
def afterClient : List BrokerEvent :=
  [.append (encodeAll (threeEvents.drop 2)), .parse [], .read, .parse [5], .parse []]

/-- Client 9 connects after two events and gets the third. -/
theorem delivery_exact_two_clients : ∃ s1 s2 s,
    Run (Guarded BrokerStep (WholeEvents threeEvents)) newBroker beforeClient s1 ∧
      BrokerStep s1 (.connect 9) s2 ∧
      Run (Guarded BrokerStep (WholeEvents threeEvents)) s2 afterClient s ∧
      s.broadcasts = threeEvents.map record ∧ s.clients = [9] ∧
      s.inbox 5 = (threeEvents.take 2).map record ∧ s.inbox 9 = (threeEvents.drop 2).map record ∧
      ∃ sent, s.broadcasts = s1.broadcasts ++ sent ∧ s.inbox 9 = sent := by
  have heval : ((beforeClient.foldlM (fun s ev => if WholeEvents threeEvents s ev then s.next ev else none)
      newBroker).bind fun s1 => (s1.next (.connect 9)).bind fun s2 =>
        (afterClient.foldlM (fun s ev => if WholeEvents threeEvents s ev then s.next ev else none) s2).map
          fun s => (s.broadcasts, s.clients, s.inbox 5, s.inbox 9)) =
      some (threeEvents.map record, [9], (threeEvents.take 2).map record,
        (threeEvents.drop 2).map record) := by
    decide +kernel
  obtain ⟨s1, hs1, heval⟩ := Option.bind_eq_some_iff.mp heval
  obtain ⟨s2, hs2, heval⟩ := Option.bind_eq_some_iff.mp heval
  obtain ⟨s, hs, heval⟩ := Option.map_eq_some_iff.mp heval
  obtain ⟨hall, heval⟩ := Prod.mk.inj heval
  obtain ⟨hclients, heval⟩ := Prod.mk.inj heval
  obtain ⟨h5, h9⟩ := Prod.mk.inj heval
  have hrun1 : Run (Guarded BrokerStep (WholeEvents threeEvents)) newBroker beforeClient s1 :=
    Run.of_foldlM_guarded (WholeEvents threeEvents) hs1
  have hrun2 : Run (Guarded BrokerStep (WholeEvents threeEvents)) s2 afterClient s :=
    Run.of_foldlM_guarded (WholeEvents threeEvents) hs
  obtain ⟨-, sent, hsent, -, hexact, -⟩ := delivery_exact threeEvents newBroker s1 s2 s _ _ 9
    ⟨rfl, rfl, rfl, rfl⟩ hrun1 hs2 hrun2 (by simp [afterClient])
  exact ⟨s1, s2, s, hrun1, hs2, hrun2, hall, hclients, h5, h9, sent, hsent, hexact (by simp [hclients])⟩

end Cerberus.Telemetry
