import Mathlib.Data.Int.Notation
import Cerberus.Foundations.Transition

/-! # Two processes that meet

A process sends and receives strings through ports, and goes on with the result of each call. A call
waits until the other process waits at the other end of the port; then the string is copied, as far as
the buffer takes it, and both go on. A client runs once, a server runs its body for ever. Either may
take the next step, so a run is a list of turns; `request_reply` follows one request through all of
them. -/
namespace Cerberus.Process
open Transition
set_option autoImplicit false

/-- `send` goes on with its result, `recv` with its result and its buffer. -/
inductive Proc (ι β α : Type) where
  | done (a : α)
  | send (port : ι) (msg : List β) (resume : ℤ → Proc ι β α)
  | recv (port : ι) (buf : List β) (resume : ℤ → List β → Proc ι β α)

section Copy
variable {β : Type}

/-- The buffer after a copy of `msg`: the bytes past the message stay. -/
def deliver (msg buf : List β) : List β := msg.take buf.length ++ buf.drop msg.length

/-- What a receive of `msg` returns. -/
def copied (msg buf : List β) : ℕ := min msg.length buf.length

@[simp] theorem length_deliver (msg buf : List β) : (deliver msg buf).length = buf.length := by
  unfold deliver
  rw [List.length_append, List.length_take, List.length_drop]
  omega

theorem deliver_of_length_eq {msg buf : List β} (h : msg.length = buf.length) :
    deliver msg buf = msg := by
  unfold deliver
  rw [← h, List.take_length, h, List.drop_length, List.append_nil]

theorem getElem?_deliver (msg buf : List β) (i : ℕ) (hi : i < buf.length) :
    (deliver msg buf)[i]? = if i < msg.length then msg[i]? else buf[i]? := by
  unfold deliver
  by_cases him : i < msg.length
  · rw [if_pos him, List.getElem?_append_left (by rw [List.length_take]; omega),
      List.getElem?_take_of_lt hi]
  · rw [if_neg him, List.getElem?_append_right (by rw [List.length_take]; omega), List.length_take,
      List.getElem?_drop]
    congr 1
    omega

end Copy

variable {ι β α γ ε : Type}

/-! ## A process by itself -/

/-- How the other end answers: the results of the two calls, and the bytes a receive finds. -/
structure Answers (β : Type) where
  sendRes : ℤ
  recvRes : ℤ
  written : List β

/-- What a process computes against fixed answers. -/
def Proc.against (w : Answers β) : Proc ι β α → α
  | .done a => a
  | .send _ _ resume => (resume w.sendRes).against w
  | .recv _ buf resume => (resume w.recvRes (deliver w.written buf)).against w

def Proc.result : Proc ι β α → Option α
  | .done a => some a
  | _ => none

theorem Proc.result_eq_some {p : Proc ι β α} {a : α} (h : p.result = some a) : p = .done a := by
  cases p with
  | done b => exact congrArg Proc.done (Option.some.inj h)
  | send port msg resume => cases h
  | recv port buf resume => cases h

/-! ## Two processes -/

/-- The channel a port of a process stands for, if the process may use it. -/
structure Ports (ι ε : Type) where
  sends : ι → Option ε
  receives : ι → Option ε

/-- A process, and whether it waits in its call. -/
structure Side (ι β α : Type) where
  proc : Proc ι β α
  waits : Bool

section Meeting
variable [DecidableEq ε] (Γ Δ : Ports ι ε)

/-- A call through a port the process may not use returns at once. -/
def refused : Proc ι β α → Option (Proc ι β α)
  | .done _ => none
  | .send port _ resume => if Γ.sends port = none then some (resume (-1)) else none
  | .recv port buf resume => if Γ.receives port = none then some (resume (-1) buf) else none

/-- A send and a receive on one channel. -/
def meet : Proc ι β α → Proc ι β γ → Option (Proc ι β α × Proc ι β γ)
  | .send port msg resume, .recv port' buf resume' =>
    if Γ.sends port = Δ.receives port' then
      some (resume 0, resume' (copied msg buf) (deliver msg buf))
    else none
  | .recv port buf resume, .send port' msg resume' =>
    if Γ.receives port = Δ.sends port' then
      some (resume (copied msg buf) (deliver msg buf), resume' 0)
    else none
  | _, _ => none

/-- One call of a process that does not wait: it is refused, meets the waiting other one, or waits. -/
def call (s : Side ι β α) (s' : Side ι β γ) : Option (Side ι β α × Side ι β γ) :=
  if s.waits then none
  else match s.proc with
    | .done _ => none
    | p =>
      match refused Γ p, (if s'.waits then meet Γ Δ p s'.proc else none) with
      | some p1, _ => some (⟨p1, false⟩, s')
      | none, some (p1, p2) => some (⟨p1, false⟩, ⟨p2, false⟩)
      | none, none => some (⟨p, true⟩, s')

end Meeting

/-- A client, and a server whose body returns what its next round starts from, or nothing if it
crashes. -/
structure Link (ι β α γ : Type) where
  client : Side ι β α
  server : Side ι β (Option γ)

inductive Turn where
  | client
  | server
  deriving DecidableEq

/-- The two processes in parallel. -/
structure Setup (ι β γ ε : Type) where
  clientPorts : Ports ι ε
  serverPorts : Ports ι ε
  body : γ → Proc ι β (Option γ)

def Setup.next [DecidableEq ε] (S : Setup ι β γ ε) (l : Link ι β α γ) : Turn → Option (Link ι β α γ)
  | .client => (call S.clientPorts S.serverPorts l.client l.server).map fun r => ⟨r.1, r.2⟩
  | .server =>
    match l.server.proc with
    | .done none => none
    | .done (some g) => some { l with server := ⟨S.body g, false⟩ }
    | _ => (call S.serverPorts S.clientPorts l.server l.client).map fun r => ⟨r.2, r.1⟩

def Setup.Step [DecidableEq ε] (S : Setup ι β γ ε) (l : Link ι β α γ) (e : Turn)
    (l' : Link ι β α γ) : Prop :=
  S.next l e = some l'

/-! ## One call -/

section Calls
variable {Γ Δ : Ports ι ε} {p p1 : Proc ι β α} {q q1 : Proc ι β γ}

/-- A call the process may make. -/
def Proc.Calls (Γ : Ports ι ε) : Proc ι β α → Prop
  | .done _ => False
  | .send port _ _ => Γ.sends port ≠ none
  | .recv port _ _ => Γ.receives port ≠ none

theorem refused_of_calls (hp : p.Calls Γ) : refused Γ p = none := by
  cases p with
  | done a => exact hp.elim
  | send port msg resume => exact if_neg hp
  | recv port buf resume => exact if_neg hp

variable [DecidableEq ε]

theorem meet_comm : (meet Γ Δ p q).map Prod.swap = meet Δ Γ q p := by
  cases p <;> cases q <;> simp only [meet, Option.map_none]
  · split
    · rename_i h
      rw [if_pos h.symm]
      rfl
    · rename_i h
      rw [if_neg fun h' => h h'.symm]
      rfl
  · split
    · rename_i h
      rw [if_pos h.symm]
      rfl
    · rename_i h
      rw [if_neg fun h' => h h'.symm]
      rfl

theorem call_of_waits {s' : Side ι β γ} : call Γ Δ ⟨p, true⟩ s' = none := rfl

/-- The first of two calls waits. -/
theorem call_first (hp : p.Calls Γ) :
    call Γ Δ ⟨p, false⟩ ⟨q, false⟩ = some (⟨p, true⟩, ⟨q, false⟩) := by
  have hr := refused_of_calls hp
  cases p with
  | done a => exact hp.elim
  | send port msg resume => simp [call, hr]
  | recv port buf resume => simp [call, hr]

/-- The second of two calls finds the first one waiting. -/
theorem call_second (hp : p.Calls Γ) (hm : meet Γ Δ p q = some (p1, q1)) :
    call Γ Δ ⟨p, false⟩ ⟨q, true⟩ = some (⟨p1, false⟩, ⟨q1, false⟩) := by
  have hr := refused_of_calls hp
  cases p with
  | done a => exact hp.elim
  | send port msg resume => simp [call, hr, hm]
  | recv port buf resume => simp [call, hr, hm]

end Calls

/-! ## A request and its reply -/

section Rounds
variable [DecidableEq ε] {S : Setup ι β γ ε} {p p' : Proc ι β α} {q q' : Proc ι β (Option γ)}

/-- The two processes make calls that meet, and go on as `p'` and `q'`. -/
structure Setup.Meets (S : Setup ι β γ ε) (p : Proc ι β α) (q : Proc ι β (Option γ))
    (p' : Proc ι β α) (q' : Proc ι β (Option γ)) : Prop where
  client : p.Calls S.clientPorts
  server : q.Calls S.serverPorts
  meet : meet S.clientPorts S.serverPorts p q = some (p', q')

/-- A server in a call takes its turn by it. -/
theorem Setup.next_server (hq : q.Calls S.serverPorts) (w : Bool) (s : Side ι β α) :
    S.next ⟨s, ⟨q, w⟩⟩ .server =
      (call S.serverPorts S.clientPorts ⟨q, w⟩ s).map fun r => ⟨r.2, r.1⟩ := by
  cases q with
  | done o => exact hq.elim
  | send port msg resume => rfl
  | recv port buf resume => rfl

/-- What follows a meeting: the first call waits, whosever it is, and the second one completes it. -/
theorem Setup.Meets.next_cases (h : S.Meets p q p' q') {w w' : Bool} (hw : w = false ∨ w' = false)
    {t : Turn} {l : Link ι β α γ} (hnext : S.next ⟨⟨p, w⟩, ⟨q, w'⟩⟩ t = some l) :
    (w = false ∧ w' = false ∧ (l = ⟨⟨p, true⟩, ⟨q, false⟩⟩ ∨ l = ⟨⟨p, false⟩, ⟨q, true⟩⟩)) ∨
      ((w = true ∨ w' = true) ∧ l = ⟨⟨p', false⟩, ⟨q', false⟩⟩) := by
  have hback : Process.meet S.serverPorts S.clientPorts q p = some (q', p') := by
    rw [← meet_comm, h.meet]
    rfl
  cases t with
  | client =>
    simp only [Setup.next] at hnext
    cases w with
    | true => simp [call_of_waits] at hnext
    | false =>
      cases w' with
      | false =>
        rw [call_first h.client, Option.map_some, Option.some.injEq] at hnext
        exact Or.inl ⟨rfl, rfl, Or.inl hnext.symm⟩
      | true =>
        rw [call_second h.client h.meet, Option.map_some, Option.some.injEq] at hnext
        exact Or.inr ⟨Or.inr rfl, hnext.symm⟩
  | server =>
    rw [Setup.next_server h.server] at hnext
    cases w' with
    | true => simp [call_of_waits] at hnext
    | false =>
      cases w with
      | false =>
        rw [call_first h.server, Option.map_some, Option.some.injEq] at hnext
        exact Or.inl ⟨rfl, rfl, Or.inr hnext.symm⟩
      | true =>
        rw [call_second h.server hback, Option.map_some, Option.some.injEq] at hnext
        exact Or.inr ⟨Or.inl rfl, hnext.symm⟩

/-- Two calls that meet do not deadlock. -/
theorem Setup.Meets.enabled (h : S.Meets p q p' q') {w w' : Bool} (hw : w = false ∨ w' = false) :
    ∃ t, (S.next ⟨⟨p, w⟩, ⟨q, w'⟩⟩ t).isSome := by
  have hback : Process.meet S.serverPorts S.clientPorts q p = some (q', p') := by
    rw [← meet_comm, h.meet]
    rfl
  cases w with
  | false =>
    refine ⟨.client, ?_⟩
    cases w' with
    | false => simp [Setup.next, call_first h.client]
    | true => simp [Setup.next, call_second h.client h.meet]
  | true =>
    obtain rfl : w' = false := by simpa using hw
    refine ⟨.server, ?_⟩
    rw [Setup.next_server h.server, call_second h.server hback]
    rfl

/-- The client makes two calls and is done with `a`; the server, from `g`, makes two that meet them and
is back in a call in its next round, from `g'`. -/
structure RequestReply (S : Setup ι β γ ε) (p0 p1 : Proc ι β α) (a : α) (q1 : Proc ι β (Option γ))
    (g g' : γ) : Prop where
  request : S.Meets p0 (S.body g) p1 q1
  reply : S.Meets p1 q1 (.done a) (.done (some g'))
  again : (S.body g').Calls S.serverPorts

variable {p0 p1 : Proc ι β α} {a : α} {q1 : Proc ι β (Option γ)} {g g' : γ}

/-- The states of the exchange, with the number of steps that are left. -/
inductive RequestReply.At (S : Setup ι β γ ε) (p0 p1 : Proc ι β α) (a : α)
    (q1 : Proc ι β (Option γ)) (g g' : γ) : ℕ → Link ι β α γ → Prop where
  | start : At S p0 p1 a q1 g g' 6 ⟨⟨p0, false⟩, ⟨S.body g, false⟩⟩
  | requesting (w : Bool) : At S p0 p1 a q1 g g' 5 ⟨⟨p0, w⟩, ⟨S.body g, !w⟩⟩
  | served : At S p0 p1 a q1 g g' 4 ⟨⟨p1, false⟩, ⟨q1, false⟩⟩
  | replying (w : Bool) : At S p0 p1 a q1 g g' 3 ⟨⟨p1, w⟩, ⟨q1, !w⟩⟩
  | returned : At S p0 p1 a q1 g g' 2 ⟨⟨.done a, false⟩, ⟨.done (some g'), false⟩⟩
  | again : At S p0 p1 a q1 g g' 1 ⟨⟨.done a, false⟩, ⟨S.body g', false⟩⟩
  | listening : At S p0 p1 a q1 g g' 0 ⟨⟨.done a, false⟩, ⟨S.body g', true⟩⟩

theorem RequestReply.At.step (hR : RequestReply S p0 p1 a q1 g g') {n : ℕ} {l l' : Link ι β α γ}
    {t : Turn} (hl : RequestReply.At S p0 p1 a q1 g g' n l) (hnext : S.next l t = some l') :
    ∃ n', n = n' + 1 ∧ RequestReply.At S p0 p1 a q1 g g' n' l' := by
  cases hl with
  | start =>
    rcases hR.request.next_cases (Or.inl rfl) hnext with ⟨-, -, rfl | rfl⟩ | ⟨hw, -⟩
    · exact ⟨5, rfl, .requesting true⟩
    · exact ⟨5, rfl, .requesting false⟩
    · simp at hw
  | requesting w =>
    rcases hR.request.next_cases (by cases w <;> simp) hnext with ⟨hw, hw', -⟩ | ⟨-, rfl⟩
    · simp [hw] at hw'
    · exact ⟨4, rfl, .served⟩
  | served =>
    rcases hR.reply.next_cases (Or.inl rfl) hnext with ⟨-, -, rfl | rfl⟩ | ⟨hw, -⟩
    · exact ⟨3, rfl, .replying true⟩
    · exact ⟨3, rfl, .replying false⟩
    · simp at hw
  | replying w =>
    rcases hR.reply.next_cases (by cases w <;> simp) hnext with ⟨hw, hw', -⟩ | ⟨-, rfl⟩
    · simp [hw] at hw'
    · exact ⟨2, rfl, .returned⟩
  | returned =>
    cases t with
    | client => cases hnext
    | server =>
      obtain rfl := Option.some.inj hnext
      exact ⟨1, rfl, .again⟩
  | again =>
    cases t with
    | client => cases hnext
    | server =>
      rw [Setup.next_server hR.again, call_first hR.again, Option.map_some, Option.some.injEq] at hnext
      refine ⟨0, rfl, ?_⟩
      rw [← hnext]
      exact .listening
  | listening =>
    cases t with
    | client => cases hnext
    | server =>
      rw [Setup.next_server hR.again] at hnext
      cases hnext

theorem RequestReply.At.run (hR : RequestReply S p0 p1 a q1 g g') {n : ℕ} {l l' : Link ι β α γ}
    {ts : List Turn} (hl : RequestReply.At S p0 p1 a q1 g g' n l) (hrun : Run S.Step l ts l') :
    ∃ n', n = n' + ts.length ∧ RequestReply.At S p0 p1 a q1 g g' n' l' := by
  induction ts generalizing n l with
  | nil =>
    obtain rfl : l = l' := hrun
    exact ⟨n, rfl, hl⟩
  | cons t ts ih =>
    obtain ⟨u, hu, hrest⟩ := hrun
    obtain ⟨n1, rfl, h1⟩ := hl.step hR hu
    obtain ⟨n2, rfl, h2⟩ := ih h1 hrest
    exact ⟨n2, by rw [List.length_cons]; omega, h2⟩

/-- While the client is not done a step is enabled, and once it is, its result is `a`. -/
theorem RequestReply.At.live (hR : RequestReply S p0 p1 a q1 g g') {n : ℕ} {l : Link ι β α γ}
    (hl : RequestReply.At S p0 p1 a q1 g g' n l) :
    (l.client.proc = .done a ∨ ∃ t, (S.next l t).isSome) ∧
      ∀ b, l.client.proc = .done b → b = a := by
  have hcall : ∀ {r : Proc ι β α} {b : α}, r.Calls S.clientPorts → r = .done b → b = a := by
    rintro r b hr rfl
    exact hr.elim
  cases hl with
  | start =>
    exact ⟨Or.inr (hR.request.enabled (Or.inl rfl)), fun b => hcall hR.request.client⟩
  | requesting w =>
    exact ⟨Or.inr (hR.request.enabled (by cases w <;> simp)), fun b => hcall hR.request.client⟩
  | served => exact ⟨Or.inr (hR.reply.enabled (Or.inl rfl)), fun b => hcall hR.reply.client⟩
  | replying w =>
    exact ⟨Or.inr (hR.reply.enabled (by cases w <;> simp)), fun b => hcall hR.reply.client⟩
  | returned => exact ⟨Or.inl rfl, fun b hb => (Proc.done.inj hb).symm⟩
  | again => exact ⟨Or.inl rfl, fun b hb => (Proc.done.inj hb).symm⟩
  | listening => exact ⟨Or.inl rfl, fun b hb => (Proc.done.inj hb).symm⟩

/-- Whoever takes the next step, and whether or not the server waits already: the exchange ends after
at most six steps, and it cannot stop before the client is done, with `a`. -/
theorem request_reply (hR : RequestReply S p0 p1 a q1 g g') (w : Bool) {ts : List Turn}
    {l : Link ι β α γ} (hrun : Run S.Step ⟨⟨p0, false⟩, ⟨S.body g, w⟩⟩ ts l) :
    ts.length ≤ 6 ∧ (l.client.proc = .done a ∨ ∃ t, (S.next l t).isSome) ∧
      ∀ b, l.client.proc = .done b → b = a := by
  have hstart : ∃ n, n ≤ 6 ∧
      RequestReply.At S p0 p1 a q1 g g' n ⟨⟨p0, false⟩, ⟨S.body g, w⟩⟩ := by
    cases w with
    | false => exact ⟨6, Nat.le_refl 6, .start⟩
    | true => exact ⟨5, by omega, .requesting false⟩
  obtain ⟨n, hn, hat⟩ := hstart
  obtain ⟨n', rfl, hat'⟩ := hat.run hR hrun
  exact ⟨by omega, hat'.live hR⟩

end Rounds
end Cerberus.Process
