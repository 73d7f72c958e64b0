import Cerberus.Containment.StoppedTask
import Cerberus.Kernel.Events
import Cerberus.Telemetry.Broker

/-! # What the telemetry reports

The events of a trap as the broker reads them, against what the trap has done: contained a fault,
completed a rendezvous, handed its hart to another partition. The number of bytes of a rendezvous is
narrowed to eight bits, and a switch to the slot it comes from is logged like any other. -/
namespace Cerberus.Telemetry
open Kernel Scheduler Sync Memory Transition
set_option autoImplicit false

/-! ## From events to records -/

/-- The bytes `log_telemetry` writes: nothing for an event that does not fit its buffer. -/
def logged (events : List TraceEvent) : List Byte :=
  events.flatMap fun e => (toSlice BUF_LEN e).getD []

/-- The records `parse_event` reads back from them. -/
def decoded (events : List TraceEvent) : List Record := (drain ⟨[], logged events⟩).1

theorem logged_eq (events : List TraceEvent) : logged events = encodeAll events := by
  have hfits : (fun e => (toSlice BUF_LEN e).getD []) = encode := by
    funext e
    rw [toSlice_eq, Option.getD_some]
  rw [logged, hfits, encodeAll]

theorem decoded_eq (events : List TraceEvent) : decoded events = events.map record := by
  rw [decoded, logged_eq, drain_encodeAll]

/-! ## The actions of a trap -/

/-- The fault a trap contains: its cause and the saved pc. -/
def faultAction (k : Kernel) (t : Trap) : List Record :=
  if contained t.mcause = true ∧ ¬ emulates k t then
    [.faultInterception t.mcause.toNat (k.readFrame t.userSp 28).toNat]
  else []

/-- A rendezvous: its endpoint and the length returned to the receiver. -/
def transferAction : Option Byte → Option Plan → List Record
  | some endpoint, some p => [.ipcTransfer endpoint.toNat p.len.toNat]
  | _, _ => []

/-- A partition swap: the partition that had the hart before the trap and the one that has it now. -/
def swapAction (k : Kernel) (h : Hart) (t : Trap) (k' : Kernel) : List Record :=
  if k'.current h = k.current h then []
  else [.taskSwap (k.current h).val (k'.current h).val t.cycles.toNat]

def actions (k : Kernel) (h : Hart) (t : Trap) (k' : Kernel) : List Record :=
  faultAction k t ++ transferAction (transferEndpoint k h t) (transferPlan k h t) ++
    swapAction k h t k'

/-- What the trap logs reads back as its actions. -/
def Reported (k : Kernel) (h : Hart) (t : Trap) (k' : Kernel) : Prop :=
  ∃ log, k'.trace = k.trace ++ log ∧ decoded log = actions k h t k'

/-- The length of the rendezvous fits the eight bits of its event, and a switch is to another slot. -/
structure Reportable (k : Kernel) (h : Hart) (t : Trap) : Prop where
  length : ∀ p, transferPlan k h t = some p → p.len.toNat < 256
  switch : ¬ SwitchComesBack k h (effect k h t)

/-! ## Each action and its event -/

section Actions
variable {k k' : Kernel} {h : Hart} {t : Trap}

theorem record_faultLog (k : Kernel) (t : Trap) : (faultLog k t).map record = faultAction k t := by
  unfold faultLog faultAction
  split <;> rfl

theorem length_transferLog (endpoint? : Option Byte) (plan? : Option Plan) :
    ((transferLog endpoint? plan?).map record).length = (transferAction endpoint? plan?).length := by
  cases endpoint? with
  | none => rfl
  | some endpoint => cases plan? <;> rfl

theorem record_transferLog_iff {endpoint? : Option Byte} {plan? : Option Plan}
    (hendpoint : plan?.isSome → endpoint?.isSome) :
    (transferLog endpoint? plan?).map record = transferAction endpoint? plan? ↔
      ∀ p, plan? = some p → p.len.toNat < 256 := by
  cases plan? with
  | none =>
    rw [transferLog_none]
    refine iff_of_true ?_ fun p hp => by cases hp
    cases endpoint? <;> rfl
  | some p =>
    obtain ⟨endpoint, rfl⟩ := Option.isSome_iff_exists.mp (hendpoint rfl)
    -- the event holds the length modulo 256
    simp [transferLog, planLog, record, transferAction]

theorem record_swapEvent (k : Kernel) (h : Hart) (cycles : Word) (n : Fin MAX_PARTITIONS) :
    record (swapEvent k h cycles n) = .taskSwap (k.current h).val n.val cycles.toNat := by
  have hbyte : ∀ i : Fin MAX_PARTITIONS, (BitVec.ofNat 8 i.val).toNat = i.val := by
    intro i
    rw [BitVec.toNat_ofNat]
    exact Nat.mod_eq_of_lt (Nat.lt_trans i.isLt (by decide))
  simp only [swapEvent, record, hbyte]

theorem record_swap_iff {next : Option (Fin MAX_PARTITIONS)}
    (hnext : k'.current h = next.getD (k.current h)) :
    (next.map (swapEvent k h t.cycles)).toList.map record = swapAction k h t k' ↔
      next ≠ some (k.current h) := by
  unfold swapAction
  rw [hnext]
  cases next with
  | none => simp
  | some n =>
    by_cases hn : n = k.current h
    · simp [hn]
    · simp [hn, record_swapEvent]

end Actions

/-! ## Every trap -/

section Trap
variable {P : Platform} {k k' : Kernel} {h : Hart} {t : Trap} {sp : Word}

theorem reported_of_trap_iff (hk : Sound k) (hok : trapHandler P h t k = .ok (sp, k')) :
    Reported k h t k' ↔ Reportable k h t := by
  obtain ⟨htrace, hnext⟩ := trap_logs hk hok
  have hendpoint : (transferPlan k h t).isSome → (transferEndpoint k h t).isSome := by
    intro hsome
    obtain ⟨p, hp⟩ := Option.isSome_iff_exists.mp hsome
    obtain ⟨e, -, -, -, he, -⟩ := trapHandler_eq_rendezvous P hp
    rw [he]
    rfl
  have hswap := record_swap_iff (t := t) hnext
  have htransfer := record_transferLog_iff hendpoint
  have hread : Reported k h t k' ↔
      (trapLog k h t).map record ++
        ((nextSlot k h (effect k h t)).map (swapEvent k h t.cycles)).toList.map record =
      actions k h t k' := by
    rw [← List.map_append, ← decoded_eq]
    constructor
    · rintro ⟨log, hlog, hdecoded⟩
      rw [htrace, List.append_assoc] at hlog
      rw [List.append_cancel_left hlog]
      exact hdecoded
    · exact fun hdecoded => ⟨_, by rw [htrace, List.append_assoc], hdecoded⟩
  rw [hread, trapLog, List.map_append, record_faultLog, actions]
  constructor
  · intro heq
    obtain ⟨hbefore, hafter⟩ := List.append_inj heq (by
      rw [List.length_append, List.length_append, length_transferLog])
    exact ⟨htransfer.mp (List.append_cancel_left hbefore),
      fun hback => hswap.mp hafter ((nextSlot_self_iff k h _).mpr hback)⟩
  · rintro ⟨hlength, hswitch⟩
    rw [htransfer.mpr hlength, hswap.mpr fun hself => hswitch ((nextSlot_self_iff k h _).mp hself)]

end Trap

/-- In every reachable state: a trap whose handler returns has logged exactly its actions, with their
values, if and only if its rendezvous is shorter than 256 bytes and its switch does not come back to
the slot it starts from; one whose copy faults has logged nothing; and the length of a rendezvous is
what its receiver gets in `a0`. -/
theorem reported_iff (P : Platform) (s s' : System) (es : List Event) (h : Hart) (t : Trap)
    (frame : Word) (k : Kernel) (hs : Initial P s) (hrun : Run (Step P) s es s')
    (htakes : Takes P s' h t frame k) :
    (∀ sp k', trapHandler P h t k = .ok (sp, k') → (Reported k h t k' ↔ Reportable k h t)) ∧
    (∀ cause kf, trapHandler P h t k = .error (.copyFault cause kf) → kf.trace = k.trace) ∧
    ∀ p, transferPlan k h t = some p → ∃ endpoint partner mine theirs,
      transferEndpoint k h t = some endpoint ∧ p.Sides (h, k.current h) partner mine theirs ∧
      trapHandler P h t k =
        withSchedLock h (k.writeFrame t.userSp 28 (k.readFrame t.userSp 28 + 4#32))
          (rendezvous P h t endpoint p.src p.dst p.len partner mine theirs) := by
  obtain ⟨hk, -⟩ := Containment.sound_of_takes htakes (sysInv_run hs hrun)
  refine ⟨fun sp k' hok => reported_of_trap_iff hk hok, fun cause kf hf => copyFault_trace hk hf,
    fun p hp => ?_⟩
  obtain ⟨endpoint, partner, mine, theirs, he, -, hsides, htrap⟩ := trapHandler_eq_rendezvous P hp
  exact ⟨endpoint, partner, mine, theirs, he, hsides, htrap⟩

/-- HSM Task waits for a message of `maxLen` bytes, and Task A is about to run. -/
def hsmWaits (maxLen : Word) : List Event :=
  [syscall 0 1 0 0 0, syscall 0 1 0 0 0, syscall 0 7 0 0x3FC81000 maxLen, syscall 0 1 0 0 0]

/-- Task A finds the arguments of its send of `len` bytes in its frame. -/
def sendFrame (len : Word) : Memory := syscallFrame 0x3FC82400 6 2 0x3FC80400 len

def sends (len : Word) (s : System) : Outcome :=
  trapHandler packedPlatform 0 Containment.called (s.kernel.setMem (sendFrame len))

/-- The request of twelve bytes. -/
theorem reported_request :
    ∃ s' sp k', Run (Step packedPlatform) bootSystem (hsmWaits 12) s' ∧ sends 12 s' = .ok (sp, k') ∧
      Reported (s'.kernel.setMem (sendFrame 12)) 0 Containment.called k' := by
  obtain ⟨s', hrun, heval⟩ := run_of_eval packedPlatform bootSystem (hsmWaits 12)
    (fun s => ((sends 12 s).toOption.isSome,
      (transferPlan (s.kernel.setMem (sendFrame 12)) 0 Containment.called).map Plan.len,
      decide (SwitchComesBack (s.kernel.setMem (sendFrame 12)) 0
        (effect (s.kernel.setMem (sendFrame 12)) 0 Containment.called))))
    (true, some 12, false) (by decide +kernel)
  simp only [Prod.mk.injEq] at heval
  obtain ⟨hret, hlen, hswitch⟩ := heval
  obtain ⟨⟨sp, k'⟩, hr⟩ := Option.isSome_iff_exists.mp hret
  have hok : sends 12 s' = .ok (sp, k') := eq_ok_of_toOption hr
  refine ⟨s', sp, k', hrun, hok, ((reported_iff packedPlatform bootSystem s' (hsmWaits 12) 0
    Containment.called Containment.called.userSp _ bootSystem_initial hrun
    (.task Containment.called (sendFrame 12))).1 sp k' hok).mpr
      ⟨fun p hp => ?_, of_decide_eq_false hswitch⟩⟩
  rw [hp] at hlen
  rw [Option.some.inj hlen]
  decide

/-- A message of 256 bytes is reported as one of 0 bytes. -/
theorem not_reported_long :
    (∃ s' sp k', Run (Step packedPlatform) bootSystem (hsmWaits 256) s' ∧
      sends 256 s' = .ok (sp, k') ∧ k'.trace = s'.kernel.trace ++ [.ipcTransfer 2 0] ∧
      actions (s'.kernel.setMem (sendFrame 256)) 0 Containment.called k' = [.ipcTransfer 2 256]) ∧
    ¬ ∀ P s s' es h t frame k sp k', Initial P s → Run (Step P) s es s' → Takes P s' h t frame k →
      trapHandler P h t k = .ok (sp, k') → Reported k h t k' := by
  obtain ⟨s', hrun, heval⟩ := run_of_eval packedPlatform bootSystem (hsmWaits 256)
    (fun s => (sends 256 s).toOption.map fun r : Word × Kernel =>
      (decide (r.2.trace = s.kernel.trace ++ [.ipcTransfer 2 0]),
        actions (s.kernel.setMem (sendFrame 256)) 0 Containment.called r.2))
    (some (true, [.ipcTransfer 2 256])) (by decide +kernel)
  obtain ⟨⟨sp, k'⟩, hret, hr⟩ := Option.map_eq_some_iff.mp heval
  obtain ⟨hlogged, hactions⟩ := Prod.mk.inj hr
  have hok : sends 256 s' = .ok (sp, k') := eq_ok_of_toOption hret
  have htrace : k'.trace = s'.kernel.trace ++ [.ipcTransfer 2 0] := of_decide_eq_true hlogged
  refine ⟨⟨s', sp, k', hrun, hok, htrace, hactions⟩, fun hall => ?_⟩
  obtain ⟨log, hlog, hdecoded⟩ := hall packedPlatform bootSystem s' (hsmWaits 256) 0
    Containment.called Containment.called.userSp _ sp k' bootSystem_initial hrun
    (.task Containment.called (sendFrame 256)) hok
  have hone : log = [.ipcTransfer 2 0] := List.append_cancel_left (hlog.symm.trans htrace)
  have hfalse : [Record.ipcTransfer 2 0] = [.ipcTransfer 2 256] := by
    rw [← hactions, ← hdecoded, hone, decoded_eq]
    rfl
  revert hfalse
  decide

end Cerberus.Telemetry
