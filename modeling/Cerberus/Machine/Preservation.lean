import Cerberus.Machine.Registers
import Cerberus.Kernel.Switch
import Cerberus.Watchdog.Restart

/-! # The context a task resumes with

From a trap of a task to its next resumption, whatever runs in between: the saved frame keeps its words
as long as no other write reaches it, and the restore puts back every register but `gp` and `tp`, which
are what the last task on the hart left. -/
namespace Cerberus.Machine
open Kernel Scheduler Sync Memory Transition Watchdog
set_option autoImplicit false

/-! ## What a resumption restores -/

def rd (instruction : Word) : ℕ := ((instruction >>> 7) &&& 0x1F#32).toNat

/-- The instruction at the saved pc. -/
def trapped (k : Kernel) (t : Trap) : Word := k.mem.readWord (k.readFrame t.userSp 28)

/-- The pc moves past an `ecall` and an emulated instruction. -/
def Advances (k : Kernel) (t : Trap) : Prop := t.mcause = ECALL_UMODE ∨ emulates k t

instance (k : Kernel) (t : Trap) : Decidable (Advances k t) := inferInstanceAs (Decidable (_ ∨ _))

def nextPc (k : Kernel) (t : Trap) (c : Context) : Word := if Advances k t then c.pc + 4#32 else c.pc

/-- Context `c'` is `c`, but for the pc advance, the `a0` result of a syscall and the destination of an
emulated counter read. -/
structure Preserved (k : Kernel) (t : Trap) (c c' : Context) : Prop where
  x : ∀ r : Fin 32, r ≠ 0 → ¬ (givesResult k t ∧ r = 10) →
    ¬ (emulates k t ∧ r.val = rd (trapped k t)) → c'.x r = c.x r
  pc : c'.pc = nextPc k t c

/-! ## When the saved frame is left alone -/

def Apart (a b : Word) : Prop := ∀ c, InRange a 128 c → ¬ InRange b 128 c

instance (a b : Word) : Decidable (Apart a b) := inferInstanceAs (Decidable (∀ c, InRange a 128 c → _))

/-- The trap's message and the `a0` results it writes for others miss the frame of `x`, and a mutex it
hands to `x` is one that `x` waits for. -/
structure LeavesFrame (k : Kernel) (h : Hart) (t : Trap) (x : TaskId) (frame : Word) : Prop where
  copy : ∀ p a, transferPlan k h t = some p → InRange frame 128 a → ¬ InRange p.dst p.len.toNat a
  results : ∀ y sp a, y ≠ x →
    effect k h t = .transfer y ∨ (effect k h t).heir (view k) = some y → savedSpOf k y = some sp →
    InRange frame 128 a → ¬ InRange (slot sp 6) 4 a
  heir : (effect k h t).heir (view k) = some x → ∃ i, (view k).state x = some (.blockedOnMutex i)

/-- A step of others leaves the frame of `x` alone: no store and no frame of theirs meets it, and `x` is
not restarted. -/
def Spares (P : Platform) (x : TaskId) (frame : Word) (s : MachineState) : MachineEvent → Prop
  | .run _ _ m => ∀ a, InRange frame 128 a → m a = s.kernel.mem a
  | .trap h mcause cycles mstatus => Apart frame (s.frame h) ∧
      LeavesFrame (s.found h mstatus) h ⟨mcause, s.frame h, cycles⟩ x frame
  | .nested h mcause cycles mstatus c' _ _ => Apart frame (s.frame h) ∧
      LeavesFrame (s.found h mstatus) h ⟨mcause, s.frame h, cycles⟩ x frame ∧
      Apart frame (c'.x 2 - 128#32)
  | .watchdog ev => ∀ y, ev.restartsNow s.kernel = some y → y ≠ x ∧ Apart frame (freshSp P y)

/-- A step while `x` is not the current task of its hart. -/
def Away (P : Platform) (x : TaskId) (frame : Word) (s : MachineState) (ev : MachineEvent) : Prop :=
  s.kernel.current x.1 ≠ x.2 ∧ Spares P x frame s ev

/-- Task `x` is recorded as `Running`, and no waiter bit of an earlier wait is left. -/
structure Settled (v : View) (x : TaskId) : Prop where
  running : v.state x = some .running
  bits : ∀ i m, v.mutexes i = some m → ¬ BitSet.Mem m.waitersBitmap x.2

/-- A trap of the current task of hart `h` leaves its own frame alone. -/
def OwnTrap (s : MachineState) (h : Hart) (mcause cycles mstatus : Word) : Prop :=
  Settled (view s.kernel) ((view s.kernel).running h) ∧
    LeavesFrame (s.found h mstatus) h ⟨mcause, s.frame h, cycles⟩ ((view s.kernel).running h) (s.frame h)

/-! ## The words of the frame -/

/-- What the frame of a trap of context `c` holds until the resumption; `none` is a word that the
syscall's result or the emulation writes. -/
def wanted (k : Kernel) (t : Trap) (c : Context) (i : ℕ) : Option Word :=
  if givesResult k t ∧ i = 6 then none
  else if emulates k t ∧ frameIdx (trapped k t) = some i then none
  else if i = 28 then some (nextPc k t c)
  else (frameRegs.map c.x)[i]?

/-- The saved frame of `x` has the words `want`, and `x` waits for a result only if word 6 is not among
them. -/
structure Holds (x : TaskId) (frame : Word) (want : ℕ → Option Word) (k : Kernel) : Prop where
  savedSp : savedSpOf k x = some frame
  words : ∀ i w, want i = some w → k.readFrame frame i = w
  waits : ∀ st, (view k).state x = some st → (∃ i, st = .blockedOnMutex i) ∨ WaitsForPartner st →
    want 6 = none

/-! ### The trap itself -/

section Own
variable {P : Platform} {k k' : Kernel} {h : Hart} {t : Trap} {c : Context} {i : ℕ} {w : Word}

theorem wanted_lt (hw : wanted k t c i = some w) : i < 29 := by
  unfold wanted at hw
  split_ifs at hw with hres hem hpc
  · omega
  · have hlt : i < frameRegs.length := by
      have hsome := (List.getElem?_eq_some_iff.mp hw).1
      rwa [List.length_map] at hsome
    have hlen : frameRegs.length = 28 := rfl
    omega

/-- The context `c` was saved in the frame of the trap. -/
def SavedIn (k : Kernel) (t : Trap) (c : Context) : Prop :=
  ∃ mstatus, ∀ i w, (frameWords c mstatus)[i]? = some w → k.readFrame t.userSp i = w

theorem savedIn_found (s : MachineState) (h : Hart) (mcause cycles mstatus : Word) :
    SavedIn (s.found h mstatus) ⟨mcause, s.frame h, cycles⟩ (s.ctx h) := by
  refine ⟨mstatus, fun i w hw => ?_⟩
  obtain ⟨hi, rfl⟩ := List.getElem?_eq_some_iff.mp hw
  exact readWord_saveContext _ _ _ _ hi

theorem SavedIn.pc (hs : SavedIn k t c) : k.readFrame t.userSp 28 = c.pc := by
  obtain ⟨mstatus, hs⟩ := hs
  exact hs 28 c.pc rfl

theorem SavedIn.reg (hs : SavedIn k t c) (hw : (frameRegs.map c.x)[i]? = some w) :
    k.readFrame t.userSp i = w := by
  obtain ⟨mstatus, hs⟩ := hs
  refine hs i w ?_
  rw [frameWords, List.getElem?_append_left (List.getElem?_eq_some_iff.mp hw).1]
  exact hw

theorem ownWrites_pc (hs : SavedIn k t c) : (ownWrites k t).readFrame t.userSp 28 = nextPc k t c := by
  have hadv : Advances k t → nextPc k t c = c.pc + 4#32 := fun hadv => if_pos hadv
  by_cases hecall : t.mcause = ECALL_UMODE
  · rw [hadv (Or.inl hecall), ownWrites_of_ecall hecall, readFrame_writeFrame_self, hs.pc]
  · by_cases hem : emulates k t
    · rw [hadv (Or.inr hem), ownWrites, if_neg hecall, if_pos hem, emulateCounter,
        readFrame_writeFrame_self, hs.pc]
    · have hstays : nextPc k t c = c.pc := if_neg fun hadv => hadv.elim hecall hem
      rw [hstays, ownWrites_of_ne hecall hem, hs.pc]

/-- The handler's writes to its own frame leave the wanted words. -/
theorem ownWrites_wanted (hs : SavedIn k t c) (hw : wanted k t c i = some w) :
    (ownWrites k t).readFrame t.userSp i = w := by
  have hi := wanted_lt hw
  unfold wanted at hw
  split_ifs at hw with hres hdest hpc
  · rw [hpc, ownWrites_pc hs]
    exact Option.some.inj hw
  · rw [← hs.reg hw]
    by_cases hecall : t.mcause = ECALL_UMODE
    · rw [ownWrites_of_ecall hecall, readFrame_writeFrame_ne _ _ _ (by omega) (by omega) hpc]
    · by_cases hem : emulates k t
      · rw [ownWrites, if_neg hecall, if_pos hem, emulateCounter,
          readFrame_writeFrame_ne _ _ _ (by omega) (by omega) hpc]
        cases hidx : frameIdx (k.mem.readWord (k.readFrame t.userSp 28)) with
        | none => rfl
        | some idx =>
          have hne : i ≠ idx := by
            rintro rfl
            exact hdest ⟨hem, hidx⟩
          exact readFrame_writeFrame_ne _ _ _ (by omega) ((frameIdx_lt hidx).trans (by decide)) hne
      · rw [ownWrites_of_ne hecall hem]

/-- The frame of a trap has the wanted words when its handler returns. -/
theorem trap_wanted (hk : Sound k) {sp : Word} (hok : trapHandler P h t k = .ok (sp, k'))
    (hs : SavedIn k t c) (hl : LeavesFrame k h t ((view k).running h) t.userSp)
    (hset : Settled (view k) ((view k).running h)) (hw : wanted k t c i = some w) :
    k'.readFrame t.userSp i = w := by
  have hi := wanted_lt hw
  have hfree : ∀ st, (view k).state ((view k).running h) = some st → ¬ Ipc.IsBlocked st := by
    intro st hst hb
    obtain rfl := Option.some.inj (hset.running.symm.trans hst)
    exact hb
  rw [← ownWrites_wanted hs hw]
  refine readWord_congr fun a ha => mem_of_unwritten hk hok ?_
  have hin : InRange t.userSp 128 a := ha.of_slot (by omega)
  refine ⟨fun hres => ?_, fun p hp => hl.copy p a hp hin, fun y sp' hy hsp => ?_,
    fun y sp' hy hsp hzero => ?_⟩
  · have hne : i ≠ 6 := by
      rintro rfl
      rw [wanted, if_pos ⟨hres, rfl⟩] at hw
      cases hw
    exact inRange_slot_ne (by omega) (by omega) hne ha
  · have hvalid := (effectStep_of_ok hk hok).1.valid
    rw [hy] at hvalid
    obtain ⟨st, hst, hwaits⟩ := hvalid
    refine hl.results y sp' a ?_ (Or.inl hy) hsp hin
    rintro rfl
    exact hfree st hst (Ipc.isBlocked_of_waits hwaits)
  · by_cases hyx : y = (view k).running h
    · subst hyx
      obtain ⟨j, hj⟩ := hl.heir hy
      exact absurd trivial (hfree _ hj)
    · exact absurd hzero (hl.results y sp' a hyx (Or.inr hy) hsp hin)

end Own

/-! ### The state of the task -/

section State
variable {v : View} {h : Hart} {x : TaskId}

/-- Neither `Ready` nor marked as a waiter. -/
def Unready (x : TaskId) (v : View) : Prop :=
  v.state x ≠ some .ready ∧ ∀ i m, v.mutexes i = some m → ¬ BitSet.Mem m.waitersBitmap x.2

theorem Unready.setState {y : TaskId} {st : TaskState} (hu : Unready x v) (hst : y = x → st ≠ .ready) :
    Unready x (v.setState y st) := by
  refine ⟨fun hready => ?_, hu.2⟩
  rw [View.state_setState] at hready
  split at hready
  · rename_i hxy
    obtain ⟨_, -, he⟩ := Option.map_eq_some_iff.mp hready
    exact hst hxy.symm he
  · exact hu.1 hready

theorem Unready.setMutex {i : Fin 8} {m : KernelMutex} (hu : Unready x v)
    (hm : ¬ BitSet.Mem m.waitersBitmap x.2) : Unready x (v.setMutex i m) := by
  exact ⟨hu.1, fun _ _ hj => View.setMutex_rule hm (fun j mj _ => hu.2 j mj) hj⟩

theorem Unready.release (hu : Unready x v) (i : Fin 8) : Unready x (v.release i) := by
  refine View.release_rule hu (fun m hm _ => hu.setMutex (hu.2 i m hm)) fun m w hm hl => ?_
  refine Unready.setState (hu.setMutex fun hmem => hu.2 i m hm (BitSet.mem_erase.mp hmem).1) ?_
  rintro rfl
  exact absurd (BitSet.mem_of_least hl) (hu.2 i m hm)

theorem Settled.unready (hs : Settled v x) : Unready x v := by
  refine ⟨fun hready => ?_, hs.bits⟩
  rw [hs.running] at hready
  cases hready

/-- The handler does not make the current task `Ready`. -/
theorem Settled.apply {e : Effect} (hs : Settled v (v.running h)) (hvalid : e.Valid h v) :
    (e.apply h v).state (v.running h) ≠ some .ready := by
  have hu := hs.unready
  cases e with
  | none => exact hu.1
  | tick now =>
    intro hready
    simp only [Effect.apply, View.wake, View.running, if_true] at hready
    obtain ⟨st, hst, hwake⟩ := Option.map_eq_some_iff.mp hready
    obtain rfl := Option.some.inj (hs.running.symm.trans hst)
    cases hwake
  | resched => exact hu.1
  | block st =>
    refine (hu.setState fun _ => ?_).1
    rintro rfl
    exact hvalid
  | grant i =>
    obtain ⟨⟨m, hm, -⟩, -⟩ := hvalid
    simp only [Effect.apply, hm]
    exact hu.1
  | wait i =>
    obtain ⟨⟨m, hm, -⟩, -⟩ := hvalid
    simp only [Effect.apply, hm]
    exact (hu.setState fun _ => by simp).1
  | release i => exact (hu.release i).1
  | transfer y =>
    obtain ⟨st, hst, hwaits⟩ := hvalid
    refine (hu.setState ?_).1
    rintro rfl
    obtain rfl := Option.some.inj (hs.running.symm.trans hst)
    exact hwaits.elim
  | kill y =>
    exact (View.recoverAll_induction (I := Unready (v.running h)) (fun u i hu _ => hu.release i)
      (hu.setState fun _ => by simp)).1

theorem isBlocked_of_waits {st : TaskState} (hst : (∃ i, st = .blockedOnMutex i) ∨ WaitsForPartner st) :
    Ipc.IsBlocked st := by
  rcases hst with ⟨i, rfl⟩ | hw
  · trivial
  · exact Ipc.isBlocked_of_waits hw

/-- A task that waits for a result has made a syscall that gives one. -/
theorem givesResult_of_waits {k : Kernel} {t : Trap} {st : TaskState}
    (hst : (∃ i, st = .blockedOnMutex i) ∨ WaitsForPartner st)
    (he : effect k h t = .block st ∨
      ∃ i, effect k h t = .wait i ∧ st = .blockedOnMutex (BitVec.ofNat 8 i.val)) :
    givesResult k t := by
  have hsleep : ∀ {w}, st ≠ .blocked w := by
    rintro w rfl
    rcases hst with ⟨i, hi⟩ | hw
    · cases hi
    · exact hw
  have hecall : t.mcause = ECALL_UMODE := by
    by_contra hne
    unfold effect at he
    simp only [if_neg hne] at he
    split_ifs at he
    all_goals
      rcases he with he | ⟨i, he, -⟩ <;> cases he
  rw [effect_of_ecall hecall] at he
  refine ⟨hecall, ?_⟩
  unfold ecallEffect at he
  dsimp only at he
  split at he
  · rcases he with he | ⟨i, he, -⟩ <;> cases he
  · rcases he with he | ⟨i, he, -⟩
    · exact absurd (Effect.block.inj he).symm hsleep
    · cases he
  · rename_i hid
    simp [hid]
  · rename_i hid
    simp [hid]
  · rename_i hid
    simp [hid]
  · rename_i hid
    simp [hid]
  · rename_i hid
    simp [hid]
  · rcases he with he | ⟨i, he, -⟩ <;> cases he

end State

/-! ### The words until the resumption -/

section Away
variable {P : Platform} {x : TaskId} {frame : Word} {want : ℕ → Option Word} {k k' : Kernel}
  {s s' : MachineState}

/-- A trap of another task does not write a wanted word of the frame. -/
theorem Holds.unwritten {h : Hart} {t : Trap} (hk : Sound k) (hholds : Holds x frame want k)
    (hl : LeavesFrame k h t x frame) (hapart : Apart frame t.userSp) {i : ℕ} {w : Word} (hi : i < 32)
    (hw : want i = some w) {a : Word} (ha : InRange (slot frame i) 4 a) : Unwritten k h t a := by
  have hres : ∀ st, (view k).state x = some st → (∃ i, st = .blockedOnMutex i) ∨ WaitsForPartner st →
      ¬ InRange (slot frame 6) 4 a := by
    intro st hst hwaits
    have hne : i ≠ 6 := by
      rintro rfl
      rw [hholds.waits st hst hwaits] at hw
      cases hw
    exact inRange_slot_ne hi (by omega) hne ha
  have hin : InRange frame 128 a := ha.of_slot (by omega)
  refine ⟨fun _ hin6 => hapart a hin (hin6.of_slot (by omega)), fun p hp => hl.copy p a hp hin,
    fun y sp hy hsp => ?_, fun y sp hy hsp hzero => ?_⟩
  · by_cases hyx : y = x
    · subst hyx
      have hvalid := effect_valid hk h t
      rw [hy] at hvalid
      obtain ⟨st, hst, hwaits⟩ := hvalid
      obtain rfl := Option.some.inj (hholds.savedSp.symm.trans hsp)
      exact hres st hst (Or.inr hwaits)
    · exact hl.results y sp a hyx (Or.inl hy) hsp hin
  · by_cases hyx : y = x
    · subst hyx
      obtain ⟨j, hj⟩ := hl.heir hy
      obtain rfl := Option.some.inj (hholds.savedSp.symm.trans hsp)
      exact absurd hzero (hres _ hj (Or.inl ⟨j, rfl⟩))
    · exact absurd hzero (hl.results y sp a hyx (Or.inr hy) hsp hin)

theorem Holds.trap {h : Hart} {t : Trap} {sp : Word} (hk : Sound k)
    (hok : trapHandler P h t k = .ok (sp, k')) (hholds : Holds x frame want k)
    (hl : LeavesFrame k h t x frame) (hapart : Apart frame t.userSp) {i : ℕ} {w : Word} (hi : i < 32)
    (hw : want i = some w) : k'.readFrame frame i = w := by
  rw [← hholds.words i w hw]
  refine readWord_congr fun a ha => ?_
  rw [mem_of_unwritten hk hok (hholds.unwritten hk hl hapart hi hw ha),
    ownWrites_outside (hapart a (ha.of_slot (by omega)))]

theorem Holds.copyFault {h : Hart} {t : Trap} {cause : Word} {kf : Kernel} (hk : Sound k)
    (hf : trapHandler P h t k = .error (.copyFault cause kf)) (hholds : Holds x frame want k)
    (hl : LeavesFrame k h t x frame) (hapart : Apart frame t.userSp) {i : ℕ} {w : Word} (hi : i < 32)
    (hw : want i = some w) : kf.readFrame frame i = w := by
  rw [← hholds.words i w hw]
  refine readWord_congr fun a ha => ?_
  rw [mem_of_copyFault hk hf (hholds.unwritten hk hl hapart hi hw ha),
    ownWrites_outside (hapart a (ha.of_slot (by omega)))]

theorem readFrame_saveContext (k : Kernel) (c : Context) (mstatus : Word) {frame other : Word}
    (hapart : Apart frame other) {i : ℕ} (hi : i < 32) :
    (k.setMem (saveContext c mstatus other k.mem)).readFrame frame i = k.readFrame frame i :=
  readWord_congr fun a ha => saveContext_outside c mstatus other k.mem (hapart a (ha.of_slot (by omega)))

/-- The memory a handler finds has the same frame of `x`. -/
theorem Holds.found (hholds : Holds x frame want s.kernel) (hwant : ∀ i w, want i = some w → i < 32)
    {h : Hart} (hapart : Apart frame (s.frame h)) (mstatus : Word) :
    Holds x frame want (s.found h mstatus) where
  savedSp := hholds.savedSp
  words := fun i w hw =>
    (readFrame_saveContext s.kernel _ mstatus hapart (hwant i w hw)).trans (hholds.words i w hw)
  waits := hholds.waits

/-- A step of the system does not make `x` wait while it is not the current task. -/
theorem waits_away {ev : Event} {s s' : System} (hs : SysInv s) (hstep : Step P s ev s')
    (haway : s.kernel.current x.1 ≠ x.2) {st : TaskState} (hst : (view s'.kernel).state x = some st)
    (hwaits : (∃ i, st = .blockedOnMutex i) ∨ WaitsForPartner st) :
    (view s.kernel).state x = some st := by
  have hblocked := isBlocked_of_waits hwaits
  rcases Ipc.blocked_of_step (Kernel.step_cases hs hstep).1 hblocked hst with hold | ⟨h, e, -, rfl, -⟩
  · exact hold
  · exact absurd rfl haway

theorem Holds.of_step {ev : Event} {k' : Kernel} {b : Bool} (hs : SysInv s.sys)
    (hstep : Step P s.sys ev ⟨k', b⟩) (hcur : s.kernel.current x.1 ≠ x.2)
    (hnot : ev.restartsNow s.kernel ≠ some x) (hholds : Holds x frame want s.kernel)
    (hwords : ∀ i w, want i = some w → k'.readFrame frame i = w) : Holds x frame want k' where
  savedSp := ((contexts_of_step hs hstep).savedSp_eq hcur hnot).trans hholds.savedSp
  words := hwords
  waits := fun st hst hwaits => hholds.waits st (waits_away hs hstep hcur hst hwaits) hwaits

/-- A restart of another task does not write the frame. -/
theorem restart_readFrame {ev : Event} (hc : Contexts P k ev k') (hev : ev.effect k = none)
    (hapart : ∀ y, ev.restartsNow k = some y → Apart frame (freshSp P y)) {i : ℕ} (hi : i < 32) :
    k'.readFrame frame i = k.readFrame frame i := by
  cases hc with
  | returns hsp =>
    cases ev with
    | trap => cases hev
    | nestedTrap => cases hev
    | _ => cases hsp
  | @restarts y k1 hy hnow hk' hscheds hmem =>
    refine readWord_congr fun a ha => ?_
    rw [hk', ← hmem]
    exact initializeStack_outside (hapart y hnow a (ha.of_slot (by omega)))
  | same hnow hscheds hmem =>
    unfold Kernel.readFrame
    rw [hmem]

/-- While `x` is away its frame keeps the wanted words. -/
theorem Holds.step {ev : MachineEvent} (hs : SysInv s.sys) (hstep : MachineStep P s ev s')
    (haway : Away P x frame s ev) (hwant : ∀ i w, want i = some w → i < 32)
    (hholds : Holds x frame want s.kernel) : Holds x frame want s'.kernel := by
  obtain ⟨hcur, hspares⟩ := haway
  cases machineCases_of_step hstep with
  | run h c m =>
    refine ⟨hholds.savedSp, fun i w hw => ?_, hholds.waits⟩
    rw [← hholds.words i w hw]
    have hi := hwant i w hw
    exact readWord_congr fun a ha => hspares a (ha.of_slot (by omega))
  | @trap h mcause cycles mstatus sp k' hok =>
    obtain ⟨hapart, hl⟩ := hspares
    have hfound := hholds.found hwant hapart mstatus
    refine hholds.of_step (b := s.sys.inPass) hs (step_of_trap hok) hcur (by simp [Event.restartsNow])
      fun i w hw => ?_
    exact hfound.trap (hs.sound _) hok hl hapart (hwant i w hw) hw
  | @nested h mcause cycles mstatus cycles' mstatus' cause sp c' kf k' hf hok =>
    obtain ⟨hapart, hl, hapart'⟩ := hspares
    have hfound := hholds.found hwant hapart mstatus
    refine hholds.of_step (b := s.sys.inPass) hs (step_of_nested hf rfl hok) hcur
      (by simp [Event.restartsNow]) fun i w hw => ?_
    have hi := hwant i w hw
    rw [← hfound.copyFault (hs.sound _) hf hl hapart hi hw,
      ← readFrame_saveContext kf c' mstatus' hapart' hi]
    exact readWord_congr fun a ha => hs.nested_mem hf hok (hapart' a (ha.of_slot (by omega)))
  | @watchdog ev sys hsys hev =>
    refine hholds.of_step hs hsys hcur (fun hnow => (hspares x hnow).1 rfl) fun i w hw => ?_
    rw [← hholds.words i w hw]
    exact restart_readFrame (contexts_of_step hs hsys) hev (fun y hnow => (hspares y hnow).2)
      (hwant i w hw)

/-- A task resumes only on its own hart. -/
theorem returnsOn_of_resumes {s s' : System} {ev : Event} (hs : SysInv s) (hstep : Step P s ev s')
    (hcur : s.kernel.current x.1 ≠ x.2) (hruns : s'.kernel.current x.1 = x.2) :
    returnsOn ev = some x.1 := by
  by_contra hne
  exact hcur ((current_of_returnsOn_ne hs hstep hne).symm.trans hruns)

/-- The step after which `x` runs restores its saved frame. -/
theorem Holds.restored {ev : MachineEvent} (hs : SysInv s.sys) (hstep : MachineStep P s ev s')
    (hcur : s.kernel.current x.1 ≠ x.2) (hholds : Holds x frame want s.kernel)
    (hruns : s'.kernel.current x.1 = x.2) :
    s'.ctx x.1 = restoreContext frame s'.kernel.mem (s.ctx x.1) := by
  cases machineCases_of_step hstep with
  | run h c m => exact absurd hruns hcur
  | @trap h mcause cycles mstatus sp k' hok =>
    have hsys := step_of_trap hok
    have hsp := (contexts_of_step hs hsys).resumes hcur hruns
    have hret : resumedSp P s.kernel (.trap h ⟨mcause, s.frame h, cycles⟩ (s.found h mstatus).mem) =
        some sp := by
      have hok' : trapHandler P h ⟨mcause, s.frame h, cycles⟩
        (s.kernel.setMem (s.found h mstatus).mem) = .ok (sp, k') := hok
      simp only [resumedSp, hok']
      rfl
    obtain rfl : sp = frame := Option.some.inj ((hret.symm.trans hsp).trans hholds.savedSp)
    obtain rfl : h = x.1 := Option.some.inj (returnsOn_of_resumes hs hsys hcur hruns)
    exact Function.update_self _ _ _
  | @nested h mcause cycles mstatus cycles' mstatus' cause sp c' kf k' hf hok =>
    have hsys := step_of_nested hf rfl hok
    have hsp := (contexts_of_step hs hsys).resumes hcur hruns
    have hf' : trapHandler P h ⟨mcause, s.frame h, cycles⟩ (s.kernel.setMem (s.found h mstatus).mem) =
      .error (.copyFault cause kf) := hf
    simp only [resumedSp, hf', hok] at hsp
    obtain rfl : sp = frame := Option.some.inj (hsp.trans hholds.savedSp)
    obtain rfl : h = x.1 := Option.some.inj (returnsOn_of_resumes hs hsys hcur hruns)
    exact Function.update_self _ _ _
  | @watchdog ev sys hsys hev =>
    have hsp := (contexts_of_step hs hsys).resumes hcur hruns
    rw [hholds.savedSp] at hsp
    cases ev with
    | trap => cases hev
    | nestedTrap => cases hev
    | _ => cases hsp

/-- What the trap of the current task leaves. -/
theorem trap_holds {h : Hart} {t : Trap} {c : Context} {sp : Word} (hk : Sound k)
    (hok : trapHandler P h t k = .ok (sp, k')) (hs : SavedIn k t c)
    (hl : LeavesFrame k h t ((view k).running h) t.userSp)
    (hset : Settled (view k) ((view k).running h)) :
    (k'.current h = k.current h → sp = t.userSp) ∧ (k'.current h ≠ k.current h →
      Holds ((view k).running h) t.userSp (wanted k t c) k') := by
  refine ⟨fun hcur => ?_, fun hcur => ⟨?_, fun i w hw => trap_wanted hk hok hs hl hset hw,
    fun st hst hwaits => ?_⟩⟩
  · have hback := trap_backTo (P := P) (h := h) (t := t) hk (hset.apply (effect_valid hk h t))
    rw [hok] at hback
    exact hback hcur
  · rcases resumes_of_ok hk hok with ⟨-, hsame⟩ | ⟨-, hsaved⟩
    · exact absurd hsame hcur
    · exact hsaved
  · have hb := isBlocked_of_waits hwaits
    rcases Ipc.blocked_of_effectStep (effectStep_of_ok hk hok).1 hb hst with hold | ⟨-, he⟩
    · obtain rfl := Option.some.inj (hset.running.symm.trans hold)
      exact hb.elim
    · exact if_pos ⟨givesResult_of_waits hwaits he, rfl⟩

/-- An emulated counter read returns to the task. -/
theorem current_of_emulates {h : Hart} {t : Trap} {sp : Word}
    (hok : trapHandler P h t k = .ok (sp, k')) (hem : emulates k t) : k'.current h = k.current h := by
  rw [trapHandler, if_neg (by rw [hem.1]; decide), if_neg (by rw [hem.1]; decide),
    if_neg (by rw [hem.1]; decide)] at hok
  have hcsr : t.mcause = 2#32 ∧ readsCounter (k.mem.readWord (k.readFrame t.userSp 28)) = true := hem
  simp only [exception, if_pos hcsr] at hok
  obtain ⟨-, rfl⟩ := Prod.mk.inj (Except.ok.inj hok)
  unfold emulateCounter
  split <;> rfl

end Away

/-! ## The restored context -/

section Restore
variable {k : Kernel} {t : Trap} {c c' : Context}

theorem idxOf_frameRegs : ∀ r ∈ frameRegs, frameRegs.idxOf r < 28 ∧
    frameRegs[frameRegs.idxOf r]? = some r ∧ (frameRegs.idxOf r = 6 ↔ r = 10) ∧
    ((r.val = 1 ∧ frameRegs.idxOf r = 0) ∨ (5 ≤ r.val ∧ frameRegs.idxOf r + 4 = r.val)) := by
  decide

/-- The frame words of the registers, with the exceptions that the property makes. -/
theorem wanted_reg {r : Fin 32} (hr : r ∈ frameRegs) (hres : ¬ (givesResult k t ∧ r = 10))
    (hdest : ¬ (emulates k t ∧ r.val = rd (trapped k t))) :
    wanted k t c (frameRegs.idxOf r) = some (c.x r) := by
  obtain ⟨hlt, hget, h6, hidx⟩ := idxOf_frameRegs r hr
  unfold wanted
  rw [if_neg fun hno => hres ⟨hno.1, h6.mp hno.2⟩, if_neg, if_neg (by omega), List.getElem?_map, hget]
  · rfl
  · rintro ⟨hem, hframe⟩
    refine hdest ⟨hem, ?_⟩
    unfold frameIdx at hframe
    unfold rd
    dsimp only at hframe
    split_ifs at hframe
    · have := Option.some.inj hframe
      omega
    · have := Option.some.inj hframe
      omega

theorem wanted_pc : wanted k t c 28 = some (nextPc k t c) := by
  unfold wanted
  rw [if_neg fun hno => absurd hno.2 (by decide), if_neg, if_pos rfl]
  rintro ⟨-, hframe⟩
  exact absurd (frameIdx_lt hframe) (lt_irrefl 28)

theorem preserved_of_words {u : Kernel} {frame : Word} (hframe : c.x 2 = frame + 128#32)
    (hwords : ∀ i w, wanted k t c i = some w → u.readFrame frame i = w) (hgp : c'.x 3 = c.x 3)
    (htp : c'.x 4 = c.x 4) : Preserved k t c (restoreContext frame u.mem c') where
  x := fun r h0 hres hdest => by
    unfold restoreContext
    dsimp only
    split
    · rename_i h2
      rw [h2, hframe]
    · split
      · rename_i hr
        exact hwords _ _ (wanted_reg hr hres hdest)
      · rename_i h2 hr
        have hcases : ∀ r : Fin 32, r ≠ 0 → r ≠ 2 → r ∉ frameRegs → r = 3 ∨ r = 4 := by decide
        rcases hcases r h0 h2 hr with rfl | rfl
        · exact hgp
        · exact htp
  pc := hwords 28 _ wanted_pc

theorem Preserved.gp_tp (hp : Preserved k t c c') (hem : ¬ emulates k t) :
    c'.x 3 = c.x 3 ∧ c'.x 4 = c.x 4 :=
  ⟨hp.x 3 (by decide) (fun hno => absurd hno.2 (by decide)) fun hno => hem hno.1,
    hp.x 4 (by decide) (fun hno => absurd hno.2 (by decide)) fun hno => hem hno.1⟩

end Restore

/-! ## Every run -/

theorem awayInv_run {P : Platform} {x : TaskId} {frame : Word} {want : ℕ → Option Word}
    {s s' : MachineState} {es : List MachineEvent} (hs : SysInv s.sys)
    (hwant : ∀ i w, want i = some w → i < 32) (hholds : Holds x frame want s.kernel)
    (hrun : Run (Guarded (MachineStep P) (Away P x frame)) s es s') :
    SysInv s'.sys ∧ Holds x frame want s'.kernel :=
  hrun.invariant (I := fun s => SysInv s.sys ∧ Holds x frame want s.kernel)
    (fun _ _ _ hi hstep => ⟨sysInv_machineStep _ _ _ hi.1 hstep.1,
      hi.2.step hi.1 hstep.1 hstep.2 hwant⟩) ⟨hs, hholds⟩

theorem own_trap {P : Platform} {s s' : MachineState} {h : Hart} {mcause cycles mstatus : Word}
    (hs : SysInv s.sys) (hstep : MachineStep P s (.trap h mcause cycles mstatus) s')
    (hown : OwnTrap s h mcause cycles mstatus) {k : Kernel} (hk : s.found h mstatus = k) {t : Trap}
    (ht : ⟨mcause, s.frame h, cycles⟩ = t) :
    (∀ i w, wanted k t (s.ctx h) i = some w → s'.kernel.readFrame (s.frame h) i = w) ∧
      (s'.kernel.current h = s.kernel.current h →
        s'.ctx h = restoreContext (s.frame h) s'.kernel.mem (s.ctx h)) ∧
      (s'.kernel.current h ≠ s.kernel.current h → ¬ emulates k t ∧
        Holds (h, s.kernel.current h) (s.frame h) (wanted k t (s.ctx h)) s'.kernel) := by
  obtain ⟨hset, hl⟩ := hown
  have hsaved := savedIn_found s h mcause cycles mstatus
  have hsound : Sound (s.found h mstatus) := hs.sound _
  have hview : view k = view s.kernel := by
    rw [← hk]
    rfl
  have hcur : k.current = s.kernel.current := congrArg View.current hview
  cases machineCases_of_step hstep with
  | @trap _ _ _ _ sp k' hok =>
    have hsp : t.userSp = s.frame h := congrArg Trap.userSp ht.symm
    rw [ht] at hok hsaved hl
    rw [hk] at hok hsaved hl hsound
    rw [← hview] at hset hl
    rw [← hsp] at hl ⊢
    obtain ⟨hback, hholds⟩ := trap_holds hsound hok hsaved hl hset
    refine ⟨fun i w hw => trap_wanted hsound hok hsaved hl hset hw, fun hsame => ?_, fun hleft => ?_⟩
    · have hret : sp = t.userSp := hback ((hcur ▸ hsame : k'.current h = k.current h))
      rw [← hret]
      exact Function.update_self _ _ _
    · have hleft' : k'.current h ≠ k.current h := hcur ▸ hleft
      have hrun : (view k).running h = (h, s.kernel.current h) := congrArg (Prod.mk h) (congrFun hcur h)
      rw [← hrun]
      exact ⟨fun hem => hleft' (current_of_emulates hok hem), hholds hleft'⟩

/-- The task that traps resumes with the context of its trap. -/
def ResumesWith (s : MachineState) (h : Hart) (mcause cycles mstatus : Word) (c : Context) : Prop :=
  Preserved (s.found h mstatus) ⟨mcause, s.frame h, cycles⟩ (s.ctx h) c

/-- A trap of the current task of hart `h` in any reachable state, where other writes leave its frame
alone. If the handler returns to the task, it resumes with the context of its trap. Otherwise it does so
at its next resumption, whatever traps, switches and executions of other tasks come before, if and only
if `gp` and `tp` of the hart are then what they were at the trap. -/
theorem context_preserved_iff (P : Platform) (s s0 s1 : MachineState) (es0 : List MachineEvent)
    (hs : MachineInitial P s) (hrun0 : Run (MachineStep P) s es0 s0) (h : Hart)
    (mcause cycles mstatus : Word) (hstep : MachineStep P s0 (.trap h mcause cycles mstatus) s1)
    (hown : OwnTrap s0 h mcause cycles mstatus) :
    (s1.kernel.current h = s0.kernel.current h →
      ResumesWith s0 h mcause cycles mstatus (s1.ctx h)) ∧
    ∀ es s2 ev s3, Run (Guarded (MachineStep P) (Away P (h, s0.kernel.current h) (s0.frame h))) s1 es s2 →
      MachineStep P s2 ev s3 → Away P (h, s0.kernel.current h) (s0.frame h) s2 ev →
      s3.kernel.current h = s0.kernel.current h →
      (ResumesWith s0 h mcause cycles mstatus (s3.ctx h) ↔
        (s2.ctx h).x 3 = (s0.ctx h).x 3 ∧ (s2.ctx h).x 4 = (s0.ctx h).x 4) := by
  have hinv := sysInv_machineRun hs hrun0
  have hinv1 := sysInv_machineStep _ _ _ hinv hstep
  have hframe : (s0.ctx h).x 2 = s0.frame h + 128#32 := (BitVec.sub_add_cancel ..).symm
  obtain ⟨hwords, hback, hleaves⟩ := own_trap hinv hstep hown rfl rfl
  unfold ResumesWith
  generalize s0.found h mstatus = k at hwords hleaves ⊢
  generalize (⟨mcause, s0.frame h, cycles⟩ : Trap) = t at hwords hleaves ⊢
  refine ⟨fun hcur => ?_, fun es s2 ev s3 hrun hstep3 haway hres => ?_⟩
  · rw [hback hcur]
    exact preserved_of_words hframe hwords rfl rfl
  · have hleft : s1.kernel.current h ≠ s0.kernel.current h := by
      cases es with
      | nil =>
        obtain rfl : s1 = s2 := hrun
        exact haway.1
      | cons e es =>
        obtain ⟨u, hu, -⟩ := hrun
        exact hu.2.1
    obtain ⟨hem, hholds⟩ := hleaves hleft
    have hwant : ∀ i w, wanted k t (s0.ctx h) i = some w → i < 32 := fun i w hw =>
      (wanted_lt hw).trans (by decide)
    obtain ⟨hinv2, hholds2⟩ := awayInv_run hinv1 hwant hholds hrun
    have hholds3 := hholds2.step hinv2 hstep3 haway hwant
    have hctx : s3.ctx h = restoreContext (s0.frame h) s3.kernel.mem (s2.ctx h) :=
      hholds2.restored hinv2 hstep3 haway.1 hres
    rw [hctx]
    constructor
    · intro hp
      exact hp.gp_tp hem
    · rintro ⟨hgp, htp⟩
      exact preserved_of_words hframe hholds3.words hgp htp

/-! ### Two tasks on hart 1 -/

/-- The machine after boot, with zero in the registers that no frame holds. -/
def bootMachine : MachineState where
  sys := bootSystem
  ctx := fun h => restoreContext
    ((savedSpOf bootSystem.kernel (h, bootSystem.kernel.current h)).getD 0) bootSystem.kernel.mem
    ⟨fun _ => 0, 0⟩
  mscratch := packedPlatform.kernelStack

theorem bootMachine_initial : MachineInitial packedPlatform bootMachine := by
  refine ⟨bootSystem_initial, fun h => ⟨rfl, _, _, ?_, rfl⟩⟩
  have hsome : ∀ h, (savedSpOf bootSystem.kernel (h, bootSystem.kernel.current h)).isSome := by
    decide +kernel
  obtain ⟨sp, hsp⟩ := Option.isSome_iff_exists.mp (hsome h)
  have hsp' : savedSpOf bootMachine.kernel (h, bootMachine.kernel.current h) = some sp := hsp
  rw [hsp', hsp]
  rfl

/-- The task on hart 1 loads `v` into register `r` and comes to a yield. -/
def comesToYield (r : Fin 32) (v : Word) (s : MachineState) : MachineEvent :=
  .run 1 { s.ctx 1 with x := Function.update (Function.update (s.ctx 1).x r v) 17 1#32 } s.kernel.mem

def yields : MachineEvent := .trap 1 ECALL_UMODE 0 0

/-- Task B yields, Task C loads `v` into register `r` and yields, and Task B resumes. -/
def yieldTwice (r : Fin 32) (v : Word) :
    Option (MachineState × MachineState × MachineState × MachineState) :=
  (bootMachine.next packedPlatform (comesToYield 5 0 bootMachine)).bind fun s0 =>
  (s0.next packedPlatform yields).bind fun s1 =>
  (s1.next packedPlatform (comesToYield r v s1)).bind fun s2 =>
  (s2.next packedPlatform yields).map fun s3 => (s0, s1, s2, s3)

theorem leavesFrame_of_yield {k : Kernel} {h : Hart} {t : Trap} (x : TaskId) (frame : Word)
    (hecall : t.mcause = ECALL_UMODE) (hid : (k.readFrame t.userSp 13).toNat = 1) :
    LeavesFrame k h t x frame := by
  have he : effect k h t = .resched := by
    rw [effect_of_ecall hecall]
    unfold ecallEffect
    simp only [hid]
  refine ⟨fun p a hp => ?_, fun y sp a _ hy => ?_, fun hy => ?_⟩
  · unfold transferPlan at hp
    simp only [if_pos hecall, hid] at hp
    cases hp
  · rw [he] at hy
    rcases hy with hy | hy <;> cases hy
  · rw [he] at hy
    cases hy

/-- What evaluating `yieldTwice` shows. -/
def Yielded (v3 : Word) (s0 s1 s2 s3 : MachineState) : Prop :=
  s0.kernel.current 1 = 2 ∧ s1.kernel.current 1 = 3 ∧ s2.kernel.current 1 = 3 ∧
    s3.kernel.current 1 = 2 ∧ Apart (s0.frame 1) (s2.frame 1) ∧
    ((s0.found 1 0).readFrame (s0.frame 1) 13).toNat = 1 ∧
    ((s2.found 1 0).readFrame (s2.frame 1) 13).toNat = 1 ∧
    (s0.ctx 1).x 3 = 0 ∧ (s0.ctx 1).x 4 = 0 ∧ (s2.ctx 1).x 3 = v3 ∧ (s2.ctx 1).x 4 = 0 ∧
    (s3.ctx 1).x 3 = v3

instance (v3 : Word) (s0 s1 s2 s3 : MachineState) : Decidable (Yielded v3 s0 s1 s2 s3) :=
  inferInstanceAs (Decidable (_ ∧ _))

theorem eval_yieldTwice (r : Fin 32) (v v3 : Word)
    (heval : (yieldTwice r v).map (fun s => decide (Yielded v3 s.1 s.2.1 s.2.2.1 s.2.2.2)) = some true) :
    ∃ s0 s1 s2 s3, MachineStep packedPlatform bootMachine (comesToYield 5 0 bootMachine) s0 ∧
      MachineStep packedPlatform s0 yields s1 ∧
      MachineStep packedPlatform s1 (comesToYield r v s1) s2 ∧
      MachineStep packedPlatform s2 yields s3 ∧ Yielded v3 s0 s1 s2 s3 := by
  obtain ⟨⟨s0, s1, s2, s3⟩, hsteps, hdec⟩ := Option.map_eq_some_iff.mp heval
  obtain ⟨u0, h0, hsteps⟩ := Option.bind_eq_some_iff.mp hsteps
  obtain ⟨u1, h1, hsteps⟩ := Option.bind_eq_some_iff.mp hsteps
  obtain ⟨u2, h2, hsteps⟩ := Option.bind_eq_some_iff.mp hsteps
  obtain ⟨u3, h3, hout⟩ := Option.map_eq_some_iff.mp hsteps
  simp only [Prod.mk.injEq] at hout
  obtain ⟨rfl, rfl, rfl, rfl⟩ := hout
  exact ⟨u0, u1, u2, u3, h0, h1, h2, h3, of_decide_eq_true hdec⟩

/-- Task C uses `t0` between the two yields. -/
theorem context_preserved_iff_yields :
    ∃ s0 s1 s2 s3, MachineStep packedPlatform bootMachine (comesToYield 5 0 bootMachine) s0 ∧
      MachineStep packedPlatform s0 yields s1 ∧
      MachineStep packedPlatform s1 (comesToYield 5 7 s1) s2 ∧
      MachineStep packedPlatform s2 yields s3 ∧ s0.kernel.current 1 = 2 ∧ s2.kernel.current 1 = 3 ∧
      s3.kernel.current 1 = 2 ∧ ResumesWith s0 1 ECALL_UMODE 0 0 (s3.ctx 1) := by
  obtain ⟨s0, s1, s2, s3, h0, h1, h2, h3, hB, hC, hC2, hB3, hapart, hid0, hid2, hgp0, htp0, hgp2, htp2,
    -⟩ := eval_yieldTwice 5 7 0 (by decide +kernel)
  have hview : view s0.kernel = bootView := by
    rw [← Option.some.inj h0]
    exact (initial_view bootSystem_initial).1
  have hown : OwnTrap s0 1 ECALL_UMODE 0 0 := by
    refine ⟨?_, leavesFrame_of_yield _ _ rfl hid0⟩
    rw [hview]
    refine ⟨by decide, fun i m hm => ?_⟩
    rw [(bootView_mutexes hm).2]
    exact BitSet.not_mem_zero _
  have haway1 : Away packedPlatform (1, s0.kernel.current 1) (s0.frame 1) s1 (comesToYield 5 7 s1) := by
    refine ⟨?_, fun _ _ => rfl⟩
    rw [hB, hC]
    decide
  have haway2 : Away packedPlatform (1, s0.kernel.current 1) (s0.frame 1) s2 yields := by
    refine ⟨?_, hapart, leavesFrame_of_yield _ _ rfl hid2⟩
    rw [hB, hC2]
    decide
  have hiff := (context_preserved_iff packedPlatform bootMachine s0 s1 _ bootMachine_initial (Run.single h0) 1
    ECALL_UMODE 0 0 h1 hown).2 [comesToYield 5 7 s1] s2 yields s3 (Run.single ⟨h2, haway1⟩) h3 haway2
    (hB3.trans hB.symm)
  exact ⟨s0, s1, s2, s3, h0, h1, h2, h3, hB, hC2, hB3,
    hiff.mpr ⟨hgp2.trans hgp0.symm, htp2.trans htp0.symm⟩⟩

/-- Task C uses `gp` between the two yields, and Task B resumes with its value. -/
theorem gp_of_another_task :
    (∃ s0 s1 s2 s3, MachineStep packedPlatform bootMachine (comesToYield 5 0 bootMachine) s0 ∧
      MachineStep packedPlatform s0 yields s1 ∧
      MachineStep packedPlatform s1 (comesToYield 3 7 s1) s2 ∧
      MachineStep packedPlatform s2 yields s3 ∧ s0.kernel.current 1 = 2 ∧ s2.kernel.current 1 = 3 ∧
      s3.kernel.current 1 = 2 ∧ (s0.ctx 1).x 3 = 0 ∧ (s3.ctx 1).x 3 = 7) ∧
    ¬ ∀ (P : Platform) (s s0 s1 : MachineState) (es0 : List MachineEvent), MachineInitial P s →
      Run (MachineStep P) s es0 s0 → ∀ (h : Hart) (mcause cycles mstatus : Word),
      MachineStep P s0 (.trap h mcause cycles mstatus) s1 →
      (s1.kernel.current h = s0.kernel.current h →
        ResumesWith s0 h mcause cycles mstatus (s1.ctx h)) ∧
      ∀ es s2 ev s3,
        Run (Guarded (MachineStep P) fun s _ => s.kernel.current h ≠ s0.kernel.current h) s1 es s2 →
        s2.kernel.current h ≠ s0.kernel.current h → MachineStep P s2 ev s3 →
        s3.kernel.current h = s0.kernel.current h →
        ResumesWith s0 h mcause cycles mstatus (s3.ctx h) := by
  obtain ⟨s0, s1, s2, s3, h0, h1, h2, h3, hB, hC, hC2, hB3, -, -, -, hgp0, -, -, -, hgp3⟩ :=
    eval_yieldTwice 3 7 7 (by decide +kernel)
  refine ⟨⟨s0, s1, s2, s3, h0, h1, h2, h3, hB, hC2, hB3, hgp0, hgp3⟩, fun hall => ?_⟩
  have hne1 : s1.kernel.current 1 ≠ s0.kernel.current 1 := by
    rw [hB, hC]
    decide
  have hne2 : s2.kernel.current 1 ≠ s0.kernel.current 1 := by
    rw [hB, hC2]
    decide
  have hres := (hall packedPlatform bootMachine s0 s1 _ bootMachine_initial (Run.single h0) 1
    ECALL_UMODE 0 0 h1).2 [comesToYield 3 7 s1] s2 yields s3 (Run.single ⟨h2, hne1⟩) hne2 h3
    (hB3.trans hB.symm)
  have hecall : ECALL_UMODE ≠ 2#32 := by decide
  have hgp : (s3.ctx 1).x 3 = (s0.ctx 1).x 3 := (Preserved.gp_tp hres fun hem => hecall hem.1).1
  rw [hgp3, hgp0] at hgp
  exact absurd hgp (by decide)

end Cerberus.Machine
