import Cerberus.Machine.Preservation

/-! # The emulated CSR instructions

An illegal instruction of a task: the handler reads the word at the saved pc, emulates it if it
accesses `cycle` or `mcycle`, and terminates the task otherwise. What it should emulate are the words
that read one of the two counters and write no CSR. -/
namespace Cerberus.Machine
open Kernel Scheduler Sync Memory Transition
set_option autoImplicit false

/-! ## Counter reads -/

def funct3 (instruction : Word) : ℕ := ((instruction >>> 12) &&& 0x7#32).toNat

/-- The source register, or the immediate of the immediate forms. -/
def rs1 (instruction : Word) : ℕ := ((instruction >>> 15) &&& 0x1F#32).toNat

/-- A CSR instruction on a counter that performs no write: `csrrs` (2) or `csrrc` (3) with `x0`, or
`csrrsi` (6) or `csrrci` (7) with a zero immediate. -/
def IsCounterRead (instruction : Word) : Prop :=
  instruction &&& 0x7F#32 = 0x73#32 ∧
    (instruction >>> 20 = 0xC00#32 ∨ instruction >>> 20 = 0xB00#32) ∧
    (funct3 instruction = 2 ∨ funct3 instruction = 3 ∨ funct3 instruction = 6 ∨
      funct3 instruction = 7) ∧ rs1 instruction = 0

instance (instruction : Word) : Decidable (IsCounterRead instruction) :=
  inferInstanceAs (Decidable (_ ∧ _))

theorem readsCounter_of_isCounterRead {instruction : Word} (hread : IsCounterRead instruction) :
    readsCounter instruction = true := decide_eq_true ⟨hread.1, hread.2.1⟩

/-! ## What the machine should do -/

/-- The instruction that the handler of an illegal instruction on hart `h` finds. -/
def illegal (s : MachineState) (h : Hart) (cycles mstatus : Word) : Word :=
  trapped (s.found h mstatus) ⟨2, s.frame h, cycles⟩

/-- The trap on hart `h` returned to the task, behind the instruction. -/
def Resumed (h : Hart) (s s' : MachineState) : Prop :=
  s'.kernel.current h = s.kernel.current h ∧ (s'.ctx h).pc = (s.ctx h).pc + 4#32

/-- Register `rd` of the instruction holds the counter, and no other register has changed. -/
structure CounterLoaded (h : Hart) (cycles instruction : Word) (s s' : MachineState) : Prop where
  dest : ∀ r : Fin 32, r ≠ 0 → r.val = rd instruction → (s'.ctx h).x r = cycles
  others : ∀ r : Fin 32, r = 0 ∨ r.val ≠ rd instruction → (s'.ctx h).x r = (s.ctx h).x r

/-- Exactly the counter reads are emulated, and every other word terminates the task. -/
def EmulatesReads (P : Platform) (s : MachineState) (h : Hart) (cycles mstatus : Word) : Prop :=
  ∃ s', MachineStep P s (.trap h 2 cycles mstatus) s' ∧
    (Resumed h s s' ↔ IsCounterRead (illegal s h cycles mstatus)) ∧
    (IsCounterRead (illegal s h cycles mstatus) →
      CounterLoaded h cycles (illegal s h cycles mstatus) s s') ∧
    (¬ IsCounterRead (illegal s h cycles mstatus) →
      (view s'.kernel).state (h, s.kernel.current h) = some .terminated)

/-! ## The emulation -/

section Emulation
variable {P : Platform} {s s' : MachineState} {h : Hart} {mcause cycles mstatus sp : Word} {k' : Kernel}

theorem machineStep_of_ok
    (hok : trapHandler P h ⟨mcause, s.frame h, cycles⟩ (s.found h mstatus) = .ok (sp, k')) :
    MachineStep P s (.trap h mcause cycles mstatus) (s.returned h sp k' (s.mscratch h)) := by
  have hok' : trapHandler P h ⟨mcause, (trapEntry (s.regs h)).mscratch, cycles⟩ (s.found h mstatus) =
      .ok (sp, k') := hok
  have hsp : (trapExit sp (trapEntry (s.regs h))).sp - 128#32 = sp := BitVec.add_sub_cancel ..
  simp only [MachineStep, MachineState.next, runTrap, hok', MachineState.resume,
    MachineState.restored, MachineState.returned, hsp]
  rfl

/-- The word of the frame that the handler writes is the one of the destination register. -/
theorem frameIdx_iff {instruction : Word} {r : Fin 32} (hr : r ∈ frameRegs) :
    frameIdx instruction = some (frameRegs.idxOf r) ↔ r.val = rd instruction := by
  obtain ⟨-, -, -, hidx⟩ := idxOf_frameRegs r hr
  unfold frameIdx rd
  dsimp only
  split_ifs
  · rw [Option.some.injEq]
    omega
  · rw [Option.some.injEq]
    omega
  · simp only [false_iff]
    omega

theorem readFrame_emulateCounter (k : Kernel) (t : Trap) (instruction : Word) {i : ℕ} (hi : i < 28) :
    (emulateCounter t k instruction).readFrame t.userSp i =
      if frameIdx instruction = some i then t.cycles else k.readFrame t.userSp i := by
  unfold emulateCounter
  rw [readFrame_writeFrame_ne _ _ _ (by omega) (by omega) (by omega)]
  cases hidx : frameIdx instruction with
  | none => simp
  | some idx =>
    have hlt := frameIdx_lt hidx
    by_cases hii : idx = i
    · rw [if_pos (congrArg some hii), hii]
      exact readFrame_writeFrame_self _ _ _ _
    · rw [if_neg fun he => hii (Option.some.inj he)]
      exact readFrame_writeFrame_ne _ _ _ (by omega) (by omega) fun he => hii he.symm

/-- The restored registers of an emulated instruction. -/
theorem emulated_x {k : Kernel} {t : Trap} {c : Context} (hs : SavedIn k t c)
    (hsp : c.x 2 = t.userSp + 128#32) (instruction : Word) (r : Fin 32) :
    (restoreContext t.userSp (emulateCounter t k instruction).mem c).x r =
      if r ∈ frameRegs ∧ r.val = rd instruction then t.cycles else c.x r := by
  have hnot : (2 : Fin 32) ∉ frameRegs := by decide
  unfold restoreContext
  dsimp only
  by_cases h2 : r = 2
  · subst h2
    rw [if_pos rfl, if_neg fun hno => hnot hno.1, hsp]
  · rw [if_neg h2]
    by_cases hr : r ∈ frameRegs
    · obtain ⟨hlt, hget, -, -⟩ := idxOf_frameRegs r hr
      have hread := readFrame_emulateCounter k t instruction hlt
      rw [hs.reg (w := c.x r) (by rw [List.getElem?_map, hget]; rfl)] at hread
      rw [if_pos hr]
      refine hread.trans ?_
      by_cases hrd : r.val = rd instruction
      · rw [if_pos ((frameIdx_iff hr).mpr hrd), if_pos ⟨hr, hrd⟩]
      · rw [if_neg fun he => hrd ((frameIdx_iff hr).mp he), if_neg fun hno => hrd hno.2]
    · rw [if_neg hr, if_neg fun hno => hr hno.1]

theorem emulated_pc {k : Kernel} {t : Trap} {c : Context} (hs : SavedIn k t c) (instruction : Word) :
    (restoreContext t.userSp (emulateCounter t k instruction).mem c).pc = c.pc + 4#32 := by
  have hread : (emulateCounter t k instruction).readFrame t.userSp 28 =
      k.readFrame t.userSp 28 + 4#32 := readFrame_writeFrame_self _ _ _ _
  rw [hs.pc] at hread
  exact hread

theorem trapHandler_of_emulates {k : Kernel} {t : Trap} (hem : emulates k t) :
    trapHandler P h t k = .ok (t.userSp, emulateCounter t k (trapped k t)) := by
  have hcsr : t.mcause = 2#32 ∧ readsCounter (k.mem.readWord (k.readFrame t.userSp 28)) = true := hem
  rw [trapHandler, if_neg (by rw [hem.1]; decide), if_neg (by rw [hem.1]; decide),
    if_neg (by rw [hem.1]; decide)]
  simp only [exception, if_pos hcsr]
  rfl

/-- The registers that no frame holds: the destination stays as it was. -/
def Unsaved (r : Fin 32) : Prop := r = 2 ∨ r = 3 ∨ r = 4

instance (r : Fin 32) : Decidable (Unsaved r) := inferInstanceAs (Decidable (_ ∨ _))

theorem unsaved_iff : ∀ r : Fin 32, r ≠ 0 → (Unsaved r ↔ r ∉ frameRegs) := by decide

/-- An access to a counter is emulated, whatever it writes; its destination is missed if it is `sp`, `gp`
or `tp`. -/
theorem step_of_access (P : Platform) (hacc : readsCounter (illegal s h cycles mstatus) = true) :
    ∃ s', MachineStep P s (.trap h 2 cycles mstatus) s' ∧ Resumed h s s' ∧
      (CounterLoaded h cycles (illegal s h cycles mstatus) s s' ↔
        ∀ r, Unsaved r → r.val = rd (illegal s h cycles mstatus) → (s.ctx h).x r = cycles) := by
  have hsaved := savedIn_found s h 2 cycles mstatus
  have hem : emulates (s.found h mstatus) ⟨2, s.frame h, cycles⟩ := ⟨rfl, hacc⟩
  have hsp : (s.ctx h).x 2 = s.frame h + 128#32 := (BitVec.sub_add_cancel ..).symm
  refine ⟨_, machineStep_of_ok (trapHandler_of_emulates hem), ?_⟩
  have hx := emulated_x hsaved hsp (illegal s h cycles mstatus)
  have hpc := emulated_pc hsaved (illegal s h cycles mstatus)
  have hview : (emulateCounter ⟨2, s.frame h, cycles⟩ (s.found h mstatus)
      (illegal s h cycles mstatus)).current h = s.kernel.current h := by
    unfold emulateCounter
    cases frameIdx (illegal s h cycles mstatus) <;> rfl
  generalize hw : illegal s h cycles mstatus = w at hx hpc hview ⊢
  have hw' : trapped (s.found h mstatus) ⟨2, s.frame h, cycles⟩ = w := hw
  rw [hw']
  generalize s.found h mstatus = k at hx hpc hview ⊢
  have hctx : (s.returned h (s.frame h) (emulateCounter ⟨2, s.frame h, cycles⟩ k w)
      (s.mscratch h)).ctx h =
      restoreContext (s.frame h) (emulateCounter ⟨2, s.frame h, cycles⟩ k w).mem (s.ctx h) :=
    Function.update_self _ _ _
  refine ⟨⟨hview, ?_⟩, ?_⟩
  · rw [hctx]
    exact hpc
  · constructor
    · intro hloaded r hun hrd
      have h0 : r ≠ 0 := by
        rintro rfl
        revert hun
        decide
      have hdest := hloaded.dest r h0 hrd
      rw [hctx] at hdest
      rw [← hdest]
      exact ((hx r).trans (if_neg fun hno => (unsaved_iff r h0).mp hun hno.1)).symm
    · intro hun
      refine ⟨fun r h0 hrd => ?_, fun r hr => ?_⟩
      · rw [hctx]
        refine (hx r).trans ?_
        by_cases hr : r ∈ frameRegs
        · exact if_pos ⟨hr, hrd⟩
        · rw [if_neg fun hno => hr hno.1]
          exact hun r ((unsaved_iff r h0).mpr hr) hrd
      · rw [hctx]
        refine (hx r).trans (if_neg fun hno => ?_)
        rcases hr with rfl | hr
        · exact absurd hno.1 (by decide)
        · exact hr hno.2

/-! ## The containment -/

/-- A contained fault writes no memory. -/
theorem mem_of_contained {k : Kernel} {t : Trap} (hk : Sound k)
    (hok : trapHandler P h t k = .ok (sp, k')) (hkill : effect k h t = .kill (h, k.current h))
    (hecall : t.mcause ≠ ECALL_UMODE) (hem : ¬ emulates k t) : k'.mem = k.mem := by
  funext a
  have hun : Unwritten k h t a := by
    refine ⟨fun hres => absurd hres.1 hecall, fun p hp => ?_, fun y sp' hy => ?_, fun y sp' hy => ?_⟩
    · rw [transferPlan_of_ne hecall] at hp
      cases hp
    · rw [hkill] at hy
      cases hy
    · rw [hkill] at hy
      cases hy
  rw [mem_of_unwritten hk hok hun, ownWrites_of_ne hecall hem]

/-- A killed task stays terminated unless it inherits a mutex of its own. -/
theorem terminated_iff {v v' : View} {x : TaskId} (hx : (v.state x).isSome) (hrun : x = v.running h)
    (hl : (Effect.kill x).Leads h v v') :
    v'.state x = some .terminated ↔ ∀ i, ¬ v.Heir x.2 i x := by
  rw [(hl.resched_of_kill hrun).state_iff (by simp) (by simp)]
  exact Effect.kill_state_iff hx

/-- An illegal instruction that is not emulated: the handler returns, writes no memory, and goes back
to the task only if it inherits a mutex of its own, or if nothing else can run. -/
theorem trap_of_illegal {k : Kernel} {t : Trap} (hk : Sound k) (hcause : t.mcause = 2#32)
    (hem : ¬ emulates k t) (hlock : (k.schedLock.lock h).isSome) :
    ∃ sp k', trapHandler P h t k = .ok (sp, k') ∧ k'.mem = k.mem ∧
      ((view k').state ((view k).running h) = some .terminated ↔
        ∀ i, ¬ (view k).Heir (k.current h) i ((view k).running h)) ∧
      ((∀ i, ¬ (view k).Heir (k.current h) i ((view k).running h)) →
        k'.current h = k.current h → sp = t.userSp) := by
  have hecall : t.mcause ≠ ECALL_UMODE := by
    rw [hcause]
    decide
  have hcsr : ¬ (t.mcause = 2#32 ∧
      readsCounter (k.mem.readWord (k.readFrame t.userSp 28)) = true) := hem
  have hkill : effect k h t = .kill ((view k).running h) := by
    rw [effect, if_neg (by rw [hcause]; decide), if_neg (by rw [hcause]; decide), if_neg hecall,
      if_neg hcsr]
    rfl
  have hreg := hk.indexed.running h
  have hres := trap_result (P := P) (h := h) hk
    (Or.inr (Or.inr (Or.inr (by rw [hcause]; decide))))
  generalize hout : trapHandler P h t k = o at hres
  cases hres with
  | spins _ hl =>
    rw [hl] at hlock
    cases hlock
  | lockFree htakes _ =>
    rw [TakesLock, if_neg hecall] at htakes
    exact absurd hem htakes
  | runs _ _ hr =>
    cases hr with
    | notOwner he =>
      rw [hkill] at he
      cases he
    | copyFault he =>
      rw [hkill] at he
      cases he
    | @returns sp k' hleads _ _ _ _ _ =>
      rw [hkill] at hleads
      refine ⟨sp, k', rfl, mem_of_contained hk hout hkill hecall hem,
        terminated_iff hreg rfl hleads, fun hno hcur => ?_⟩
      have hready : ((effect k h t).apply h (view k)).state ((view k).running h) ≠ some .ready := by
        rw [hkill, (Effect.kill_state_iff hreg).mpr hno]
        simp
      have hback := trap_backTo (P := P) (h := h) (t := t) hk hready
      rw [hout] at hback
      exact hback hcur

/-- The machine at any other word. -/
theorem step_of_other (hs : SysInv s.sys) (hlock : (s.kernel.schedLock.lock h).isSome)
    (hacc : readsCounter (illegal s h cycles mstatus) = false) :
    ∃ s', MachineStep P s (.trap h 2 cycles mstatus) s' ∧
      ((view s'.kernel).state (h, s.kernel.current h) = some .terminated ↔
        ∀ i, ¬ (view s.kernel).Heir (s.kernel.current h) i (h, s.kernel.current h)) ∧
      ((∀ i, ¬ (view s.kernel).Heir (s.kernel.current h) i (h, s.kernel.current h)) →
        ¬ Resumed h s s') := by
  have hem : ¬ emulates (s.found h mstatus) ⟨2, s.frame h, cycles⟩ := by
    rintro ⟨-, hacc'⟩
    have hacc'' : readsCounter (illegal s h cycles mstatus) = true := hacc'
    rw [hacc] at hacc''
    cases hacc''
  obtain ⟨sp, k', hok, hmem, hterm, hback⟩ :=
    trap_of_illegal (P := P) (hs.sound _) rfl hem (hlock : ((s.found h mstatus).schedLock.lock h).isSome)
  refine ⟨_, machineStep_of_ok hok, hterm, ?_⟩
  rintro hno ⟨hcur, hpc⟩
  have hctx : (s.returned h sp k' (s.mscratch h)).ctx h = restoreContext sp k'.mem (s.ctx h) :=
    Function.update_self _ _ _
  have hsp : sp = s.frame h := hback hno hcur
  have hsame : (restoreContext sp k'.mem (s.ctx h)).pc = (s.ctx h).pc := by
    rw [hsp, hmem]
    exact (savedIn_found s h 2 cycles mstatus).pc
  rw [hctx, hsame] at hpc
  have hnat := congrArg BitVec.toNat hpc
  rw [BitVec.toNat_add] at hnat
  have hlt := (s.ctx h).pc.isLt
  have h4 : (4#32 : Word).toNat = 4 := rfl
  omega

/-- What the handler does with the word it finds, in every state that keeps the system invariant. -/
theorem emulatesReads_iff (hs : SysInv s.sys) (hlock : (s.kernel.schedLock.lock h).isSome) :
    EmulatesReads P s h cycles mstatus ↔
      (readsCounter (illegal s h cycles mstatus) = true →
        IsCounterRead (illegal s h cycles mstatus) ∧
          ∀ r, Unsaved r → r.val = rd (illegal s h cycles mstatus) → (s.ctx h).x r = cycles) ∧
      (readsCounter (illegal s h cycles mstatus) = false →
        ∀ i, ¬ (view s.kernel).Heir (s.kernel.current h) i (h, s.kernel.current h)) := by
  cases hacc : readsCounter (illegal s h cycles mstatus) with
  | true =>
    obtain ⟨s1, hstep, hresumed, hloaded⟩ := step_of_access P hacc
    constructor
    · rintro ⟨s2, hstep2, hiff, hregs, -⟩
      obtain rfl := Option.some.inj (hstep.symm.trans hstep2)
      have hread := hiff.mp hresumed
      exact ⟨fun _ => ⟨hread, hloaded.mp (hregs hread)⟩, fun hf => by cases hf⟩
    · rintro ⟨hcond, -⟩
      obtain ⟨hread, hun⟩ := hcond rfl
      exact ⟨s1, hstep, iff_of_true hresumed hread, fun _ => hloaded.mpr hun,
        fun hno => absurd hread hno⟩
  | false =>
    have hnot : ¬ IsCounterRead (illegal s h cycles mstatus) := by
      intro hread
      rw [readsCounter_of_isCounterRead hread] at hacc
      cases hacc
    obtain ⟨s1, hstep, hterm, hresumed⟩ := step_of_other (P := P) hs hlock hacc
    constructor
    · rintro ⟨s2, hstep2, -, -, hkilled⟩
      obtain rfl := Option.some.inj (hstep.symm.trans hstep2)
      exact ⟨fun hf => (by cases hf), fun _ => hterm.mp (hkilled hnot)⟩
    · rintro ⟨-, hno⟩
      exact ⟨s1, hstep, iff_of_false (hresumed (hno rfl)) hnot, fun hread => absurd hread hnot,
        fun _ => hterm.mpr (hno rfl)⟩

end Emulation

/-- In every reachable state, an illegal instruction is handled as it should exactly if: an access to a
counter is a read, and its destination is not `sp`, `gp` or `tp` (or holds the counter already); and
for any other word, no mutex of the task has the task itself as its first waiter. -/
theorem csr_emulation_iff (P : Platform) (s0 s : MachineState) (es : List MachineEvent)
    (hs0 : MachineInitial P s0) (hrun : Run (MachineStep P) s0 es s) (h : Hart)
    (cycles mstatus : Word) (hlock : (s.kernel.schedLock.lock h).isSome) :
    EmulatesReads P s h cycles mstatus ↔
      (readsCounter (illegal s h cycles mstatus) = true →
        IsCounterRead (illegal s h cycles mstatus) ∧
          ∀ r, Unsaved r → r.val = rd (illegal s h cycles mstatus) → (s.ctx h).x r = cycles) ∧
      (readsCounter (illegal s h cycles mstatus) = false →
        ∀ i, ¬ (view s.kernel).Heir (s.kernel.current h) i (h, s.kernel.current h)) :=
  emulatesReads_iff (sysInv_machineRun hs0 hrun) hlock

/-- The Watchdog has come to the instruction `w` at the start of the flash. -/
def comesTo (w : Word) : MachineEvent :=
  .run 0 { bootMachine.ctx 0 with pc := 0x42000000#32 }
    (bootMachine.kernel.mem.writeWord 0x42000000#32 w)

/-- `csrr a0, cycle`. -/
theorem csr_emulation_iff_csrr :
    ∃ s, MachineStep packedPlatform bootMachine (comesTo 0xC0002573#32) s ∧
      illegal s 0 7 0 = 0xC0002573#32 ∧ EmulatesReads packedPlatform s 0 7 0 := by
  obtain ⟨s, hstep⟩ : ∃ s, MachineStep packedPlatform bootMachine (comesTo 0xC0002573#32) s := ⟨_, rfl⟩
  obtain ⟨hw, hlock⟩ : illegal s 0 7 0 = 0xC0002573#32 ∧ (s.kernel.schedLock.lock 0).isSome := by
    rw [← Option.some.inj hstep]
    decide +kernel
  refine ⟨s, hstep, hw, (csr_emulation_iff packedPlatform bootMachine s _ bootMachine_initial
    (Run.single hstep) 0 7 0 hlock).mpr ?_⟩
  rw [hw]
  refine ⟨fun _ => ⟨by decide, fun r hun hrd => ?_⟩, fun hf => ?_⟩
  · have hno : ∀ r : Fin 32, Unsaved r → r.val ≠ rd 0xC0002573#32 := by decide
    exact absurd hrd (hno r hun)
  · exact absurd hf (by decide)

/-- `csrw mcycle, t0` is absorbed: the Watchdog goes on behind it. -/
theorem counter_write_is_absorbed :
    ∃ s s', MachineStep packedPlatform bootMachine (comesTo 0xB0029073#32) s ∧
      (s.kernel.schedLock.lock 0).isSome ∧ illegal s 0 7 0 = 0xB0029073#32 ∧
      ¬ IsCounterRead 0xB0029073#32 ∧ MachineStep packedPlatform s (.trap 0 2 7 0) s' ∧
      Resumed 0 s s' ∧ ¬ EmulatesReads packedPlatform s 0 7 0 := by
  have hnot : ¬ IsCounterRead 0xB0029073#32 := by decide
  obtain ⟨s, hstep⟩ : ∃ s, MachineStep packedPlatform bootMachine (comesTo 0xB0029073#32) s := ⟨_, rfl⟩
  obtain ⟨hw, hlock⟩ : illegal s 0 7 0 = 0xB0029073#32 ∧ (s.kernel.schedLock.lock 0).isSome := by
    rw [← Option.some.inj hstep]
    decide +kernel
  have hacc : readsCounter (illegal s 0 7 0) = true := by
    rw [hw]
    decide
  obtain ⟨s', hstep', hresumed, -⟩ := step_of_access packedPlatform hacc
  refine ⟨s, s', hstep, hlock, hw, hnot, hstep', hresumed, ?_⟩
  rintro ⟨s2, hstep2, hiff, -⟩
  obtain rfl := Option.some.inj (hstep'.symm.trans hstep2)
  rw [hw] at hiff
  exact hnot (hiff.mp hresumed)

end Cerberus.Machine
