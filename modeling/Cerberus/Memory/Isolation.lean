import Cerberus.Memory.PmpProgram

/-! # Which addresses a task may access

The U-mode rights while a task runs, as address ranges, and what follows for the five task stacks.
The SRAM entry has number 3, so it decides before the entries 4, 5 and 6 of Task B, Task C and the
HSM: only the stacks of the Watchdog (entry 1) and Task A (entry 2) are hidden from other tasks. -/
namespace Cerberus.Memory
open Cerberus.Word
set_option autoImplicit false

variable {L : StackLayout} {r : PmpRegs} {i : Fin 8} {base size a : Word} {c : PmpConfig}

/-! ## Decoding one entry -/

theorem mode_of_cfg (h : r.cfg i = c.toByte) : r.mode i = c.mode := by
  unfold PmpRegs.mode
  rw [h]
  obtain ⟨rd, wr, ex, m, l⟩ := c
  cases rd <;> cases wr <;> cases ex <;> cases m <;> cases l <;> rfl

theorem cfgPermits_toByte (c : PmpConfig) (acc : Access) :
    cfgPermits c.toByte acc =
      match acc with
      | .read => c.read
      | .write => c.write
      | .execute => c.execute := by
  obtain ⟨rd, wr, ex, m, l⟩ := c
  cases rd <;> cases wr <;> cases ex <;> cases m <;> cases l <;> cases acc <;> rfl

theorem napotVal_toNat (base : Word) {size : Word} (h : 2 ≤ size.toNat) :
    (napotVal base size).toNat = Napot.encode base.toNat size.toNat := by
  have hhalf : (size / 2).toNat = size.toNat / 2 := by
    rw [BitVec.toNat_udiv]
    rfl
  have hone : (1 : Word) ≤ size / 2 := by
    rw [BitVec.le_def, hhalf]
    show 1 ≤ size.toNat / 2
    omega
  have hsub : (size / 2 - 1).toNat = size.toNat / 2 - 1 := by
    rw [BitVec.toNat_sub_of_le hone, hhalf]
    rfl
  unfold napotVal Napot.encode
  rw [BitVec.toNat_or, BitVec.toNat_ushiftRight, BitVec.toNat_ushiftRight, hsub,
    Nat.shiftRight_eq_div_pow, Nat.shiftRight_eq_div_pow]

/-- A NAPOT entry matches exactly the addresses of its block. -/
theorem Entry.matches_iff (h : Entry r i base size c) (hc : c.mode = .napot) {k : ℕ} (hk : k < 32)
    (hsize : size.toNat = 2 ^ (k + 3)) (hbase : base.toNat % 2 ^ (k + 3) = 0) :
    r.Matches i a ↔ base.toNat ≤ a.toNat ∧ a.toNat < base.toNat + 2 ^ (k + 3) := by
  have hmode : r.mode i = .napot := (mode_of_cfg h.cfg).trans hc
  have h2 : 2 ≤ size.toNat := by
    have := Nat.two_pow_pos k
    have e : 2 ^ (k + 3) = 8 * 2 ^ k := by ring
    omega
  unfold PmpRegs.Matches
  rw [hmode, h.addr]
  simp only
  rw [napotVal_toNat base h2, hsize]
  exact Napot.contains_encode_of_dvd a.toNat hk hbase

/-- The fields of a configuration byte: R, W, X in bits 0 to 2, A in bits 3 and 4, L in bit 7. -/
def PmpConfig.ofByte (b : Byte) : PmpConfig where
  read := b.getLsbD 0
  write := b.getLsbD 1
  execute := b.getLsbD 2
  mode :=
    match b.getLsbD 4, b.getLsbD 3 with
    | false, false => .off
    | false, true => .tor
    | true, false => .na4
    | true, true => .napot
  locked := b.getLsbD 7

theorem ofByte_toByte (c : PmpConfig) : PmpConfig.ofByte c.toByte = c := by
  obtain ⟨rd, wr, ex, m, l⟩ := c
  cases rd <;> cases wr <;> cases ex <;> cases m <;> cases l <;> rfl

theorem toNat_two_pow {k : ℕ} (hk : k ≤ 31) : (BitVec.ofNat 32 (2 ^ k)).toNat = 2 ^ k := by
  rw [BitVec.toNat_ofNat]
  exact Nat.mod_eq_of_lt (Nat.pow_lt_pow_right (by decide) (by omega))

/-- What `configure_pmp` puts into the registers of an unlocked entry is read by the hardware as the
requested block and the requested flags. -/
theorem configurePmp_decodes {k : ℕ} (hlow : 3 ≤ k) (hhigh : k ≤ 31) (base : Word)
    (haligned : base.toNat % 2 ^ k = 0) (config : PmpConfig) (e : Fin 7) (r : PmpRegs) :
    let size := BitVec.ofNat 32 (2 ^ k)
    let v := (napotVal base size).toNat
    (Napot.regionBase 32 v = base.toNat ∧ Napot.regionSize 32 v = 2 ^ k) ∧
      (∀ a : ℕ, Napot.Contains 32 v a ↔ base.toNat ≤ a ∧ a < base.toNat + 2 ^ k) ∧
      PmpConfig.ofByte config.toByte = config ∧
      (r.locked e.castSucc = false →
        Entry (configurePmp e base size config r) e.castSucc base size config) := by
  obtain ⟨j, rfl⟩ : ∃ j, k = j + 3 := ⟨k - 3, by omega⟩
  have hsize := toNat_two_pow hhigh
  have htwo : 2 ≤ (BitVec.ofNat 32 (2 ^ (j + 3))).toNat := by
    rw [hsize]
    exact Nat.le_self_pow (by omega) 2
  have hval := napotVal_toNat base htwo
  rw [hsize] at hval
  simp only [hval]
  exact ⟨⟨Napot.regionBase_encode (by omega) haligned, Napot.regionSize_encode (by omega) haligned⟩,
    fun a => Napot.contains_encode_of_dvd a (by omega) haligned, ofByte_toByte config, entry_configurePmp⟩

/-- The SRAM entry. -/
theorem configurePmp_decodes_sram :
    Napot.regionBase 32 (napotVal 0x3FC80000 (BitVec.ofNat 32 (2 ^ 19))).toNat = 0x3FC80000 ∧
      Napot.regionSize 32 (napotVal 0x3FC80000 (BitVec.ofNat 32 (2 ^ 19))).toNat = 2 ^ 19 ∧
      Entry (configurePmp 3 0x3FC80000 (BitVec.ofNat 32 (2 ^ 19)) sramConfig zeroRegs) 3 0x3FC80000
        (BitVec.ofNat 32 (2 ^ 19)) sramConfig := by
  obtain ⟨⟨hbase, hsize⟩, -, -, hentry⟩ :=
    configurePmp_decodes (k := 19) (by decide) (by decide) 0x3FC80000 (by decide) sramConfig 3 zeroRegs
  exact ⟨hbase, hsize, hentry (by decide)⟩

theorem not_matches_of_off (h : r.mode i = .off) : ¬ r.Matches i a := by
  unfold PmpRegs.Matches
  rw [h]
  exact id

/-! ## The rights of the running task -/

def InFlash (a : Word) : Prop := 0x42000000 ≤ a.toNat ∧ a.toNat < 0x42400000

def InSram (a : Word) : Prop := 0x3FC80000 ≤ a.toNat ∧ a.toNat < 0x3FD00000

/-- The address lies in the stack of the Watchdog or of Task A, and that task is not the one
called `name`. -/
def Hidden (L : StackLayout) (name : String) (a : Word) : Prop :=
  (L.InStack .watchdog a ∧ name ≠ StackTask.watchdog.name) ∨
    (L.InStack .taskA a ∧ name ≠ StackTask.taskA.name)

instance (a : Word) : Decidable (InFlash a) := by
  unfold InFlash
  infer_instance

instance (a : Word) : Decidable (InSram a) := by
  unfold InSram
  infer_instance

instance (L : StackLayout) (name : String) (a : Word) : Decidable (Hidden L name a) := by
  unfold Hidden
  infer_instance

theorem Booted.matches_flash (h : Booted r) : r.Matches 0 a ↔ InFlash a :=
  h.flash.matches_iff (k := 19) rfl (by decide) (by decide) (by decide)

theorem Booted.matches_sram (h : Booted r) : r.Matches 3 a ↔ InSram a :=
  h.sram.matches_iff (k := 16) rfl (by decide) (by decide) (by decide)

theorem Programmed.matches_stack {name : String} (h : Programmed L name r) (t : StackTask) :
    r.Matches t.entry.castSucc a ↔ L.InStack t a ∧ name ≠ t.name := by
  have hs := h.stack t
  by_cases hn : t.name = name
  · rw [StackEntry, if_pos hn] at hs
    have hoff := not_matches_of_off (a := a) ((mode_of_cfg hs.cfg).trans rfl)
    simp [hoff, hn]
  · rw [StackEntry, if_neg hn] at hs
    have hne : name ≠ t.name := fun he => hn he.symm
    have hm := hs.matches_iff (k := 7) (a := a) rfl (by decide) (by decide) (L.aligned t)
    rw [hm]
    simp [StackLayout.InStack, hne]

theorem StackLayout.InStack.inSram {t : StackTask} (h : L.InStack t a) : InSram a := by
  have := L.inSram t
  unfold StackLayout.InStack at h
  unfold InSram
  omega

theorem InSram.not_inFlash (h : InSram a) : ¬ InFlash a := by
  unfold InSram at h
  unfold InFlash
  omega

theorem Programmed.decides_eq {name : String} (h : Programmed L name r) :
    (InFlash a ∧ r.decides a = some 0) ∨
    (InSram a ∧ Hidden L name a ∧ (r.decides a = some 1 ∨ r.decides a = some 2)) ∨
    (InSram a ∧ ¬ Hidden L name a ∧ r.decides a = some 3) ∨
    (¬ InFlash a ∧ ¬ InSram a ∧ r.decides a = none) := by
  have m0 := h.booted.matches_flash (a := a)
  have m3 := h.booted.matches_sram (a := a)
  have m1 : r.Matches 1 a ↔ _ := h.matches_stack .watchdog
  have m2 : r.Matches 2 a ↔ _ := h.matches_stack .taskA
  have m4 : r.Matches 4 a ↔ _ := h.matches_stack .taskB
  have m5 : r.Matches 5 a ↔ _ := h.matches_stack .taskC
  have m6 : r.Matches 6 a ↔ _ := h.matches_stack .hsm
  have m7 : ¬ r.Matches 7 a := not_matches_of_off h.booted.spare
  by_cases hf : InFlash a
  · exact Or.inl ⟨hf, by simp [PmpRegs.decides, m0, hf]⟩
  · by_cases hs : InSram a
    · by_cases hh : Hidden L name a
      · refine Or.inr (Or.inl ⟨hs, hh, ?_⟩)
        by_cases h1 : r.Matches 1 a
        · exact Or.inl (by simp [PmpRegs.decides, m0, hf, h1])
        · have h2 : r.Matches 2 a := m2.mpr (hh.resolve_left fun hw => h1 (m1.mpr hw))
          exact Or.inr (by simp [PmpRegs.decides, m0, hf, h1, h2])
      · refine Or.inr (Or.inr (Or.inl ⟨hs, hh, ?_⟩))
        have h1 : ¬ r.Matches 1 a := fun hm => hh (Or.inl (m1.mp hm))
        have h2 : ¬ r.Matches 2 a := fun hm => hh (Or.inr (m2.mp hm))
        simp [PmpRegs.decides, m0, hf, h1, h2, m3, hs]
    · refine Or.inr (Or.inr (Or.inr ⟨hf, hs, ?_⟩))
      have h1 : ¬ r.Matches 1 a := fun hm => hs (m1.mp hm).1.inSram
      have h2 : ¬ r.Matches 2 a := fun hm => hs (m2.mp hm).1.inSram
      have h4 : ¬ r.Matches 4 a := fun hm => hs (m4.mp hm).1.inSram
      have h5 : ¬ r.Matches 5 a := fun hm => hs (m5.mp hm).1.inSram
      have h6 : ¬ r.Matches 6 a := fun hm => hs (m6.mp hm).1.inSram
      simp [PmpRegs.decides, m0, hf, h1, h2, m3, hs, h4, h5, h6, m7]

theorem Programmed.cfg_of_hidden {name : String} (h : Programmed L name r)
    (hi : r.decides a = some 1 ∨ r.decides a = some 2) :
    ∃ i, r.decides a = some i ∧ r.cfg i = blockConfig.toByte := by
  have hblock : ∀ t : StackTask, r.Matches t.entry.castSucc a →
      r.cfg t.entry.castSucc = blockConfig.toByte := by
    intro t hm
    have hne := ((h.matches_stack t).mp hm).2
    have hs := h.stack t
    rw [StackEntry, if_neg (fun he => hne he.symm)] at hs
    exact hs.cfg
  have hfound : ∀ j, r.decides a = some j → r.Matches j a := by
    intro j hj
    simpa using List.find?_some hj
  rcases hi with hi | hi
  · exact ⟨1, hi, hblock .watchdog (hfound 1 hi)⟩
  · exact ⟨2, hi, hblock .taskA (hfound 2 hi)⟩

/-- The rights of the running task: flash without writing, and SRAM without executing except the
hidden stacks. -/
theorem Programmed.uModeMay_iff {name : String} (h : Programmed L name r) (acc : Access)
    (a : Word) :
    uModeMay r acc a = true ↔
      (InFlash a ∧ acc ≠ .write) ∨ (InSram a ∧ ¬ Hidden L name a ∧ acc ≠ .execute) := by
  rcases h.decides_eq (a := a) with ⟨hf, hd⟩ | ⟨hs, hh, hd⟩ | ⟨hs, hh, hd⟩ | ⟨hf, hs, hd⟩
  · have hns : ¬ InSram a := fun hs => hs.not_inFlash hf
    simp only [uModeMay, hd, h.booted.flash.cfg, cfgPermits_toByte, hf, hns]
    cases acc <;> simp [flashConfig]
  · obtain ⟨j, hj, hc⟩ := h.cfg_of_hidden hd
    have hnf := hs.not_inFlash
    simp only [uModeMay, hj, hc, cfgPermits_toByte, hnf, hh]
    cases acc <;> simp [blockConfig]
  · have hnf := hs.not_inFlash
    simp only [uModeMay, hd, h.booted.sram.cfg, cfgPermits_toByte, hs, hh, hnf]
    cases acc <;> simp [sramConfig]
  · simp [uModeMay, hd, hf, hs]

/-! ## Isolation of the task stacks -/

/-- U-mode can neither read, write nor execute any address of the stack of `t`. -/
def StackIsolated (L : StackLayout) (r : PmpRegs) (t : StackTask) : Prop :=
  ∀ a, L.InStack t a → ∀ acc, uModeMay r acc a = false

def StackUsable (L : StackLayout) (r : PmpRegs) (t : StackTask) : Prop :=
  ∀ a, L.InStack t a → uModeMay r .read a = true ∧ uModeMay r .write a = true

/-- Spatial isolation while the task called `running` executes. -/
def SpatialIsolation (L : StackLayout) (r : PmpRegs) (running : String) : Prop :=
  (∀ t : StackTask, t.name ≠ running → StackIsolated L r t) ∧
    ∀ t : StackTask, t.name = running → StackUsable L r t

theorem StackLayout.InStack.unique {t u : StackTask} (ht : L.InStack t a) (hu : L.InStack u a) :
    t = u := by
  by_contra hne
  have := L.disjoint t u hne
  unfold StackLayout.InStack at ht hu
  omega

theorem inStack_base (L : StackLayout) (t : StackTask) : L.InStack t (L.base t) := by
  unfold StackLayout.InStack
  omega

theorem hidden_in_stack {name : String} {t : StackTask} (ht : L.InStack t a) :
    Hidden L name a ↔ (t = .watchdog ∨ t = .taskA) ∧ t.name ≠ name := by
  constructor
  · rintro (⟨hw, hn⟩ | ⟨hw, hn⟩)
    · have : t = .watchdog := ht.unique hw
      subst this
      exact ⟨Or.inl rfl, hn.symm⟩
    · have : t = .taskA := ht.unique hw
      subst this
      exact ⟨Or.inr rfl, hn.symm⟩
  · rintro ⟨rfl | rfl, hn⟩
    · exact Or.inl ⟨ht, hn.symm⟩
    · exact Or.inr ⟨ht, hn.symm⟩

theorem Programmed.stackUsable {name : String} (h : Programmed L name r) {t : StackTask}
    (hvis : ¬ ((t = .watchdog ∨ t = .taskA) ∧ t.name ≠ name)) : StackUsable L r t := by
  intro a ha
  have hh : ¬ Hidden L name a := fun hh => hvis ((hidden_in_stack ha).mp hh)
  exact ⟨(h.uModeMay_iff .read a).mpr (Or.inr ⟨ha.inSram, hh, by decide⟩),
    (h.uModeMay_iff .write a).mpr (Or.inr ⟨ha.inSram, hh, by decide⟩)⟩

theorem Programmed.stackIsolated_iff {name : String} (h : Programmed L name r) {t : StackTask}
    (hne : t.name ≠ name) : StackIsolated L r t ↔ t = .watchdog ∨ t = .taskA := by
  constructor
  · intro hiso
    by_contra hvis
    have huse := h.stackUsable (t := t) (fun hc => hvis hc.1) (L.base t) (inStack_base L t)
    have hden := hiso (L.base t) (inStack_base L t) .read
    rw [huse.1] at hden
    cases hden
  · intro ht a ha acc
    have hh : Hidden L name a := (hidden_in_stack ha).mpr ⟨ht, hne⟩
    rw [Bool.eq_false_iff]
    intro hmay
    rcases (h.uModeMay_iff acc a).mp hmay with ⟨hf, -⟩ | ⟨-, hn, -⟩
    · exact ha.inSram.not_inFlash hf
    · exact hn hh

/-- Of the stacks of the tasks that do not run, exactly those of the Watchdog and Task A are
isolated, whatever ran before; the running task's own stack is usable; and with three stacks
always left open the isolation of all of them never holds. -/
theorem stack_isolation_exact (L : StackLayout) (r : PmpRegs) (hr : r.Reset) (names : List String)
    (running : String) :
    (∀ t : StackTask, t.name ≠ running →
      (StackIsolated L (pmpAfter L r (names ++ [running])) t ↔ t = .watchdog ∨ t = .taskA)) ∧
    (∀ t : StackTask, t.name = running → StackUsable L (pmpAfter L r (names ++ [running])) t) ∧
    ¬ SpatialIsolation L (pmpAfter L r (names ++ [running])) running := by
  have h := programmed_pmpAfter (L := L) hr names running
  refine ⟨fun t ht => h.stackIsolated_iff ht, fun t ht => h.stackUsable fun hc => hc.2 ht, ?_⟩
  rintro ⟨hiso, -⟩
  -- Task B and Task C cannot both be the running task
  by_cases hB : StackTask.taskB.name = running
  · have hC : StackTask.taskC.name ≠ running := by
      rw [← hB]
      decide
    have := (h.stackIsolated_iff hC).mp (hiso .taskC hC)
    simp at this
  · have := (h.stackIsolated_iff hB).mp (hiso .taskB hB)
    simp at this

theorem stack_isolation_exact_packed :
    StackIsolated packedLayout (pmpAfter packedLayout zeroRegs ["Task C"]) .taskA ∧
    StackUsable packedLayout (pmpAfter packedLayout zeroRegs ["Task C"]) .taskC :=
  have h := stack_isolation_exact packedLayout zeroRegs zeroRegs_reset [] "Task C"
  ⟨(h.1 .taskA (by decide)).mpr (Or.inr rfl), h.2.1 .taskC rfl⟩

/-- While Task A runs it may write the first byte of Task B's stack. -/
theorem task_a_writes_task_b_stack :
    uModeMay (pmpAfter packedLayout zeroRegs ["Task A"]) .write 0x3FC80800 = true ∧
    ¬ SpatialIsolation packedLayout (pmpAfter packedLayout zeroRegs ["Task A"]) "Task A" := by
  have hp : Programmed packedLayout "Task A" (pmpAfter packedLayout zeroRegs ["Task A"]) :=
    programmed_pmpAfter zeroRegs_reset [] "Task A"
  have huse := hp.stackUsable (t := .taskB) (by decide) 0x3FC80800 (by decide)
  refine ⟨huse.2, fun hiso => ?_⟩
  have hden := hiso.1 .taskB (by decide) 0x3FC80800 (by decide) .write
  rw [huse.2] at hden
  cases hden

end Cerberus.Memory
