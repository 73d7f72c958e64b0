import Cerberus.Memory.Pmp

/-! # What the PMP calls leave in the registers

One lemma per register for `configure_pmp`, and from it the contents of all eight entries after
boot and any sequence of `reprogram_pmp_stack` calls: only the last name matters. -/
namespace Cerberus.Memory
open Cerberus.Word
set_option autoImplicit false

variable {L : StackLayout} {r : PmpRegs} {e : Fin 7} {base size : Word} {c : PmpConfig}

/-! ## One call of `configure_pmp` -/

theorem bankByte_inj {i j : Fin 8} (h : i.val / 4 = j.val / 4) : bankByte i = bankByte j ↔ i = j := by
  simp only [bankByte, Fin.ext_iff]
  omega

@[simp] theorem cfg_writeAddr (r : PmpRegs) (i j : Fin 8) (v : Word) :
    (r.writeAddr i v).cfg j = r.cfg j := by
  unfold PmpRegs.writeAddr
  split <;> rfl

theorem pmpaddr_writeAddr (r : PmpRegs) (i j : Fin 8) (v : Word) :
    (r.writeAddr i v).pmpaddr j = if j = i ∧ r.locked i = false then v else r.pmpaddr j := by
  unfold PmpRegs.writeAddr
  cases hl : r.locked i
  · by_cases hj : j = i
    · subst hj
      simp
    · simp [hj]
  · simp

/-- Writing back a bank with the byte of entry `i` replaced changes that byte alone, and only
when the entry is unlocked. -/
theorem cfg_writeCfg (r : PmpRegs) (i j : Fin 8) (b : Byte) :
    (if i.val / 4 = 0 then r.writeCfg0 (setByte r.pmpcfg0 (bankByte i) b)
      else r.writeCfg1 (setByte r.pmpcfg1 (bankByte i) b)).cfg j =
      if j = i ∧ r.locked i = false then b else r.cfg j := by
  by_cases hi : i.val < 4
  · have hi0 : i.val / 4 = 0 := by omega
    rw [if_pos hi0]
    by_cases hj : j.val < 4
    · have hbank : bankByte j = bankByte i ↔ j = i := bankByte_inj (by omega)
      simp only [PmpRegs.cfg, PmpRegs.writeCfg0, PmpRegs.locked, if_pos hi, if_pos hj,
        getByte_mergeBytes, getByte_setByte, hbank]
      by_cases hji : j = i
      · subst hji
        cases (getByte r.pmpcfg0 (bankByte j)).getLsbD 7 <;> simp
      · simp [hji]
    · have hji : j ≠ i := fun h => hj (h ▸ hi)
      simp [PmpRegs.cfg, PmpRegs.writeCfg0, hj, hji]
  · have hi0 : ¬ i.val / 4 = 0 := by omega
    rw [if_neg hi0]
    by_cases hj : j.val < 4
    · have hji : j ≠ i := fun h => hi (h ▸ hj)
      simp [PmpRegs.cfg, PmpRegs.writeCfg1, hj, hji]
    · have hbank : bankByte j = bankByte i ↔ j = i := bankByte_inj (by omega)
      simp only [PmpRegs.cfg, PmpRegs.writeCfg1, PmpRegs.locked, if_neg hi, if_neg hj,
        getByte_mergeBytes, getByte_setByte, hbank]
      by_cases hji : j = i
      · subst hji
        cases (getByte r.pmpcfg1 (bankByte j)).getLsbD 7 <;> simp
      · simp [hji]

theorem cfg_configurePmp (e : Fin 7) (base size : Word) (c : PmpConfig) (r : PmpRegs) (j : Fin 8) :
    (configurePmp e base size c r).cfg j =
      if j = e.castSucc ∧ r.locked e.castSucc = false then c.toByte else r.cfg j := by
  have h := cfg_writeCfg (r.writeAddr e.castSucc (napotVal base size)) e.castSucc j c.toByte
  simp only [PmpRegs.locked, cfg_writeAddr] at h
  exact h

theorem pmpaddr_configurePmp (e : Fin 7) (base size : Word) (c : PmpConfig) (r : PmpRegs)
    (j : Fin 8) :
    (configurePmp e base size c r).pmpaddr j =
      if j = e.castSucc ∧ r.locked e.castSucc = false then napotVal base size
      else r.pmpaddr j := by
  have h := pmpaddr_writeAddr r e.castSucc j (napotVal base size)
  unfold configurePmp
  simp only
  split <;> exact h

theorem configurePmp_self (h : r.locked e.castSucc = false) :
    (configurePmp e base size c r).cfg e.castSucc = c.toByte ∧
      (configurePmp e base size c r).pmpaddr e.castSucc = napotVal base size := by
  rw [cfg_configurePmp, pmpaddr_configurePmp]
  simp [h]

theorem configurePmp_other {j : Fin 8} (h : j ≠ e.castSucc) :
    (configurePmp e base size c r).cfg j = r.cfg j ∧
      (configurePmp e base size c r).pmpaddr j = r.pmpaddr j := by
  rw [cfg_configurePmp, pmpaddr_configurePmp]
  simp [h]

/-! ## Boot and reprogramming -/

/-- Entry `i` is programmed as `configure_pmp` would with `base`, `size` and `c`. -/
structure Entry (r : PmpRegs) (i : Fin 8) (base size : Word) (c : PmpConfig) : Prop where
  cfg : r.cfg i = c.toByte
  addr : r.pmpaddr i = napotVal base size

theorem entry_configurePmp (h : r.locked e.castSucc = false) :
    Entry (configurePmp e base size c r) e.castSucc base size c :=
  ⟨(configurePmp_self h).1, (configurePmp_self h).2⟩

theorem Entry.configurePmp_other {i : Fin 8} {base' size' : Word} {c' : PmpConfig}
    (h : Entry r i base size c) (hi : i ≠ e.castSucc) :
    Entry (configurePmp e base' size' c' r) i base size c :=
  ⟨(Memory.configurePmp_other hi).1.trans h.cfg, (Memory.configurePmp_other hi).2.trans h.addr⟩

theorem locked_configurePmp (hc : c.toByte.getLsbD 7 = false) {j : Fin 8}
    (h : r.locked j = false) : (configurePmp e base size c r).locked j = false := by
  rw [PmpRegs.locked, cfg_configurePmp]
  split
  · exact hc
  · exact h

/-- The part of the register file that no `reprogram_pmp_stack` call changes. -/
structure Booted (r : PmpRegs) : Prop where
  flash : Entry r 0 0x42000000 (4 * 1024 * 1024) flashConfig
  sram : Entry r 3 0x3FC80000 (512 * 1024) sramConfig
  unlocked : ∀ t : StackTask, r.locked t.entry.castSucc = false
  spare : r.mode 7 = .off

/-- The entry of one stack while `name` is active. -/
def StackEntry (L : StackLayout) (name : String) (r : PmpRegs) (t : StackTask) : Prop :=
  if t.name = name then Entry r t.entry.castSucc 0 1024 offConfig
  else Entry r t.entry.castSucc (L.base t) 1024 blockConfig

theorem entry_injective {t u : StackTask} (h : t.entry = u.entry) : t = u := by
  cases t <;> cases u <;> simp [StackTask.entry] at h ⊢

theorem stack_entry_ne (t : StackTask) :
    (0 : Fin 8) ≠ t.entry.castSucc ∧ (3 : Fin 8) ≠ t.entry.castSucc ∧
      (7 : Fin 8) ≠ t.entry.castSucc := by
  cases t <;> decide

theorem booted_configurePmp (h : Booted r) (t : StackTask) (hc : c.toByte.getLsbD 7 = false) :
    Booted (configurePmp t.entry base size c r) where
  flash := h.flash.configurePmp_other (stack_entry_ne t).1
  sram := h.sram.configurePmp_other (stack_entry_ne t).2.1
  unlocked := fun u => locked_configurePmp hc (h.unlocked u)
  spare := by
    have h7 : (configurePmp t.entry base size c r).cfg 7 = r.cfg 7 :=
      (configurePmp_other (stack_entry_ne t).2.2).1
    rw [PmpRegs.mode, h7]
    exact h.spare

theorem booted_reprogramEntry (h : Booted r) (name : String) (t : StackTask) :
    Booted (reprogramEntry L name r t) := by
  unfold reprogramEntry
  split
  · exact booted_configurePmp h t (by decide)
  · exact booted_configurePmp h t (by decide)

theorem stackEntry_reprogramEntry_self (h : Booted r) (name : String) (t : StackTask) :
    StackEntry L name (reprogramEntry L name r t) t := by
  unfold StackEntry reprogramEntry
  split
  · exact entry_configurePmp (h.unlocked t)
  · exact entry_configurePmp (h.unlocked t)

theorem stackEntry_reprogramEntry_other {name : String} {t u : StackTask} (hne : u ≠ t)
    (h : StackEntry L name r u) : StackEntry L name (reprogramEntry L name r t) u := by
  have hi : u.entry.castSucc ≠ t.entry.castSucc := fun he =>
    hne (entry_injective (Fin.castSucc_injective 7 he))
  have hkeep : ∀ {base size : Word} {c : PmpConfig}, Entry r u.entry.castSucc base size c →
      Entry (reprogramEntry L name r t) u.entry.castSucc base size c := by
    intro base size c he
    unfold reprogramEntry
    split
    · exact he.configurePmp_other hi
    · exact he.configurePmp_other hi
  by_cases hu : u.name = name
  · rw [StackEntry, if_pos hu] at h ⊢
    exact hkeep h
  · rw [StackEntry, if_neg hu] at h ⊢
    exact hkeep h

theorem reprogram_fold (name : String) (ts : List StackTask) (h : Booted r) :
    Booted (ts.foldl (reprogramEntry L name) r) ∧
      ∀ u, (u ∈ ts ∨ StackEntry L name r u) →
        StackEntry L name (ts.foldl (reprogramEntry L name) r) u := by
  induction ts generalizing r with
  | nil => exact ⟨h, fun u hu => by simpa using hu⟩
  | cons t ts ih =>
    obtain ⟨hb, hs⟩ := ih (booted_reprogramEntry (L := L) h name t)
    refine ⟨hb, fun u hu => hs u ?_⟩
    by_cases hut : u = t
    · subst hut
      exact Or.inr (stackEntry_reprogramEntry_self h name u)
    · rcases hu with hu | hu
      · exact Or.inl (by simpa [hut] using hu)
      · exact Or.inr (stackEntry_reprogramEntry_other hut hu)

/-- The registers while the task called `name` runs. -/
structure Programmed (L : StackLayout) (name : String) (r : PmpRegs) : Prop where
  booted : Booted r
  stack : ∀ t, StackEntry L name r t

theorem programmed_reprogramPmpStack (h : Booted r) (name : String) :
    Programmed L name (reprogramPmpStack L name r) := by
  obtain ⟨hb, hs⟩ := reprogram_fold (L := L) name [.watchdog, .taskA, .taskB, .taskC, .hsm] h
  exact ⟨hb, fun t => hs t (Or.inl (by cases t <;> decide))⟩

theorem booted_initMemoryProtection (h : r.Reset) : Booted (initMemoryProtection L r) := by
  have hl : ∀ j, r.locked j = false := fun j => (h j).2
  have hb : blockConfig.toByte.getLsbD 7 = false := by decide
  have hs : sramConfig.toByte.getLsbD 7 = false := by decide
  -- the lock bits after the flash entry, and after each later call
  have h0 : ∀ j : Fin 8, j ≠ 0 →
      (configurePmp 0 0x42000000 (4 * 1024 * 1024) flashConfig r).locked j = false := by
    intro j hj
    rw [PmpRegs.locked, (configurePmp_other (e := 0) hj).1]
    exact hl j
  unfold initMemoryProtection
  refine ⟨?_, ?_, ?_, ?_⟩
  · have hf : Entry (configurePmp 0 0x42000000 (4 * 1024 * 1024) flashConfig r) 0 0x42000000
        (4 * 1024 * 1024) flashConfig := entry_configurePmp (hl 0)
    iterate 6 refine Entry.configurePmp_other ?_ (by decide)
    exact hf
  · refine entry_configurePmp ?_
    iterate 5 refine locked_configurePmp hb ?_
    exact h0 3 (by decide)
  · intro t
    refine locked_configurePmp hs ?_
    iterate 5 refine locked_configurePmp hb ?_
    exact h0 _ (stack_entry_ne t).1.symm
  · have h7 := (h 7).1
    rw [PmpRegs.mode] at h7 ⊢
    iterate 7 rw [(configurePmp_other (j := 7) (by decide)).1]
    exact h7

theorem booted_pmpAfter (h : r.Reset) (names : List String) : Booted (pmpAfter L r names) := by
  unfold pmpAfter
  induction names using List.reverseRecOn with
  | nil => exact booted_initMemoryProtection h
  | append_singleton names name ih =>
    rw [List.foldl_append]
    exact (programmed_reprogramPmpStack ih name).booted

/-- After any sequence of calls the registers are those of the last name. -/
theorem programmed_pmpAfter (h : r.Reset) (names : List String) (name : String) :
    Programmed L name (pmpAfter L r (names ++ [name])) := by
  unfold pmpAfter
  rw [List.foldl_append]
  exact programmed_reprogramPmpStack (booted_pmpAfter h names) name

end Cerberus.Memory
