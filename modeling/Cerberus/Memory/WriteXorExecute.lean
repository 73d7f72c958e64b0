import Cerberus.Memory.Isolation

/-! # Write xor execute

No entry that `init_memory_protection` and `reprogram_pmp_stack` program grants both writing and
executing, so no address does. -/
namespace Cerberus.Memory
set_option autoImplicit false

/-- No entry in use grants both. -/
def NoWriteExecute (r : PmpRegs) : Prop :=
  ∀ i, r.mode i = .off ∨ cfgPermits (r.cfg i) .write = false ∨ cfgPermits (r.cfg i) .execute = false

variable {L : StackLayout} {r : PmpRegs}

theorem noWriteExecute_of_reset (hr : r.Reset) : NoWriteExecute r := fun i => Or.inl (hr i).1

theorem NoWriteExecute.configurePmp (hr : NoWriteExecute r) (e : Fin 7) (base size : Word)
    {c : PmpConfig} (hc : c.write = false ∨ c.execute = false) :
    NoWriteExecute (configurePmp e base size c r) := by
  intro j
  by_cases hj : j = e.castSucc ∧ r.locked e.castSucc = false
  · have hcfg : (Memory.configurePmp e base size c r).cfg j = c.toByte := by
      rw [cfg_configurePmp, if_pos hj]
    rw [hcfg, cfgPermits_toByte, cfgPermits_toByte]
    exact Or.inr hc
  · have hcfg : (Memory.configurePmp e base size c r).cfg j = r.cfg j := by
      rw [cfg_configurePmp, if_neg hj]
    have hmode : (Memory.configurePmp e base size c r).mode j = r.mode j := by
      rw [PmpRegs.mode, PmpRegs.mode, hcfg]
    rw [hmode, hcfg]
    exact hr j

theorem NoWriteExecute.initMemoryProtection (hr : NoWriteExecute r) (L : StackLayout) :
    NoWriteExecute (initMemoryProtection L r) := by
  unfold Memory.initMemoryProtection
  refine ((((((hr.configurePmp 0 _ _ ?_).configurePmp 1 _ _ ?_).configurePmp 2 _ _ ?_).configurePmp 4
    _ _ ?_).configurePmp 5 _ _ ?_).configurePmp 6 _ _ ?_).configurePmp 3 _ _ ?_
  all_goals decide

theorem NoWriteExecute.reprogramPmpStack (hr : NoWriteExecute r) (L : StackLayout) (name : String) :
    NoWriteExecute (reprogramPmpStack L name r) := by
  unfold Memory.reprogramPmpStack
  generalize ([.watchdog, .taskA, .taskB, .taskC, .hsm] : List StackTask) = ts
  induction ts generalizing r with
  | nil => exact hr
  | cons t ts ih =>
    refine ih ?_
    unfold reprogramEntry
    split
    · exact hr.configurePmp _ _ _ (by decide)
    · exact hr.configurePmp _ _ _ (by decide)

theorem noWriteExecute_pmpAfter (hr : r.Reset) (names : List String) :
    NoWriteExecute (pmpAfter L r names) := by
  unfold pmpAfter
  have hinit := (noWriteExecute_of_reset hr).initMemoryProtection L
  generalize Memory.initMemoryProtection L r = r0 at hinit
  induction names generalizing r0 with
  | nil => exact hinit
  | cons name names ih => exact ih _ (hinit.reprogramPmpStack L name)

theorem NoWriteExecute.uModeMay (hr : NoWriteExecute r) (a : Word) :
    ¬ (uModeMay r .write a = true ∧ uModeMay r .execute a = true) := by
  rintro ⟨hwrite, hexecute⟩
  unfold Memory.uModeMay at hwrite hexecute
  cases hd : r.decides a with
  | none =>
    rw [hd] at hwrite
    cases hwrite
  | some i =>
    rw [hd] at hwrite hexecute
    have hmatch : r.Matches i a := by simpa using List.find?_some hd
    rcases hr i with hoff | hno | hno
    · exact not_matches_of_off hoff hmatch
    · exact absurd (hno.symm.trans hwrite) (by decide)
    · exact absurd (hno.symm.trans hexecute) (by decide)

theorem Booted.decides_flash (h : Booted r) {a : Word} (ha : InFlash a) : r.decides a = some 0 := by
  have hmatch : r.Matches 0 a := h.matches_flash.mpr ha
  simp [PmpRegs.decides, hmatch]

/-- After boot and any sequence of `reprogram_pmp_stack` calls, no address is both writable and
executable in U-mode, flash is read and execute only, and its locked entry is as boot left it; and no
`configure_pmp` call changes the configuration byte of another entry. -/
theorem write_xor_execute (L : StackLayout) (r : PmpRegs) (hr : r.Reset) (names : List String) :
    (∀ a, ¬ (uModeMay (pmpAfter L r names) .write a = true ∧
      uModeMay (pmpAfter L r names) .execute a = true)) ∧
    (∀ a, InFlash a → uModeMay (pmpAfter L r names) .read a = true ∧
      uModeMay (pmpAfter L r names) .write a = false ∧
      uModeMay (pmpAfter L r names) .execute a = true) ∧
    ((pmpAfter L r names).locked 0 = true ∧
      (pmpAfter L r names).cfg 0 = (initMemoryProtection L r).cfg 0 ∧
      (pmpAfter L r names).pmpaddr 0 = (initMemoryProtection L r).pmpaddr 0) ∧
    ∀ (r' : PmpRegs) (e : Fin 7) (base size : Word) (c : PmpConfig) (j : Fin 8), j ≠ e.castSucc →
      (configurePmp e base size c r').cfg j = r'.cfg j := by
  have hboot : Booted (pmpAfter L r names) := booted_pmpAfter hr names
  have hinit : Booted (initMemoryProtection L r) := booted_initMemoryProtection hr
  refine ⟨(noWriteExecute_pmpAfter hr names).uModeMay, fun a ha => ?_, ⟨?_, ?_, ?_⟩,
    fun r' e base size c j hj => (configurePmp_other hj).1⟩
  · have hmay : ∀ acc, uModeMay (pmpAfter L r names) acc a = cfgPermits flashConfig.toByte acc := by
      intro acc
      simp only [uModeMay, hboot.decides_flash ha, hboot.flash.cfg]
    exact ⟨hmay .read, hmay .write, hmay .execute⟩
  · rw [PmpRegs.locked, hboot.flash.cfg]
    decide
  · rw [hboot.flash.cfg, hinit.flash.cfg]
  · rw [hboot.flash.addr, hinit.flash.addr]

/-- The packed layout, from cleared registers: Task A, a name nobody has, Task C. -/
theorem write_xor_execute_packed :
    zeroRegs.Reset ∧ ∀ a, ¬ (uModeMay (pmpAfter packedLayout zeroRegs ["Task A", "", "Task C"]) .write a ∧
      uModeMay (pmpAfter packedLayout zeroRegs ["Task A", "", "Task C"]) .execute a) :=
  ⟨zeroRegs_reset, (write_xor_execute packedLayout zeroRegs zeroRegs_reset _).1⟩

end Cerberus.Memory
