import Cerberus.Boot.PowerOn
import Cerberus.Foundations.StraightLine

/-! # The boot handshake

`BOOT_BARRIER` and `CORE_1_READY` order the two paths through `kmain`. What a step of either path
establishes is never taken back, so a hart that has passed a flag knows what the other had done before
it set the flag; `boot_order` is what a hart in U-mode knows, in any interleaving and with either hart
taking traps while the other is still in `kmain`. -/
namespace Cerberus.Boot
open Kernel Scheduler Sync Memory Transition StraightLine
set_option autoImplicit false

theorem kmain_nodup (h : Hart) : (kmain h).Nodup := by
  revert h
  decide

/-! ## What a step leaves behind -/

/-- The slot a task is registered in. -/
def bootSlot (i : Fin 7) : TaskId := ((bootTask i).1, Fin.ofNat MAX_PARTITIONS (bootTask i).2.priority.toNat)

def Post (B : Board) (h : Hart) : BootStep → Machine → Prop
  | .setTrapVector, m => (m.cores h).mtvec = B.trapEntry
  | .verifySecureBoot, _ => verifySecureBoot B.build = true
  | .registerTask i, m => (view m.kernel).static (bootSlot i) = bootStatic (bootSlot i)
  | .initTimer, m => (m.cores h).mie.getLsbD 7 = true ∧ (m.cores h).mcounteren = 1#32
  | .releaseCore1, m => m.bootBarrier = true
  | .awaitBarrier, m => m.bootBarrier = true
  | .signalReady, m => m.core1Ready = true
  | .awaitCore1, m => m.core1Ready = true
  | .startFirstTask, m => (m.cores h).mode = .user
  | _, _ => True

/-- What no event takes back. -/
structure Evolves (B : Board) (m m' : Machine) : Prop where
  mtvec : ∀ h, (m.cores h).mtvec = B.trapEntry → (m'.cores h).mtvec = B.trapEntry
  timer : ∀ h, (m.cores h).mie.getLsbD 7 = true ∧ (m.cores h).mcounteren = 1#32 →
    (m'.cores h).mie.getLsbD 7 = true ∧ (m'.cores h).mcounteren = 1#32
  mode : ∀ h, (m.cores h).mode ≠ .kmain → (m'.cores h).mode = (m.cores h).mode
  registered : ∀ x, (view m.kernel).static x = bootStatic x → (view m'.kernel).static x = bootStatic x
  bootBarrier : m.bootBarrier = true → m'.bootBarrier = true
  core1Ready : m.core1Ready = true → m'.core1Ready = true

section Evolves
variable {B : Board} {h : Hart} {m m1 m' : Machine} {x : BootStep}

theorem Evolves.refl (B : Board) (m : Machine) : Evolves B m m :=
  ⟨fun _ => id, fun _ => id, fun _ _ => rfl, fun _ => id, id, id⟩

theorem Evolves.trans (h1 : Evolves B m m1) (h2 : Evolves B m1 m') : Evolves B m m' where
  mtvec := fun h hm => h2.mtvec h (h1.mtvec h hm)
  timer := fun h hm => h2.timer h (h1.timer h hm)
  mode := fun h hm => by
    have h1' := h1.mode h hm
    exact (h2.mode h (h1' ▸ hm)).trans h1'
  registered := fun x hx => h2.registered x (h1.registered x hx)
  bootBarrier := fun hm => h2.bootBarrier (h1.bootBarrier hm)
  core1Ready := fun hm => h2.core1Ready (h1.core1Ready hm)

theorem Evolves.setKernel {k : Kernel}
    (hk : ∀ x, (view m.kernel).static x = bootStatic x → (view k).static x = bootStatic x) :
    Evolves B m (m.setKernel k) :=
  { Evolves.refl B m with registered := hk }

theorem Evolves.setCore {c : Core} (hmtvec : (m.cores h).mtvec = B.trapEntry → c.mtvec = B.trapEntry)
    (htimer : (m.cores h).mie.getLsbD 7 = true ∧ (m.cores h).mcounteren = 1#32 →
      c.mie.getLsbD 7 = true ∧ c.mcounteren = 1#32)
    (hmode : (m.cores h).mode ≠ .kmain → c.mode = (m.cores h).mode) : Evolves B m (m.setCore h c) := by
  refine { Evolves.refl B m with mtvec := fun h' => ?_, timer := fun h' => ?_, mode := fun h' => ?_ }
  all_goals
    by_cases hh : h' = h
    · subst hh
      simpa only [Machine.setCore, Function.update_self]
    · simp only [Machine.setCore, Function.update_of_ne hh]
      first | exact id | exact fun _ => trivial

theorem Post.evolves (he : Evolves B m m') (hp : Post B h x m) : Post B h x m' := by
  cases x with
  | setTrapVector => exact he.mtvec h hp
  | verifySecureBoot => exact hp
  | registerTask i => exact he.registered _ hp
  | initTimer => exact he.timer h hp
  | releaseCore1 => exact he.bootBarrier hp
  | awaitBarrier => exact he.bootBarrier hp
  | signalReady => exact he.core1Ready hp
  | awaitCore1 => exact he.core1Ready hp
  | startFirstTask =>
    have hmode : (m.cores h).mode = .user := hp
    exact (he.mode h (by rw [hmode]; decide)).trans hmode
  | _ => trivial

end Evolves

/-! ## One step -/

section Exec
variable {B : Board} {h : Hart} {m m' : Machine} {x : BootStep}

theorem bootSlot_spec (i : Fin 7) : bootStatic (bootSlot i) =
    some ⟨(bootTask i).2.priority, (bootTask i).2.name, cList (bootTask i).2.capabilities⟩ := by
  fin_cases i <;> rfl

/-- The ticks and the pending bits, which only traps change. -/
def irqState (k : Kernel) : Word × (Hart → Bool) := (k.tickCount, k.msip)

/-- `register_task` fills the slot of its task as `kmain` has it, and no other. -/
theorem registerTask_spec (P : Platform) (i : Fin 7) (k : Kernel) :
    ∃ k', registerTask P (bootTask i).1 (bootTask i).2 k = some k' ∧ k'.pmp = k.pmp ∧
      irqState k' = irqState k ∧
      (view k').static = Function.update (view k).static (bootSlot i) (bootStatic (bootSlot i)) := by
  have hidx : (bootTask i).2.priority.toNat < MAX_PARTITIONS := by
    revert i
    decide
  have hslot : (⟨(bootTask i).2.priority.toNat, hidx⟩ : Fin MAX_PARTITIONS) = (bootSlot i).2 :=
    Fin.ext (Nat.mod_eq_of_lt hidx).symm
  have hprio : ((bootTask i).2.tcb P).priority = (bootTask i).2.priority := rfl
  simp only [registerTask, BitMapScheduler.registerTask, hprio, dif_pos hidx, Option.map_some, hslot]
  refine ⟨_, rfl, rfl, rfl, ?_⟩
  funext y
  obtain ⟨h, j⟩ := y
  rw [bootSlot_spec]
  by_cases hh : h = (bootTask i).1
  · subst hh
    by_cases hj : j = (bootSlot i).2
    · subst hj
      rw [show (((bootTask i).1, (bootSlot i).2) : TaskId) = bootSlot i from rfl, Function.update_self]
      simp [view, Kernel.setSched, bootSlot]
      rfl
    · rw [Function.update_of_ne fun he => hj (congrArg Prod.snd he)]
      simp [view, Kernel.setSched, Function.update_of_ne hj]
  · rw [Function.update_of_ne fun he => hh (congrArg Prod.fst he)]
    simp [view, Kernel.setSched, Function.update_of_ne hh]

theorem startFirst_spec {P : Platform} {h : Hart} {k k' : Kernel} (hk : startFirst P h k = some k') :
    (view k').static = (view k).static ∧ (∀ h', h' ≠ h → k'.pmp h' = k.pmp h') ∧
      (Booted (k.pmp h) → Booted (k'.pmp h)) ∧ irqState k' = irqState k := by
  obtain ⟨s, hs, rfl⟩ := Option.map_eq_some_iff.mp hk
  obtain ⟨i, -, rfl⟩ := Option.map_eq_some_iff.mp hs
  refine ⟨?_, fun h' hne => Function.update_of_ne hne _ _, fun hb => ?_, rfl⟩
  · have hstatics : ∀ j, statics (((k.scheds h).enterSlot i).setState i .running) j =
        statics (k.scheds h) j := fun j => statics_setState _ _ _ _
    have hview := congrArg View.static (view_setSched k h hstatics)
    exact hview
  · simp only [Kernel.setPmp, Function.update_self]
    exact (programmed_reprogramPmpStack hb _).booted

theorem exec_evolves (hmode : (m.cores h).mode = .kmain) (hx : m.exec B h x = .continues m') :
    Evolves B m m' := by
  unfold Machine.exec at hx
  cases x with
  | setTrapVector =>
    rw [← StepResult.continues.inj hx]
    exact .setCore (fun _ => rfl) id fun _ => rfl
  | initMemoryProtection =>
    rw [← StepResult.continues.inj hx]
    exact .setKernel fun _ => id
  | verifySecureBoot =>
    dsimp only at hx
    split at hx
    · rw [← StepResult.continues.inj hx]
      exact .refl B m
    · cases hx
  | verifyTamperedSecureBoot =>
    rw [← StepResult.continues.inj hx]
    exact .refl B m
  | verifyNetworkAndSecurity =>
    rw [← StepResult.continues.inj hx]
    exact { Evolves.refl B m with }
  | initializeStack i =>
    rw [← StepResult.continues.inj hx]
    exact .setKernel fun _ => id
  | registerTask i =>
    obtain ⟨k', hk', -, -, hstatic⟩ := registerTask_spec B.platform i m.kernel
    simp only [hk'] at hx
    rw [← StepResult.continues.inj hx]
    refine .setKernel fun y hy => ?_
    rw [hstatic]
    by_cases hyi : y = bootSlot i
    · rw [hyi, Function.update_self]
    · rw [Function.update_of_ne hyi, hy]
  | initTimer =>
    rw [← StepResult.continues.inj hx]
    refine .setCore id (fun _ => ⟨?_, rfl⟩) fun _ => rfl
    simp [initTimer]
  | releaseCore1 =>
    rw [← StepResult.continues.inj hx]
    exact { Evolves.refl B m with bootBarrier := fun _ => rfl }
  | awaitCore1 =>
    dsimp only at hx
    split at hx
    · rw [← StepResult.continues.inj hx]
      exact .refl B m
    · cases hx
  | awaitBarrier =>
    dsimp only at hx
    split at hx
    · rw [← StepResult.continues.inj hx]
      exact .refl B m
    · cases hx
  | signalReady =>
    rw [← StepResult.continues.inj hx]
    exact { Evolves.refl B m with core1Ready := fun _ => rfl }
  | startFirstTask =>
    dsimp only at hx
    split at hx
    · cases hx
    · rename_i k' hk'
      rw [← StepResult.continues.inj hx]
      refine (Evolves.setKernel fun y hy => ?_).trans (.setCore id id fun hne => absurd hmode hne)
      rw [(startFirst_spec hk').1, hy]

theorem exec_post (hx : m.exec B h x = .continues m') : Post B h x m' := by
  unfold Machine.exec at hx
  cases x with
  | setTrapVector =>
    rw [← StepResult.continues.inj hx]
    simp [Post, Machine.setCore]
  | verifySecureBoot =>
    dsimp only at hx
    split at hx
    · assumption
    · cases hx
  | registerTask i =>
    obtain ⟨k', hk', -, -, hstatic⟩ := registerTask_spec B.platform i m.kernel
    simp only [hk'] at hx
    rw [← StepResult.continues.inj hx]
    show (view k').static (bootSlot i) = bootStatic (bootSlot i)
    rw [hstatic, Function.update_self]
  | initTimer =>
    rw [← StepResult.continues.inj hx]
    simp [Post, Machine.setCore, initTimer]
  | releaseCore1 =>
    rw [← StepResult.continues.inj hx]
    rfl
  | awaitCore1 =>
    dsimp only at hx
    split at hx
    · rw [← StepResult.continues.inj hx]
      assumption
    · cases hx
  | awaitBarrier =>
    dsimp only at hx
    split at hx
    · rw [← StepResult.continues.inj hx]
      assumption
    · cases hx
  | signalReady =>
    rw [← StepResult.continues.inj hx]
    rfl
  | startFirstTask =>
    dsimp only at hx
    split at hx
    · cases hx
    · rw [← StepResult.continues.inj hx]
      simp [Post, Machine.setCore, enterUser]
  | _ => trivial

/-- What a step of `h` leaves alone, and where the exceptions are made. -/
structure ExecFrame (h : Hart) (m : Machine) (x : BootStep) (m' : Machine) : Prop where
  others : ∀ h', h' ≠ h → m'.cores h' = m.cores h'
  todo : (m'.cores h).todo = (m.cores h).todo
  soft : (m'.cores h).mie.getLsbD 3 = (m.cores h).mie.getLsbD 3
  user : (m'.cores h).mode = .user → (m.cores h).mode = .user ∨ x = .startFirstTask
  pmpOthers : ∀ h', h' ≠ h → m'.kernel.pmp h' = m.kernel.pmp h'
  pmp : x = .initMemoryProtection ∨ x = .startFirstTask ∨ m'.kernel.pmp h = m.kernel.pmp h
  bootBarrier : m'.bootBarrier = true → m.bootBarrier = true ∨ x = .releaseCore1
  core1Ready : m'.core1Ready = true → m.core1Ready = true ∨ x = .signalReady
  irq : irqState m'.kernel = irqState m.kernel
  mtime : m'.mtime = m.mtime

theorem ExecFrame.refl (h : Hart) (m : Machine) (x : BootStep) : ExecFrame h m x m :=
  ⟨fun _ _ => rfl, rfl, rfl, Or.inl, fun _ _ => rfl, Or.inr (Or.inr rfl), Or.inl, Or.inl,
    rfl, rfl⟩

theorem ExecFrame.setCore {c : Core} (htodo : c.todo = (m.cores h).todo)
    (hsoft : c.mie.getLsbD 3 = (m.cores h).mie.getLsbD 3)
    (huser : c.mode = .user → (m.cores h).mode = .user ∨ x = .startFirstTask) :
    ExecFrame h m x (m.setCore h c) := by
  refine ⟨fun h' hne => Function.update_of_ne hne _ _, ?_, ?_, ?_, fun _ _ => rfl, Or.inr (Or.inr rfl),
    Or.inl, Or.inl, rfl, rfl⟩
  all_goals simpa only [Machine.setCore, Function.update_self]

theorem ExecFrame.setKernel {k : Kernel} (hothers : ∀ h', h' ≠ h → k.pmp h' = m.kernel.pmp h')
    (hpmp : x = .initMemoryProtection ∨ x = .startFirstTask ∨ k.pmp h = m.kernel.pmp h)
    (hirq : irqState k = irqState m.kernel) : ExecFrame h m x (m.setKernel k) :=
  { ExecFrame.refl h m x with pmpOthers := hothers, pmp := hpmp, irq := hirq }

theorem exec_frame (hx : m.exec B h x = .continues m') : ExecFrame h m x m' := by
  unfold Machine.exec at hx
  cases x with
  | setTrapVector =>
    rw [← StepResult.continues.inj hx]
    exact .setCore rfl rfl Or.inl
  | initMemoryProtection =>
    rw [← StepResult.continues.inj hx]
    exact .setKernel (fun h' hne => Function.update_of_ne hne _ _) (Or.inl rfl) rfl
  | verifySecureBoot =>
    dsimp only at hx
    split at hx
    · rw [← StepResult.continues.inj hx]
      exact .refl h m _
    · cases hx
  | verifyTamperedSecureBoot =>
    rw [← StepResult.continues.inj hx]
    exact .refl h m _
  | verifyNetworkAndSecurity =>
    rw [← StepResult.continues.inj hx]
    exact { ExecFrame.refl h m _ with }
  | initializeStack i =>
    rw [← StepResult.continues.inj hx]
    exact .setKernel (fun _ _ => rfl) (Or.inr (Or.inr rfl)) rfl
  | registerTask i =>
    obtain ⟨k', hk', hpmp, hirq, -⟩ := registerTask_spec B.platform i m.kernel
    simp only [hk'] at hx
    rw [← StepResult.continues.inj hx]
    exact .setKernel (fun h' _ => congrFun hpmp h') (Or.inr (Or.inr (congrFun hpmp h))) hirq
  | initTimer =>
    rw [← StepResult.continues.inj hx]
    refine .setCore rfl ?_ Or.inl
    simp [initTimer]
  | releaseCore1 =>
    rw [← StepResult.continues.inj hx]
    exact { ExecFrame.refl h m _ with bootBarrier := fun _ => Or.inr rfl }
  | awaitCore1 =>
    dsimp only at hx
    split at hx
    · rw [← StepResult.continues.inj hx]
      exact .refl h m _
    · cases hx
  | awaitBarrier =>
    dsimp only at hx
    split at hx
    · rw [← StepResult.continues.inj hx]
      exact .refl h m _
    · cases hx
  | signalReady =>
    rw [← StepResult.continues.inj hx]
    exact { ExecFrame.refl h m _ with core1Ready := fun _ => Or.inr rfl }
  | startFirstTask =>
    dsimp only at hx
    split at hx
    · cases hx
    · rename_i k' hk'
      rw [← StepResult.continues.inj hx]
      have hkernel : ExecFrame h m .startFirstTask (m.setKernel k') :=
        .setKernel (startFirst_spec hk').2.1 (Or.inr (Or.inl rfl)) (startFirst_spec hk').2.2.2
      have hcore : ExecFrame h (m.setKernel k') .startFirstTask
          ((m.setKernel k').setCore h (enterUser B.platform h k' (m.cores h))) :=
        .setCore rfl rfl fun _ => Or.inr rfl
      exact { hcore with pmpOthers := hkernel.pmpOthers, pmp := hkernel.pmp, irq := hkernel.irq }

end Exec

/-! ## The invariant -/

/-- The barrier flags are set where `kmain` sets them, and a hart programs its PMP once, from reset. -/
structure BootInv (B : Board) (m : Machine) : Prop where
  marked : ∀ h, Marked (Post B h) (kmain h) (m.cores h).todo m
  user : ∀ h, (m.cores h).mode = .user → (m.cores h).todo = []
  soft : ∀ h, (m.cores h).mie.getLsbD 3 = false
  unregistered : ∀ x, bootStatic x = none → (view m.kernel).static x = bootStatic x
  reset : ∀ h, .initMemoryProtection ∈ (m.cores h).todo → (m.kernel.pmp h).Reset
  booted : ∀ h, .initMemoryProtection ∉ (m.cores h).todo → Booted (m.kernel.pmp h)
  bootBarrier : m.bootBarrier = true → .releaseCore1 ∉ (m.cores 0).todo
  core1Ready : m.core1Ready = true → .signalReady ∉ (m.cores 1).todo

section Invariant
variable {B : Board} {h : Hart} {m m' : Machine}

theorem bootInv_poweredOn (hon : PoweredOn m) : BootInv B m := by
  obtain ⟨mem, r, hreset, hkernel⟩ := hon.kernel
  refine ⟨fun h => ?_, fun h hm => ?_, fun h => ?_, fun x hx => ?_, fun h _ => ?_, fun h hn => ?_,
    fun hb => ?_, fun hb => ?_⟩
  · rw [(hon.cores h).2.1]
    exact .start _ _ _
  · rw [(hon.cores h).1] at hm
    cases hm
  · rw [(hon.cores h).2.2.1]
    rfl
  · rw [hkernel, hx]
    rfl
  · rw [hkernel]
    exact hreset h
  · rw [(hon.cores h).2.1] at hn
    exact absurd (by revert h; decide) hn
  · rw [hon.bootBarrier] at hb
    cases hb
  · rw [hon.core1Ready] at hb
    cases hb

/-- An event that is not a step of `kmain`. -/
theorem BootInv.frame (hinv : BootInv B m) (he : Evolves B m m')
    (htodo : ∀ h, (m'.cores h).todo = (m.cores h).todo)
    (huser : ∀ h, (m'.cores h).mode = .user → (m.cores h).mode = .user)
    (hsoft : ∀ h, (m'.cores h).mie = (m.cores h).mie)
    (hpmp : ∀ h, m'.kernel.pmp h = m.kernel.pmp h ∨ (m.cores h).todo = [] ∧
      (Booted (m.kernel.pmp h) → Booted (m'.kernel.pmp h)))
    (hflags : m'.bootBarrier = m.bootBarrier ∧ m'.core1Ready = m.core1Ready) : BootInv B m' where
  marked := fun h => by
    rw [htodo]
    exact (hinv.marked h).frame (fun x _ _ hp => hp.evolves he) (kmain_nodup h)
  user := fun h hm => (htodo h).trans (hinv.user h (huser h hm))
  soft := fun h => by rw [hsoft]; exact hinv.soft h
  unregistered := fun x hx => he.registered x (hinv.unregistered x hx)
  reset := fun h hmem => by
    rw [htodo] at hmem
    rcases hpmp h with hp | ⟨hnil, -⟩
    · rw [hp]
      exact hinv.reset h hmem
    · rw [hnil] at hmem
      cases hmem
  booted := fun h hmem => by
    rw [htodo] at hmem
    rcases hpmp h with hp | ⟨-, hb⟩
    · rw [hp]
      exact hinv.booted h hmem
    · exact hb (hinv.booted h hmem)
  bootBarrier := fun hb => by
    rw [htodo]
    exact hinv.bootBarrier (hflags.1 ▸ hb)
  core1Ready := fun hb => by
    rw [htodo]
    exact hinv.core1Ready (hflags.2 ▸ hb)

theorem rearm_core (m : Machine) (ev : Event) (h : Hart) :
    ∃ t, m.rearm ev h = { m.cores h with mtimecmp := t } := by
  unfold Machine.rearm
  split
  · by_cases hh : h = ev.hart
    · subst hh
      exact ⟨_, Function.update_self _ _ _⟩
    · exact ⟨_, Function.update_of_ne hh _ _⟩
  · exact ⟨_, rfl⟩

theorem bootInv_task (hinv : BootInv B m) {ev : Event} {s : System}
    (huser : (m.cores ev.hart).mode = .user) (hstep : Step B.platform m.system ev s) :
    BootInv B { m with system := s, cores := m.rearm ev } := by
  have hcore : ∀ h, ∃ t, m.rearm ev h = { m.cores h with mtimecmp := t } := rearm_core m ev
  have hstatic : (view s.kernel).static = (view m.kernel).static :=
    step_preserves (I := fun k => (view k).static = (view m.kernel).static)
      (fun _ _ hk hc => hc.static.trans hk) rfl hstep
  refine hinv.frame ⟨fun h => ?_, fun h => ?_, fun h _ => ?_, fun x hx => ?_, id, id⟩ (fun h => ?_)
    (fun h => ?_) (fun h => ?_) (fun h => ?_) ⟨rfl, rfl⟩
  · obtain ⟨t, ht⟩ := hcore h
    simp only [ht, imp_self]
  · obtain ⟨t, ht⟩ := hcore h
    simp only [ht, imp_self]
  · obtain ⟨t, ht⟩ := hcore h
    simp only [ht]
  · rw [← hx]
    exact congrFun hstatic x
  · obtain ⟨t, ht⟩ := hcore h
    simp only [ht]
  · obtain ⟨t, ht⟩ := hcore h
    simp only [ht, imp_self]
  · obtain ⟨t, ht⟩ := hcore h
    simp only [ht]
  · by_cases hh : h = ev.hart
    · subst hh
      refine Or.inr ⟨hinv.user _ huser, fun hb => ?_⟩
      exact step_preserves (I := fun k => Booted (k.pmp ev.hart)) (fun _ _ hk hc => hc.booted hk) hb hstep
    · refine Or.inl (step_preserves (I := fun k => k.pmp h = m.kernel.pmp h)
        (fun _ _ hk hc => (hc.pmp_ne hh).trans hk) rfl hstep)

theorem kmain_flags : (∀ h, .releaseCore1 ∈ kmain h → h = 0) ∧ ∀ h, .signalReady ∈ kmain h → h = 1 := by
  decide

theorem kmain_last (h : Hart) : kmain h = (kmain h).dropLast ++ [.startFirstTask] := by
  revert h
  decide

/-- `start_first_task` is the last step of either path. -/
theorem BootInv.last (hinv : BootInv B m) {todo : List BootStep}
    (htodo : (m.cores h).todo = .startFirstTask :: todo) : todo = [] := by
  have hmarked := hinv.marked h
  have hnd := kmain_nodup h
  rw [htodo, kmain_last] at hmarked
  rw [kmain_last] at hnd
  exact hmarked.at_step hnd

theorem exec_initMemoryProtection (hx : m.exec B h .initMemoryProtection = .continues m')
    (hreset : (m.kernel.pmp h).Reset) : Booted (m'.kernel.pmp h) := by
  rw [← StepResult.continues.inj hx]
  simp only [Machine.setKernel, Kernel.setPmp, Function.update_self]
  exact booted_initMemoryProtection hreset

theorem exec_startFirstTask (hx : m.exec B h .startFirstTask = .continues m')
    (hb : Booted (m.kernel.pmp h)) : Booted (m'.kernel.pmp h) := by
  unfold Machine.exec at hx
  dsimp only at hx
  split at hx
  · cases hx
  · rename_i k hk
    rw [← StepResult.continues.inj hx]
    exact (startFirst_spec hk).2.2.1 hb

theorem bootInv_boot (hinv : BootInv B m) {x : BootStep} {todo : List BootStep}
    (hmode : (m.cores h).mode = .kmain) (htodo : (m.cores h).todo = x :: todo)
    (hx : (m.advance h todo).exec B h x = .continues m') : BootInv B m' := by
  generalize hm1 : m.advance h todo = m1 at hx
  have hself : m1.cores h = { m.cores h with todo := todo } := by
    rw [← hm1]
    exact Function.update_self _ _ _
  have hothers : ∀ h', h' ≠ h → m1.cores h' = m.cores h' := fun h' hne => by
    rw [← hm1]
    exact Function.update_of_ne hne _ _
  have hkernel : m1.kernel = m.kernel := hm1 ▸ rfl
  have hflags : m1.bootBarrier = m.bootBarrier ∧ m1.core1Ready = m.core1Ready := hm1 ▸ ⟨rfl, rfl⟩
  have hevolves : Evolves B m m' := by
    have h1 : Evolves B m m1 := hm1 ▸ .setCore id id fun _ => rfl
    exact h1.trans (exec_evolves (by rw [hself]; exact hmode) hx)
  have hframe := exec_frame hx
  have hown : (m'.cores h).todo = todo := by
    rw [hframe.todo, hself]
  have hother : ∀ h', h' ≠ h → m'.cores h' = m.cores h' :=
    fun h' hne => (hframe.others h' hne).trans (hothers h' hne)
  have hmarked := hinv.marked h
  have hnot : x ∉ todo := by
    have hnd := hmarked.nodup (kmain_nodup h)
    rw [htodo] at hnd
    exact (List.nodup_cons.mp hnd).1
  have hlast : x = .startFirstTask → todo = [] := fun he => hinv.last (he ▸ htodo)
  have hmem : x ∈ kmain h := hmarked.mem (htodo ▸ List.mem_cons_self)
  refine ⟨fun h' => ?_, fun h' hm => ?_, fun h' => ?_, fun y hy => ?_, fun h' hi => ?_, fun h' hi => ?_,
    fun hb => ?_, fun hb => ?_⟩
  · by_cases hh : h' = h
    · subst hh
      rw [htodo] at hmarked
      rw [hown]
      exact hmarked.step (fun y _ _ hp => hp.evolves hevolves) (exec_post hx) (kmain_nodup _)
    · rw [hother h' hh]
      exact (hinv.marked h').frame (fun y _ _ hp => hp.evolves hevolves) (kmain_nodup _)
  · by_cases hh : h' = h
    · subst hh
      rw [hown]
      refine hlast ((hframe.user hm).resolve_left fun hu => ?_)
      rw [hself] at hu
      exact absurd (hmode.symm.trans hu) (by decide)
    · rw [hother h' hh] at hm ⊢
      exact hinv.user h' hm
  · by_cases hh : h' = h
    · subst hh
      rw [hframe.soft, hself]
      exact hinv.soft h'
    · rw [hother h' hh]
      exact hinv.soft h'
  · exact hevolves.registered y (hinv.unregistered y hy)
  · by_cases hh : h' = h
    · subst hh
      rw [hown] at hi
      have hreset := hinv.reset h' (htodo ▸ List.mem_cons_of_mem x hi)
      rcases hframe.pmp with he | he | he
      · exact absurd (he ▸ hi) hnot
      · rw [hlast he] at hi
        cases hi
      · rw [he, hkernel]
        exact hreset
    · rw [hother h' hh] at hi
      rw [hframe.pmpOthers h' hh, hkernel]
      exact hinv.reset h' hi
  · by_cases hh : h' = h
    · subst hh
      rw [hown] at hi
      by_cases hxi : x = .initMemoryProtection
      · subst hxi
        exact exec_initMemoryProtection hx (hkernel ▸ hinv.reset h' (htodo ▸ List.mem_cons_self))
      · have hbooted : Booted (m1.kernel.pmp h') := by
          rw [hkernel]
          refine hinv.booted h' fun hmem => ?_
          rw [htodo] at hmem
          exact (List.mem_cons.mp hmem).elim (fun he => hxi he.symm) hi
        rcases hframe.pmp with he | he | he
        · exact absurd he hxi
        · subst he
          exact exec_startFirstTask hx hbooted
        · rw [he]
          exact hbooted
    · rw [hother h' hh] at hi
      rw [hframe.pmpOthers h' hh, hkernel]
      exact hinv.booted h' hi
  · by_cases hh : h = 0
    · subst hh
      rw [hown]
      rcases hframe.bootBarrier hb with hb | rfl
      · exact fun hi => hinv.bootBarrier (hflags.1 ▸ hb) (htodo ▸ List.mem_cons_of_mem x hi)
      · exact hnot
    · rw [hother 0 (Ne.symm hh)]
      rcases hframe.bootBarrier hb with hb | rfl
      · exact hinv.bootBarrier (hflags.1 ▸ hb)
      · exact absurd (kmain_flags.1 h hmem) hh
  · by_cases hh : h = 1
    · subst hh
      rw [hown]
      rcases hframe.core1Ready hb with hb | rfl
      · exact fun hi => hinv.core1Ready (hflags.2 ▸ hb) (htodo ▸ List.mem_cons_of_mem x hi)
      · exact hnot
    · rw [hother 1 (Ne.symm hh)]
      rcases hframe.core1Ready hb with hb | rfl
      · exact hinv.core1Ready (hflags.2 ▸ hb)
      · exact absurd (kmain_flags.2 h hmem) hh

/-- A hart that stops in `kmain`. -/
theorem bootInv_stop (hinv : BootInv B m) (hmode : (m.cores h).mode = .kmain) {mode : Mode}
    (hne : mode ≠ .user) : BootInv B (m.setMode h mode) := by
  have hcore : ∀ h', (m.setMode h mode).cores h' = m.cores h' ∨
      h' = h ∧ (m.setMode h mode).cores h' = { m.cores h with mode := mode } := by
    intro h'
    by_cases hh : h' = h
    · subst hh
      exact Or.inr ⟨rfl, Function.update_self _ _ _⟩
    · exact Or.inl (Function.update_of_ne hh _ _)
  refine hinv.frame (.setCore id id fun hm => absurd hmode hm) (fun h' => ?_) (fun h' hu => ?_)
    (fun h' => ?_) (fun _ => Or.inl rfl) ⟨rfl, rfl⟩
  · rcases hcore h' with hc | ⟨rfl, hc⟩ <;> rw [hc]
  · rcases hcore h' with hc | ⟨rfl, hc⟩
    · rw [← hc]
      exact hu
    · rw [hc] at hu
      exact absurd hu hne
  · rcases hcore h' with hc | ⟨rfl, hc⟩ <;> rw [hc]

theorem bootInv_step (hinv : BootInv B m) {e : MachineEvent} (hstep : MachineStep B m e m') :
    BootInv B m' := by
  cases machineStep_cases hstep with
  | halts hmode htodo hx => exact bootInv_stop hinv hmode (by decide)
  | continues hmode htodo hx => exact bootInv_boot hinv hmode htodo hx
  | lost hmode => exact bootInv_stop hinv hmode (by decide)
  | elapse n =>
    exact hinv.frame { Evolves.refl B m with } (fun _ => rfl) (fun _ => id) (fun _ => rfl)
      (fun _ => Or.inl rfl) ⟨rfl, rfl⟩
  | task huser hraised hs => exact bootInv_task hinv huser hs

theorem bootInv_run {m0 : Machine} {es : List MachineEvent} (hon : PoweredOn m0)
    (hrun : Run (MachineStep B) m0 es m) : BootInv B m :=
  hrun.invariant (fun _ _ _ hu hstep => bootInv_step hu hstep) (bootInv_poweredOn hon)

/-! ## What the flags say -/

/-- The registers that `h` has set before it lets the other hart run on. -/
structure Prepared (B : Board) (m : Machine) (h : Hart) : Prop where
  mtvec : (m.cores h).mtvec = B.trapEntry
  pmp : Booted (m.kernel.pmp h)
  timer : (m.cores h).mie.getLsbD 7 = true ∧ (m.cores h).mcounteren = 1#32

theorem BootInv.prepared (hinv : BootInv B m) {pre rest : List BootStep} {x : BootStep}
    (hsplit : kmain h = pre ++ x :: rest) (hx : x ∉ (m.cores h).todo) (hvector : .setTrapVector ∈ pre)
    (hpmp : .initMemoryProtection ∈ pre) (htimer : .initTimer ∈ pre) : Prepared B m h := by
  have hmarked := hinv.marked h
  have hnd := kmain_nodup h
  rw [hsplit] at hmarked hnd
  exact ⟨hmarked.before_done hnd hx hvector, hinv.booted h (hmarked.not_mem hnd hx hpmp),
    hmarked.before_done hnd hx htimer⟩

/-- All of `kmain 0` before the barrier is released. -/
def beforeRelease : List BootStep := (kmain 0).take 20

theorem BootInv.released (hinv : BootInv B m) (hflag : m.bootBarrier = true) :
    Prepared B m 0 ∧ verifySecureBoot B.build = true ∧
      ∀ x, (view m.kernel).static x = bootStatic x := by
  have hsplit : kmain 0 = beforeRelease ++ .releaseCore1 :: [.awaitCore1, .startFirstTask] := rfl
  have hnot := hinv.bootBarrier hflag
  have hmarked := hinv.marked 0
  have hnd := kmain_nodup 0
  rw [hsplit] at hmarked hnd
  have hdone : ∀ y ∈ beforeRelease, Post B 0 y m := fun y hy => hmarked.before_done hnd hnot hy
  refine ⟨hinv.prepared hsplit hnot (by decide) (by decide) (by decide),
    hdone .verifySecureBoot (by decide), fun x => ?_⟩
  by_cases hx : bootStatic x = none
  · exact hinv.unregistered x hx
  · have hslot : ∃ i, x = bootSlot i := by
      revert hx
      obtain ⟨h, i⟩ := x
      revert h i
      decide +kernel
    obtain ⟨i, rfl⟩ := hslot
    exact hdone (.registerTask i) (by revert i; decide)

theorem BootInv.readied (hinv : BootInv B m) (hflag : m.core1Ready = true) :
    Prepared B m 1 ∧ m.bootBarrier = true := by
  have hsplit : kmain 1 = [.awaitBarrier, .setTrapVector, .initMemoryProtection, .initTimer] ++
    .signalReady :: [.startFirstTask] := rfl
  have hnot := hinv.core1Ready hflag
  have hmarked := hinv.marked 1
  have hnd := kmain_nodup 1
  rw [hsplit] at hmarked hnd
  have hbarrier : Post B 1 .awaitBarrier m := hmarked.before_done hnd hnot (by decide)
  exact ⟨hinv.prepared hsplit hnot (by decide) (by decide) (by decide), hbarrier⟩

theorem BootInv.passed (hinv : BootInv B m) (huser : (m.cores h).mode = .user) :
    m.bootBarrier = true ∧ m.core1Ready = true := by
  have hdone : ∀ y ∈ kmain h, Post B h y m := fun y hy =>
    (hinv.marked h).of_done hy (by rw [hinv.user h huser]; exact List.not_mem_nil)
  fin_cases h
  · exact ⟨hdone .releaseCore1 (by decide), hdone .awaitCore1 (by decide)⟩
  · exact ⟨hdone .awaitBarrier (by decide), hdone .signalReady (by decide)⟩

/-- When a task runs on either hart, the image has been verified, all tasks are registered as `kmain`
has them, and both harts have their trap vector, their PMP registers and their timer. -/
theorem boot_order (B : Board) (m0 m : Machine) (es : List MachineEvent) (hon : PoweredOn m0)
    (hrun : Run (MachineStep B) m0 es m) (h : Hart) (huser : (m.cores h).mode = .user) :
    verifySecureBoot B.build = true ∧ (∀ x, (view m.kernel).static x = bootStatic x) ∧
      ∀ h', Prepared B m h' := by
  have hinv := bootInv_run hon hrun
  obtain ⟨hbarrier, hready⟩ := hinv.passed huser
  obtain ⟨hprep0, hverified, hstatic⟩ := hinv.released hbarrier
  refine ⟨hverified, hstatic, fun h' => ?_⟩
  fin_cases h'
  · exact hprep0
  · exact (hinv.readied hready).1

/-- Core 0 leaves `kmain` last. -/
theorem boot_order_both : ∃ m, Run (MachineStep packedBoard) powerOn bootBoth m ∧
    (m.cores 0).mode = .user ∧ verifySecureBoot packedBoard.build = true ∧
    (∀ x, (view m.kernel).static x = bootStatic x) ∧ ∀ h', Prepared packedBoard m h' := by
  obtain ⟨m, hrun, hmode⟩ := machineRun_of_eval packedBoard powerOn bootBoth
    (fun m => (m.cores 0).mode) .user (by decide +kernel)
  exact ⟨m, hrun, hmode, boot_order packedBoard powerOn m bootBoth powerOn_poweredOn hrun 0 hmode⟩

/-! ## Progress -/

theorem exec_spins {x : BootStep} (hx : m.exec B h x = .spins) :
    (x = .awaitCore1 ∧ m.core1Ready = false) ∨ (x = .awaitBarrier ∧ m.bootBarrier = false) := by
  unfold Machine.exec at hx
  cases x with
  | awaitCore1 =>
    dsimp only at hx
    split at hx
    · cases hx
    · exact Or.inl ⟨rfl, Bool.eq_false_iff.mpr ‹_›⟩
  | awaitBarrier =>
    dsimp only at hx
    split at hx
    · cases hx
    · exact Or.inr ⟨rfl, Bool.eq_false_iff.mpr ‹_›⟩
  | verifySecureBoot =>
    dsimp only at hx
    split at hx <;> cases hx
  | registerTask i =>
    dsimp only at hx
    split at hx <;> cases hx
  | startFirstTask =>
    dsimp only at hx
    split at hx <;> cases hx
  | _ => cases hx

/-- A hart in `kmain` goes on unless it waits for a flag. -/
theorem BootInv.steps_or_waits (hinv : BootInv B m) (hmode : (m.cores h).mode = .kmain) :
    (∃ m', MachineStep B m (.boot h) m') ∨ ∃ todo,
      (m.cores h).todo = .awaitCore1 :: todo ∧ m.core1Ready = false ∨
        (m.cores h).todo = .awaitBarrier :: todo ∧ m.bootBarrier = false := by
  cases htodo : (m.cores h).todo with
  | nil =>
    have hmem : .startFirstTask ∈ kmain h := kmain_last h ▸ List.mem_append_right _ List.mem_cons_self
    have hdone : Post B h .startFirstTask m :=
      (hinv.marked h).of_done hmem (by rw [htodo]; exact List.not_mem_nil)
    exact absurd (hmode.symm.trans hdone) (by decide)
  | cons x todo =>
    cases hx : (m.advance h todo).exec B h x with
    | spins =>
      refine Or.inr ⟨todo, (exec_spins hx).imp ?_ ?_⟩
      · rintro ⟨rfl, hflag⟩
        exact ⟨rfl, hflag⟩
      · rintro ⟨rfl, hflag⟩
        exact ⟨rfl, hflag⟩
    | halts =>
      refine Or.inl ⟨m.setMode h .halted, ?_⟩
      simp only [MachineStep, Machine.next, hmode, htodo, hx]
    | continues m' =>
      refine Or.inl ⟨m', ?_⟩
      simp only [MachineStep, Machine.next, hmode, htodo, hx]

theorem kmain_waits : (∀ h, .awaitCore1 ∈ kmain h → h = 0) ∧ ∀ h, .awaitBarrier ∈ kmain h → h = 1 := by
  decide

/-- Core 0 releases the barrier before it waits. -/
theorem BootInv.released_of_waits (hinv : BootInv B m) {todo : List BootStep}
    (htodo : (m.cores h).todo = .awaitCore1 :: todo) : h = 0 ∧ m.bootBarrier = true := by
  have hmarked := hinv.marked h
  obtain rfl := kmain_waits.1 h (hmarked.mem (htodo ▸ List.mem_cons_self))
  have hsplit : kmain 0 = (beforeRelease ++ [.releaseCore1]) ++ .awaitCore1 :: [.startFirstTask] := rfl
  have hnd := kmain_nodup 0
  rw [hsplit, htodo] at hmarked
  rw [hsplit] at hnd
  have hdone : Post B 0 .releaseCore1 m :=
    hmarked.before hnd (List.mem_append_right _ List.mem_cons_self)
  exact ⟨rfl, hdone⟩

theorem BootInv.one_of_waits (hinv : BootInv B m) {todo : List BootStep}
    (htodo : (m.cores h).todo = .awaitBarrier :: todo) : h = 1 :=
  kmain_waits.2 h ((hinv.marked h).mem (htodo ▸ List.mem_cons_self))

/-- The number of steps left to a hart in `kmain`. -/
def Machine.work (m : Machine) (h : Hart) : ℕ :=
  if (m.cores h).mode = .kmain then (m.cores h).todo.length else 0

def MachineEvent.isBoot : MachineEvent → Bool
  | .boot _ => true
  | _ => false

theorem Machine.work_eq_of_core (hc : (m'.cores h).mode = (m.cores h).mode)
    (ht : (m'.cores h).todo = (m.cores h).todo) : m'.work h = m.work h := by
  rw [Machine.work, Machine.work, hc, ht]

theorem work_setMode (m : Machine) (h : Hart) {mode : Mode} (hne : mode ≠ .kmain) :
    (m.setMode h mode).work h = 0 ∧ ∀ h', h' ≠ h → (m.setMode h mode).work h' = m.work h' := by
  constructor
  · simp [Machine.work, Machine.setMode, Machine.setCore, hne]
  · intro h' hh
    simp [Machine.work, Machine.setMode, Machine.setCore, hh]

/-- A step of `kmain` uses up one of the steps left to its hart. -/
theorem work_boot (hstep : MachineStep B m (.boot h) m') :
    m'.work h < m.work h ∧ ∀ h', h' ≠ h → m'.work h' = m.work h' := by
  have hwork : ∀ {x : BootStep} {todo : List BootStep}, (m.cores h).mode = .kmain →
      (m.cores h).todo = x :: todo → m.work h = todo.length + 1 := fun hmode htodo => by
    rw [Machine.work, if_pos hmode, htodo, List.length_cons]
  cases machineStep_cases hstep with
  | halts hmode htodo hx =>
    obtain ⟨h0, hothers⟩ := work_setMode m h (show Mode.halted ≠ .kmain by decide)
    have hw := hwork hmode htodo
    exact ⟨by omega, hothers⟩
  | @continues _ x todo _ hmode htodo hx =>
    have hframe := exec_frame hx
    have htodo' : (m'.cores h).todo = todo := by
      rw [hframe.todo]
      simp [Machine.advance, Machine.setCore]
    refine ⟨?_, fun h' hne => ?_⟩
    · rw [hwork hmode htodo, Machine.work, htodo']
      split <;> omega
    · have hcore : m'.cores h' = m.cores h' :=
        (hframe.others h' hne).trans (Function.update_of_ne hne _ _)
      exact Machine.work_eq_of_core (by rw [hcore]) (by rw [hcore])

theorem work_other {e : MachineEvent} (he : e.isBoot = false) (hstep : MachineStep B m e m') (h : Hart) :
    m'.work h ≤ m.work h := by
  cases machineStep_cases hstep with
  | halts | continues => cases he
  | @lost h0 hmode =>
    obtain ⟨hzero, hothers⟩ := work_setMode m h0 (show Mode.lost ≠ .kmain by decide)
    by_cases hh : h = h0
    · rw [hh, hzero]
      omega
    · exact (hothers h hh).le
  | elapse n => exact le_refl _
  | @task ev s huser hraised hs =>
    obtain ⟨t, ht⟩ := rearm_core m ev h
    have hcore : ({ m with system := s, cores := m.rearm ev } : Machine).cores h =
      { m.cores h with mtimecmp := t } := ht
    exact (Machine.work_eq_of_core (by rw [hcore]) (by rw [hcore])).le

theorem work_run {m0 : Machine} {es : List MachineEvent} (hrun : Run (MachineStep B) m0 es m) :
    es.countP MachineEvent.isBoot + (m.work 0 + m.work 1) ≤ m0.work 0 + m0.work 1 := by
  induction es generalizing m0 with
  | nil =>
    have hm : m0 = m := hrun
    rw [hm, List.countP_nil, Nat.zero_add]
  | cons e es ih =>
    obtain ⟨m1, hstep, hrest⟩ := hrun
    have hle := ih hrest
    cases he : e.isBoot with
    | false =>
      have h0 := work_other he hstep 0
      have h1 := work_other he hstep 1
      rw [List.countP_cons_of_neg (by rw [he]; decide)]
      omega
    | true =>
      have hboth : m1.work 0 + m1.work 1 < m0.work 0 + m0.work 1 := by
        cases e with
        | boot h =>
          obtain ⟨hlt, hothers⟩ := work_boot hstep
          fin_cases h
          · have h1 := hothers 1 (by decide)
            simp only [Fin.zero_eta] at hlt
            omega
          · have h0 := hothers 0 (by decide)
            simp only [Fin.mk_one] at hlt
            omega
        | _ => cases he
      rw [List.countP_cons_of_pos he]
      omega

/-- The handshake never deadlocks and soon ends: a run makes at most 29 steps of `kmain`, and as long
as no hart has stopped in `kmain` and one is still in it, one of the two can make its next step. -/
theorem boot_progress (B : Board) (m0 m : Machine) (es : List MachineEvent) (hon : PoweredOn m0)
    (hrun : Run (MachineStep B) m0 es m) :
    es.countP MachineEvent.isBoot ≤ 29 ∧
      ((∀ h, (m.cores h).mode = .kmain ∨ (m.cores h).mode = .user) →
        (∃ h, (m.cores h).mode = .kmain) → ∃ h m', MachineStep B m (.boot h) m') := by
  have hinv := bootInv_run hon hrun
  refine ⟨?_, fun hmodes hsome => ?_⟩
  · have hwork := work_run hrun
    have h0 : m0.work 0 = 23 := by
      rw [Machine.work, if_pos (hon.cores 0).1, (hon.cores 0).2.1]
      rfl
    have h1 : m0.work 1 = 6 := by
      rw [Machine.work, if_pos (hon.cores 1).1, (hon.cores 1).2.1]
      rfl
    omega
  · obtain ⟨h, hk⟩ := hsome
    rcases hinv.steps_or_waits hk with ⟨m', hstep⟩ | ⟨todo, ⟨ht, hflag⟩ | ⟨ht, hflag⟩⟩
    · exact ⟨h, m', hstep⟩
    · -- core 0 waits for core 1, which has passed the barrier
      obtain ⟨rfl, hbarrier⟩ := hinv.released_of_waits ht
      have hk1 : (m.cores 1).mode = .kmain := (hmodes 1).resolve_right fun hu => by
        rw [(hinv.passed hu).2] at hflag
        cases hflag
      rcases hinv.steps_or_waits hk1 with ⟨m', hstep⟩ | ⟨todo1, ⟨ht1, -⟩ | ⟨-, hb⟩⟩
      · exact ⟨1, m', hstep⟩
      · exact absurd (hinv.released_of_waits ht1).1 (by decide)
      · rw [hbarrier] at hb
        cases hb
    · -- core 1 waits for the barrier, so core 0 has not come to its wait
      obtain rfl := hinv.one_of_waits ht
      have hk0 : (m.cores 0).mode = .kmain := (hmodes 0).resolve_right fun hu => by
        rw [(hinv.passed hu).1] at hflag
        cases hflag
      rcases hinv.steps_or_waits hk0 with ⟨m', hstep⟩ | ⟨todo0, ⟨ht0, -⟩ | ⟨ht0, -⟩⟩
      · exact ⟨0, m', hstep⟩
      · rw [(hinv.released_of_waits ht0).2] at hflag
        cases hflag
      · exact absurd (hinv.one_of_waits ht0) (by decide)

end Invariant

/-- With the barrier just released, core 1 can go on. -/
theorem boot_progress_released : ∃ m,
    Run (MachineStep packedBoard) powerOn (List.replicate 21 (.boot 0)) m ∧
      ∃ h m', MachineStep packedBoard m (.boot h) m' := by
  obtain ⟨m, hrun, hmodes⟩ := machineRun_of_eval packedBoard powerOn (List.replicate 21 (.boot 0))
    (fun m => ((m.cores 0).mode, (m.cores 1).mode)) (.kmain, .kmain) (by decide +kernel)
  obtain ⟨h0, h1⟩ := Prod.mk.inj hmodes
  refine ⟨m, hrun, (boot_progress packedBoard powerOn m _ powerOn_poweredOn hrun).2 (fun h => ?_) ⟨0, h0⟩⟩
  fin_cases h
  · exact Or.inl h0
  · exact Or.inl h1

end Cerberus.Boot
