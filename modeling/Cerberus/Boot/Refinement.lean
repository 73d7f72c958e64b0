import Cerberus.Boot.Handshake
import Cerberus.Kernel.OtherHart

/-! # Power-on refines the boot of the system

`Initial` takes the boot in one piece, both harts having started their first task. A machine gets there by
steps of two harts, and the hart that starts first takes traps while the other is still in `kmain`. The
steps of `kmain` that are left act on the kernel in ways that those traps do not see (`Kernel/OtherHart`),
so that they can be thought done before the first trap: `boot_refines`. -/
namespace Cerberus.Boot
open Kernel Scheduler Sync Memory Transition StraightLine
set_option autoImplicit false

/-! ## `kmain` as a change of the kernel -/

def onKernel (B : Board) (h : Hart) (k : Kernel) : BootStep → Option Kernel
  | .initMemoryProtection => some (k.setPmp h (initMemoryProtection B.platform.layout (k.pmp h)))
  | .initializeStack i => some (initializeTask B.platform (bootTask i).2 k)
  | .registerTask i => registerTask B.platform (bootTask i).1 (bootTask i).2 k
  | .startFirstTask => startFirst B.platform h k
  | _ => some k

theorem exec_onKernel {B : Board} {h : Hart} {m m' : Machine} {x : BootStep}
    (hx : m.exec B h x = .continues m') :
    onKernel B h m.kernel x = some m'.kernel ∧ m'.system.inPass = m.system.inPass := by
  unfold Machine.exec at hx
  cases x with
  | verifySecureBoot | awaitCore1 | awaitBarrier =>
    dsimp only at hx
    split at hx
    · rw [← StepResult.continues.inj hx]
      exact ⟨rfl, rfl⟩
    · cases hx
  | registerTask i =>
    dsimp only at hx
    split at hx
    · cases hx
    · rename_i k hk
      rw [← StepResult.continues.inj hx]
      exact ⟨hk, rfl⟩
  | startFirstTask =>
    dsimp only at hx
    split at hx
    · cases hx
    · rename_i k hk
      rw [← StepResult.continues.inj hx]
      exact ⟨hk, rfl⟩
  | _ =>
    rw [← StepResult.continues.inj hx]
    exact ⟨rfl, rfl⟩

/-- The kernel once both harts have done what is left of their `kmain`, core 0 first. -/
def Machine.ahead (B : Board) (m : Machine) : Option Kernel :=
  ((m.cores 0).todo.foldlM (onKernel B 0) m.kernel).bind fun k => (m.cores 1).todo.foldlM (onKernel B 1) k

/-! ### From power-on -/

theorem initializeTasks_eq (P : Platform) (l : List TaskSpec) (k : Kernel) :
    l.foldlM (fun k s => some (initializeTask P s k)) k = some (k.setMem
      (l.foldl (fun m s => (initializeStack (s.stack P) 1024#32 (s.entry P) m).2) k.mem)) := by
  induction l generalizing k with
  | nil => rfl
  | cons s l ih =>
    rw [List.foldlM_cons, List.foldl_cons, Option.bind_eq_bind, Option.bind_some, ih]
    rfl

theorem registerTasks_eq (P : Platform) (h : Hart) (l : List TaskSpec) (k : Kernel) :
    l.foldlM (fun k s => registerTask P h s k) k =
      ((l.map (TaskSpec.tcb P)).foldlM BitMapScheduler.registerTask (k.scheds h)).map (k.setSched h) := by
  induction l generalizing k with
  | nil =>
    show some k = some (k.setSched h (k.scheds h))
    rw [Kernel.setSched, Function.update_eq_self]
  | cons s l ih =>
    rw [List.foldlM_cons, List.map_cons, List.foldlM_cons, registerTask]
    cases (k.scheds h).registerTask (s.tcb P) with
    | none => rfl
    | some s' =>
      have hself : (k.setSched h s').scheds h = s' := Function.update_self _ _ _
      have hidem : (k.setSched h s').setSched h = k.setSched h := by
        funext s''
        simp only [Kernel.setSched, Function.update_idem]
      simp only [Option.map_some, Option.bind_eq_bind, Option.bind_some, ih, hself, hidem]

theorem startFirst_eq {P : Platform} {h : Hart} {k : Kernel} {s : BitMapScheduler}
    (hs : startFirstTask (k.scheds h) = some s) : startFirst P h k = some ((k.setSched h s).setPmp h
      (reprogramPmpStack P.layout (BootLayout.firstName s) (k.pmp h))) := by
  rw [startFirst, hs]
  rfl

/-- The PMP, the stacks, the tables of both harts, and the first task. -/
theorem kmain_zero (B : Board) (k : Kernel) :
    (kmain 0).foldlM (onKernel B 0) k = (((coreTasks 0).foldlM (fun k s => registerTask B.platform 0 s k)
      ((k.setPmp 0 (initMemoryProtection B.platform.layout (k.pmp 0))).setMem
        (bootMemory B.platform k.mem))).bind fun k =>
      (coreTasks 1).foldlM (fun k s => registerTask B.platform 1 s k) k).bind (startFirst B.platform 0) := by
  have hsplit : kmain 0 = [.setTrapVector, .initMemoryProtection, .verifySecureBoot,
      .verifyTamperedSecureBoot, .verifyNetworkAndSecurity] ++ ((List.finRange 7).map .initializeStack ++
        ([.registerTask 0, .registerTask 1, .registerTask 4, .registerTask 5] ++
          ([.registerTask 2, .registerTask 3, .registerTask 6] ++
            [.initTimer, .releaseCore1, .awaitCore1, .startFirstTask]))) := rfl
  have hpmp : ∀ k, [BootStep.setTrapVector, .initMemoryProtection, .verifySecureBoot,
      .verifyTamperedSecureBoot, .verifyNetworkAndSecurity].foldlM (onKernel B 0) k =
        some (k.setPmp 0 (initMemoryProtection B.platform.layout (k.pmp 0))) := fun _ => rfl
  have hstacks : ∀ k, ((List.finRange 7).map BootStep.initializeStack).foldlM (onKernel B 0) k =
      some (k.setMem (bootMemory B.platform k.mem)) :=
    initializeTasks_eq B.platform
      [watchdogSpec, taskASpec, taskBSpec, taskCSpec, hsmSpec, idle0Spec, idle1Spec]
  have htasks0 : ∀ k, [BootStep.registerTask 0, .registerTask 1, .registerTask 4,
      .registerTask 5].foldlM (onKernel B 0) k =
        (coreTasks 0).foldlM (fun k s => registerTask B.platform 0 s k) k := fun _ => rfl
  have htasks1 : ∀ k, [BootStep.registerTask 2, .registerTask 3, .registerTask 6].foldlM (onKernel B 0) k =
      (coreTasks 1).foldlM (fun k s => registerTask B.platform 1 s k) k := fun _ => rfl
  have hstart : ∀ k, [BootStep.initTimer, .releaseCore1, .awaitCore1, .startFirstTask].foldlM
      (onKernel B 0) k = startFirst B.platform 0 k := fun k => Option.bind_fun_some _
  rw [hsplit]
  simp only [List.foldlM_append, Option.bind_eq_bind, Option.bind_some, Option.bind_assoc, hpmp, hstacks,
    htasks0, htasks1, hstart]
  rfl

theorem kmain_one (B : Board) (k : Kernel) : (kmain 1).foldlM (onKernel B 1) k =
    startFirst B.platform 1 (k.setPmp 1 (initMemoryProtection B.platform.layout (k.pmp 1))) :=
  Option.bind_fun_some _

theorem bootSched_eq (P : Platform) (h : Hart) : ∃ registered s,
    registerAll ((coreTasks h).map (TaskSpec.tcb P)) = some registered ∧ startFirstTask registered = some s ∧
      bootSched P h = some s ∧
      BootLayout.firstName s = if h = 0 then watchdogSpec.name else taskBSpec.name := by
  fin_cases h
  · exact ⟨_, _, rfl, rfl, rfl, rfl⟩
  · exact ⟨_, _, rfl, rfl, rfl, rfl⟩

/-- Kernels that agree in all but two functions of the hart, and in these on each hart. -/
theorem kernel_ext {k k' : Kernel} (hs : ∀ h, k.scheds h = k'.scheds h) (hp : ∀ h, k.pmp h = k'.pmp h)
    (hrest : { k with scheds := k'.scheds, pmp := k'.pmp } = k') : k = k' := by
  have hscheds : k.scheds = k'.scheds := funext hs
  have hpmp : k.pmp = k'.pmp := funext hp
  rw [← hrest, ← hscheds, ← hpmp]

/-- Both paths, one after the other, are the boot of the system. -/
theorem kmain_boot (B : Board) (mem : Memory) (r : Hart → PmpRegs) :
    ((kmain 0).foldlM (onKernel B 0) (resetKernel mem r)).bind
      (fun k => (kmain 1).foldlM (onKernel B 1) k) = boot B.platform mem r := by
  obtain ⟨r0, s0, hr0, hs0, hb0, hn0⟩ := bootSched_eq B.platform 0
  obtain ⟨r1, s1, hr1, hs1, hb1, hn1⟩ := bootSched_eq B.platform 1
  unfold registerAll at hr0 hr1
  simp only [kmain_zero, registerTasks_eq, kmain_one, boot, hb0, hb1]
  generalize hk0 : (Kernel.setMem _ _ : Kernel) = k0
  have hnew : ∀ h, k0.scheds h = BitMapScheduler.new := fun h => by rw [← hk0]; rfl
  have hnew1 : (k0.setSched 0 r0).scheds 1 = BitMapScheduler.new := hnew 1
  simp only [hnew, hr0, Option.map_some, Option.bind_some, hnew1, hr1]
  rw [startFirst_eq (s := s0) (by exact hs0), Option.bind_some, startFirst_eq (s := s1) (by exact hs1)]
  subst hk0
  refine congrArg some (kernel_ext (fun h => ?_) (fun h => ?_) rfl)
  · fin_cases h <;> rfl
  · rw [hn0, hn1]
    fin_cases h <;> rfl

theorem ahead_poweredOn {B : Board} {m : Machine} (hon : PoweredOn m) :
    ∃ s, Initial B.platform s ∧ s.inPass = m.system.inPass ∧ m.ahead B = some s.kernel := by
  obtain ⟨mem, r, hreset, hkernel⟩ := hon.kernel
  obtain ⟨k, hk, -⟩ := boot_view B.platform mem r
  refine ⟨⟨k, false⟩, ⟨mem, r, hreset, hk, rfl⟩, hon.inPass.symm, ?_⟩
  rw [Machine.ahead, hkernel, (hon.cores 0).2.1, (hon.cores 1).2.1, kmain_boot, hk]

/-! ### The first task -/

/-- The slot `start_first_task` finds: Watchdog on core 0, Task B on core 1. -/
def firstSlot (h : Hart) : Fin MAX_PARTITIONS := if h = 0 then 0 else 2

def firstSpec (h : Hart) : TaskSpec := if h = 0 then watchdogSpec else taskBSpec

def firstChange (P : Platform) (h : Hart) : SlotChange where
  hart := h
  slot := firstSlot h
  state := .running
  enters := true
  pmp := reprogramPmpStack P.layout (firstSpec h).name

/-- No slot below the first one is registered. -/
theorem bootStatic_below (h : Hart) (i : Fin MAX_PARTITIONS) (hi : i < firstSlot h) :
    bootStatic (h, i) = none := by
  revert h i
  decide +kernel

theorem bootStatic_first (h : Hart) :
    (bootStatic (h, firstSlot h)).map Static.name = some (firstSpec h).name := by
  fin_cases h <;> rfl

theorem startFirst_change {P : Platform} {h : Hart} {k : Kernel}
    (hstatic : ∀ x, (view k).static x = bootStatic x) (hready : k.stateOf h (firstSlot h) = some .ready) :
    startFirst P h k = some ((firstChange P h).apply k) := by
  have hbelow : ∀ i < firstSlot h, (k.scheds h).stateAt i ≠ some .ready := fun i hi hst => by
    have hnone : ((k.scheds h).taskTable i).map static = none :=
      (hstatic (h, i)).trans (bootStatic_below h i hi)
    rw [BitMapScheduler.stateAt, Option.map_eq_none_iff.mp hnone] at hst
    cases hst
  have hfind : (List.finRange MAX_PARTITIONS).find? (fun i => (k.scheds h).stateAt i = some .ready) =
      some (firstSlot h) := by
    refine List.find?_eq_some_iff_getElem.mpr ⟨decide_eq_true hready, (firstSlot h).val,
      by rw [List.length_finRange]; exact (firstSlot h).isLt, List.getElem_finRange _, fun j hj => ?_⟩
    rw [List.getElem_finRange, Bool.not_eq_true', decide_eq_false_iff_not]
    exact hbelow _ hj
  have hstart : startFirstTask (k.scheds h) = some ((firstChange P h).sched (k.scheds h)) := by
    rw [startFirstTask, hfind]
    rfl
  have hname : BootLayout.firstName ((firstChange P h).sched (k.scheds h)) = (firstSpec h).name := by
    have hslot := congrArg (Option.map Static.name) (hstatic (h, firstSlot h))
    rw [bootStatic_first, view, Option.map_map] at hslot
    obtain ⟨tcb, htcb, hn⟩ := Option.map_eq_some_iff.mp hslot
    have hcur : ((firstChange P h).sched (k.scheds h)).currentPartitionIdx = firstSlot h := rfl
    have htable : ((firstChange P h).sched (k.scheds h)).taskTable (firstSlot h) =
        some { tcb with state := .running } := by
      have hset : ((firstChange P h).sched (k.scheds h)).taskTable (firstSlot h) =
        ((k.scheds h).taskTable (firstSlot h)).map fun tcb => { tcb with state := .running } :=
          Function.update_self _ _ _
      rw [hset, htcb, Option.map_some]
    rw [BootLayout.firstName, hcur, htable]
    exact hn
  rw [startFirst_eq hstart, hname]
  rfl

/-! ### The two harts do not meet -/

/-- A step on the scheduler and the PMP registers of one hart. -/
def onHart (h : Hart) (f : BitMapScheduler → PmpRegs → Option (BitMapScheduler × PmpRegs)) (k : Kernel) :
    Option Kernel :=
  (f (k.scheds h) (k.pmp h)).map fun r => (k.setSched h r.1).setPmp h r.2

theorem onHart_comm {h h' : Hart} (hne : h ≠ h')
    (f g : BitMapScheduler → PmpRegs → Option (BitMapScheduler × PmpRegs)) (k : Kernel) :
    (onHart h f k).bind (onHart h' g) = (onHart h' g k).bind (onHart h f) := by
  unfold onHart
  cases hf : f (k.scheds h) (k.pmp h) with
  | none =>
    cases hg : g (k.scheds h') (k.pmp h') with
    | none => rfl
    | some r' =>
      simp [Kernel.setSched, Kernel.setPmp, Function.update_of_ne hne, hf]
  | some r =>
    cases hg : g (k.scheds h') (k.pmp h') with
    | none =>
      simp [Kernel.setSched, Kernel.setPmp, Function.update_of_ne hne.symm, hg]
    | some r' =>
      simp only [Option.map_some, Option.bind_some, Kernel.setSched, Kernel.setPmp,
        Function.update_of_ne hne, Function.update_of_ne hne.symm, hf, hg]
      rw [Function.update_comm hne, Function.update_comm hne]

theorem startFirst_onHart (P : Platform) (h : Hart) : startFirst P h = onHart h fun s r =>
    (startFirstTask s).map fun s' => (s', reprogramPmpStack P.layout (BootLayout.firstName s') r) := by
  funext k
  simp only [startFirst, onHart, Option.map_map]
  rfl

theorem initMemoryProtection_onHart (B : Board) (h : Hart) :
    (fun k => onKernel B h k .initMemoryProtection) =
      onHart h fun s r => some (s, initMemoryProtection B.platform.layout r) := by
  funext k
  simp only [onKernel, onHart, Option.map_some, Kernel.setSched, Function.update_eq_self]

/-- What is left to core 0 once it has released the barrier. -/
theorem kmain_zero_released : ∀ l ∈ (kmain 0).tails, .releaseCore1 ∉ l →
    ∀ y ∈ l, y = .awaitCore1 ∨ y = .startFirstTask := by
  decide

/-- A step of core 1 can be made before what is left to core 0 or after it. -/
theorem onKernel_one_comm {B : Board} {x : BootStep} (hx : x ∈ kmain 1) {todo : List BootStep}
    (htodo : x ≠ .awaitBarrier → ∀ y ∈ todo, y = .awaitCore1 ∨ y = .startFirstTask) (k : Kernel) :
    ((todo.foldlM (onKernel B 0) k).bind fun k' => onKernel B 1 k' x) =
      (onKernel B 1 k x).bind fun k' => todo.foldlM (onKernel B 0) k' := by
  have hlocal : ∀ f, (fun k => onKernel B 1 k x) = onHart 1 f →
      (∀ y ∈ todo, y = .awaitCore1 ∨ y = .startFirstTask) →
      ((todo.foldlM (onKernel B 0) k).bind fun k' => onKernel B 1 k' x) =
        (onKernel B 1 k x).bind fun k' => todo.foldlM (onKernel B 0) k' := by
    intro f hf hleft
    have hcomm := foldlM_bind_comm (f := onKernel B 0) (g := fun k => onKernel B 1 k x) (l := todo)
      (fun y hy b => ?_) k
    · exact hcomm
    · rcases hleft y hy with rfl | rfl
      · exact (Option.bind_fun_some _).symm
      · have hb : onKernel B 1 b x = onHart 1 f b := congrFun hf b
        rw [hf, hb]
        show (startFirst B.platform 0 b).bind (onHart 1 f) = (onHart 1 f b).bind (startFirst B.platform 0)
        rw [startFirst_onHart]
        exact onHart_comm (by decide) _ _ b
  simp only [kmain, if_neg (by decide : ¬ ((1 : Hart) = 0)), List.mem_cons, List.not_mem_nil, or_false] at hx
  rcases hx with rfl | rfl | rfl | rfl | rfl | rfl
  · exact Option.bind_fun_some _
  · exact Option.bind_fun_some _
  · exact hlocal _ (initMemoryProtection_onHart B 1) (htodo (by decide))
  · exact Option.bind_fun_some _
  · exact Option.bind_fun_some _
  · exact hlocal _ (startFirst_onHart B.platform 1) (htodo (by decide))

/-! ## Steps of `kmain` -/

section BootSteps
variable {B : Board} {h : Hart} {m m' : Machine} {x : BootStep} {todo : List BootStep}

theorem hart_cases : ∀ h : Hart, h = 0 ∨ h = 1 := by decide

theorem boot_todo (hx : (m.advance h todo).exec B h x = .continues m') :
    (m'.cores h).todo = todo ∧ ∀ h', h' ≠ h → m'.cores h' = m.cores h' := by
  have hframe := exec_frame hx
  constructor
  · rw [hframe.todo]
    simp [Machine.advance, Machine.setCore]
  · intro h' hne
    exact (hframe.others h' hne).trans (Function.update_of_ne hne _ _)

/-- Core 1 leaves its first wait when the barrier has been released. -/
theorem BootInv.released_of_left (hinv : BootInv B m) (htodo : (m.cores 1).todo = x :: todo)
    (hne : x ≠ .awaitBarrier) : ∀ y ∈ (m.cores 0).todo, y = .awaitCore1 ∨ y = .startFirstTask := by
  have hleft : ∀ l ∈ (kmain 1).tails, l.head? ≠ some .awaitBarrier → .awaitBarrier ∉ l := by decide
  have hmarked := hinv.marked 1
  have hnot := hleft _ ((List.mem_tails _ _).mpr hmarked.suffix) (by
    rw [htodo, List.head?_cons]
    exact fun he => hne (Option.some.inj he))
  have hbarrier : Post B 1 .awaitBarrier m := hmarked.of_done (by decide) hnot
  exact kmain_zero_released _ ((List.mem_tails _ _).mpr (hinv.marked 0).suffix) (hinv.bootBarrier hbarrier)

/-- A step of `kmain` uses up what it does. -/
theorem ahead_boot (hinv : BootInv B m) (htodo : (m.cores h).todo = x :: todo)
    (hx : (m.advance h todo).exec B h x = .continues m') : m'.ahead B = m.ahead B := by
  obtain ⟨hown, hothers⟩ := boot_todo hx
  have hkernel : onKernel B h m.kernel x = some m'.kernel := (exec_onKernel hx).1
  have hmem : x ∈ kmain h := (hinv.marked h).mem (htodo ▸ List.mem_cons_self)
  unfold Machine.ahead
  rcases hart_cases h with rfl | rfl
  · rw [hown, hothers 1 (by decide), htodo, List.foldlM_cons, Option.bind_eq_bind, hkernel, Option.bind_some]
  · have hcomm := onKernel_one_comm (B := B) hmem (fun hne => hinv.released_of_left htodo hne) m.kernel
    rw [hkernel, Option.bind_some] at hcomm
    rw [hown, hothers 0 (by decide), htodo, ← hcomm, Option.bind_assoc]
    rfl

/-! ### The state of a slot -/

theorem registerTask_state {P : Platform} {i : Fin 7} {k k' : Kernel}
    (hk : registerTask P (bootTask i).1 (bootTask i).2 k = some k') (y : TaskId) :
    k'.stateOf y.1 y.2 = if y = bootSlot i then some .ready else k.stateOf y.1 y.2 := by
  obtain ⟨a, b⟩ := y
  obtain ⟨s, hs, rfl⟩ := Option.map_eq_some_iff.mp hk
  unfold BitMapScheduler.registerTask at hs
  split at hs
  · rename_i hidx
    have hslot : (⟨((bootTask i).2.tcb P).priority.toNat, hidx⟩ : Fin MAX_PARTITIONS) = (bootSlot i).2 :=
      Fin.ext (Nat.mod_eq_of_lt hidx).symm
    rw [← Option.some.inj hs, hslot]
    by_cases ha : a = (bootTask i).1
    · subst ha
      by_cases hb : b = (bootSlot i).2
      · subst hb
        rw [if_pos (show ((bootTask i).1, (bootSlot i).2) = bootSlot i from rfl)]
        simp [Kernel.stateOf, Kernel.setSched, BitMapScheduler.stateAt]
        rfl
      · rw [if_neg fun he => hb (congrArg Prod.snd he)]
        simp [Kernel.stateOf, Kernel.setSched, BitMapScheduler.stateAt, Function.update_of_ne hb]
    · rw [if_neg fun he => ha (congrArg Prod.fst he)]
      simp [Kernel.stateOf, Kernel.setSched, Function.update_of_ne ha]
  · cases hs

/-- A step of `kmain` changes the state of the slot it registers, and of those of its own hart where it
starts the first task. -/
theorem onKernel_state {k k' : Kernel} (hk : onKernel B h k x = some k') (y : TaskId) :
    k'.stateOf y.1 y.2 = k.stateOf y.1 y.2 ∨ (x = .startFirstTask ∧ y.1 = h) ∨
      k'.stateOf y.1 y.2 = some .ready := by
  cases x with
  | registerTask i =>
    rw [registerTask_state hk]
    split
    · exact Or.inr (Or.inr rfl)
    · exact Or.inl rfl
  | startFirstTask =>
    by_cases hy : y.1 = h
    · exact Or.inr (Or.inl ⟨rfl, hy⟩)
    · obtain ⟨s, -, rfl⟩ := Option.map_eq_some_iff.mp hk
      refine Or.inl ?_
      simp [Kernel.stateOf, Kernel.setSched, Kernel.setPmp, Function.update_of_ne hy]
  | _ =>
    rw [← Option.some.inj hk]
    exact Or.inl rfl

/-- The task of a hart that `start_first_task` will find, as it is registered. -/
def firstIdx (h : Hart) : Fin 7 := if h = 0 then 0 else 2

theorem bootSlot_firstIdx (h : Hart) : bootSlot (firstIdx h) = (h, firstSlot h) := by
  revert h
  decide

/-- Until its hart starts it, a first task that has been registered is `Ready`. -/
def FirstReady (m : Machine) : Prop :=
  ∀ h, (m.cores h).mode ≠ .user → .registerTask (firstIdx h) ∉ (m.cores 0).todo →
    m.kernel.stateOf h (firstSlot h) = some .ready

theorem firstReady_boot (hready : FirstReady m) (hkmain : (m.cores h).mode = .kmain)
    (htodo : (m.cores h).todo = x :: todo) (hx : (m.advance h todo).exec B h x = .continues m') :
    FirstReady m' := by
  obtain ⟨hown, hothers⟩ := boot_todo hx
  have hkernel : onKernel B h m.kernel x = some m'.kernel := (exec_onKernel hx).1
  intro h1 hmode hreg
  by_cases hxi : x = .registerTask (firstIdx h1)
  · subst hxi
    have hstate := registerTask_state hkernel (h1, firstSlot h1)
    rw [← bootSlot_firstIdx, if_pos rfl] at hstate
    rwa [bootSlot_firstIdx] at hstate
  · have hstarted : ¬ (x = .startFirstTask ∧ h1 = h) := by
      rintro ⟨rfl, rfl⟩
      exact hmode (exec_post hx)
    have hmode1 : (m.cores h1).mode ≠ .user := by
      by_cases hh : h1 = h
      · rw [hh, hkmain]
        decide
      · rwa [hothers h1 hh] at hmode
    have hreg1 : .registerTask (firstIdx h1) ∉ (m.cores 0).todo := by
      by_cases hh : h = 0
      · subst hh
        rw [hown] at hreg
        rw [htodo]
        exact fun hi => (List.mem_cons.mp hi).elim (fun he => hxi he.symm) hreg
      · rwa [hothers 0 (Ne.symm hh)] at hreg
    rcases onKernel_state hkernel (h1, firstSlot h1) with hsame | hst | hr
    · exact hsame.trans (hready h1 hmode1 hreg1)
    · exact absurd hst hstarted
    · exact hr

end BootSteps

/-! ## The simulation -/

/-- The kernel with the first task of the hart put in place, if the hart has not done so. -/
def Machine.startedOn (P : Platform) (m : Machine) (h : Hart) (k : Kernel) : Kernel :=
  if (m.cores h).mode = .user then k else (firstChange P h).apply k

def Machine.started (P : Platform) (m : Machine) : System :=
  { m.system with kernel := m.startedOn P 1 (m.startedOn P 0 m.kernel) }

section Simulation
variable {B : Board} {h h' : Hart} {m m' : Machine}

theorem started_eq (huser : (m.cores h).mode = .user) (hne : h' ≠ h) (P : Platform) :
    m.started P = { m.system with kernel := m.startedOn P h' m.kernel } := by
  have hself : ∀ k, m.startedOn P h k = k := fun k => if_pos huser
  unfold Machine.started
  rcases hart_cases h with rfl | rfl
  · rcases hart_cases h' with rfl | rfl
    · exact absurd rfl hne
    · rw [hself]
  · rcases hart_cases h' with rfl | rfl
    · rw [hself]
    · exact absurd rfl hne

/-- Once both harts are in U-mode, the machine is the system. -/
theorem started_of_user (huser : ∀ h, (m.cores h).mode = .user) (P : Platform) :
    m.started P = m.system := by
  rw [started_eq (huser 0) (show (1 : Hart) ≠ 0 by decide), Machine.startedOn, if_pos (huser 1)]

/-- With both flags set, a hart that is not in U-mode has only its first task to start. -/
theorem BootInv.rest (hinv : BootInv B m) (hbarrier : m.bootBarrier = true) (hcore1 : m.core1Ready = true)
    (h : Hart) (k : Kernel) : (m.cores h).todo.foldlM (onKernel B h) k =
      if (m.cores h).mode = .user then some k else startFirst B.platform h k := by
  split
  · rename_i huser
    rw [hinv.user h huser]
    rfl
  · rename_i hnot
    have hleft : ∀ h, ∀ l ∈ (kmain h).tails, .startFirstTask ∈ l → (h = 0 → .releaseCore1 ∉ l) →
        (h = 1 → .signalReady ∉ l) → l = [.awaitCore1, .startFirstTask] ∨ l = [.startFirstTask] := by
      decide
    have hmem : .startFirstTask ∈ (m.cores h).todo := by
      by_contra hno
      have hlast : .startFirstTask ∈ kmain h := kmain_last h ▸ List.mem_append_right _ List.mem_cons_self
      exact hnot ((hinv.marked h).of_done hlast hno)
    rcases hleft h _ ((List.mem_tails _ _).mpr (hinv.marked h).suffix) hmem
      (fun h0 => h0 ▸ hinv.bootBarrier hbarrier) (fun h1 => h1 ▸ hinv.core1Ready hcore1) with ht | ht
    · rw [ht]
      exact Option.bind_fun_some _
    · rw [ht]
      exact Option.bind_fun_some _

theorem BootInv.first_registered (hinv : BootInv B m) (hbarrier : m.bootBarrier = true) (h : Hart) :
    .registerTask (firstIdx h) ∉ (m.cores 0).todo := by
  intro hmem
  rcases kmain_zero_released _ ((List.mem_tails _ _).mpr (hinv.marked 0).suffix)
    (hinv.bootBarrier hbarrier) _ hmem with he | he <;> cases he

/-- With a hart in U-mode, what is left to the other one is to put its first task in place. -/
theorem ahead_started (hinv : BootInv B m) (hready : FirstReady m) (huser : (m.cores h).mode = .user) :
    m.ahead B = some (m.started B.platform).kernel := by
  obtain ⟨hbarrier, hcore1⟩ := hinv.passed huser
  have hstatic := (hinv.released hbarrier).2.2
  have hself : ∀ k, (m.cores h).todo.foldlM (onKernel B h) k = some k := fun k => by
    rw [hinv.rest hbarrier hcore1, if_pos huser]
  have hother : ∀ h', (m.cores h').todo.foldlM (onKernel B h') m.kernel =
      some (m.startedOn B.platform h' m.kernel) := by
    intro h'
    rw [hinv.rest hbarrier hcore1, Machine.startedOn]
    split
    · rfl
    · exact startFirst_change hstatic (hready h' ‹_› (hinv.first_registered hbarrier h'))
  unfold Machine.ahead
  rcases hart_cases h with rfl | rfl
  · rw [started_eq huser (show (1 : Hart) ≠ 0 by decide), hself, Option.bind_some]
    exact hother 1
  · rw [started_eq huser (show (0 : Hart) ≠ 1 by decide), hother 0, Option.bind_some]
    exact hself _

/-- No first task has been terminated before its hart started it. -/
def FirstTasksLive (m : Machine) : Prop :=
  ∀ h, (m.cores h).mode ≠ .user → m.kernel.stateOf h (firstSlot h) ≠ some .terminated

instance (m : Machine) : Decidable (FirstTasksLive m) := by
  unfold FirstTasksLive
  infer_instance

def MachineEvent.task? : MachineEvent → Option Event
  | .task ev => some ev
  | _ => none

/-- The system is what the machine will be when both harts have left `kmain`. -/
structure Matches (B : Board) (m : Machine) (s : System) : Prop where
  boot : BootInv B m
  sys : SysInv s
  ready : FirstReady m
  inPass : s.inPass = m.system.inPass
  ahead : m.ahead B = some s.kernel

theorem Matches.eq_started {s : System} (hs : Matches B m s) (huser : (m.cores h).mode = .user) :
    s = m.started B.platform := by
  have hkernel := (ahead_started hs.boot hs.ready huser).symm.trans hs.ahead
  have hpass : s.inPass = (m.started B.platform).inPass := hs.inPass
  obtain ⟨k, b⟩ := s
  exact congrArg₂ System.mk (Option.some.inj hkernel).symm hpass

theorem matches_poweredOn (hon : PoweredOn m) : ∃ s, Initial B.platform s ∧ Matches B m s := by
  obtain ⟨s, hs, hpass, hahead⟩ := ahead_poweredOn (B := B) hon
  have hreg : ∀ h, .registerTask (firstIdx h) ∈ kmain 0 := by decide
  refine ⟨s, hs, bootInv_poweredOn hon, sysInv_initial hs, fun h _ hnot => ?_, hpass, hahead⟩
  rw [(hon.cores 0).2.1] at hnot
  exact absurd (hreg h) hnot

/-- An event by which no hart moves on. -/
theorem Matches.frame {s : System} (hs : Matches B m s) (hboot : BootInv B m')
    (htodo : ∀ h, (m'.cores h).todo = (m.cores h).todo)
    (hmode : ∀ h, (m.cores h).mode = .user → (m'.cores h).mode = .user) (hsystem : m'.system = m.system) :
    Matches B m' s where
  boot := hboot
  sys := hs.sys
  ready := fun h hm hreg => by
    rw [htodo] at hreg
    rw [Machine.kernel, hsystem]
    exact hs.ready h (fun hu => hm (hmode h hu)) hreg
  inPass := by rw [hsystem]; exact hs.inPass
  ahead := by
    rw [Machine.ahead, htodo, htodo, Machine.kernel, hsystem]
    exact hs.ahead

theorem matches_stop {s : System} (hs : Matches B m s) (hkmain : (m.cores h).mode = .kmain) {mode : Mode}
    (hne : mode ≠ .user) : Matches B (m.setMode h mode) s := by
  have hcore : ∀ h', ((m.setMode h mode).cores h').todo = (m.cores h').todo ∧
      ((m.cores h').mode = .user → ((m.setMode h mode).cores h').mode = .user) := by
    intro h'
    by_cases hh : h' = h
    · subst hh
      simp [Machine.setMode, Machine.setCore, hkmain]
    · simp [Machine.setMode, Machine.setCore, Function.update_of_ne hh]
  exact hs.frame (bootInv_stop hs.boot hkmain hne) (fun h' => (hcore h').1) (fun h' => (hcore h').2) rfl

theorem matches_boot {s : System} (hs : Matches B m s) {e : MachineEvent} (hstep : MachineStep B m e m')
    (he : e.task? = none) : Matches B m' s := by
  cases machineStep_cases hstep with
  | halts hkmain htodo hx => exact matches_stop hs hkmain (by decide)
  | continues hkmain htodo hx =>
    exact ⟨bootInv_step hs.boot hstep, hs.sys, firstReady_boot hs.ready hkmain htodo hx,
      hs.inPass.trans (exec_onKernel hx).2.symm, (ahead_boot hs.boot htodo hx).trans hs.ahead⟩
  | lost hkmain => exact matches_stop hs hkmain (by decide)
  | elapse n => exact hs.frame (bootInv_step hs.boot hstep) (fun _ => rfl) (fun _ => id) rfl
  | task => cases he

theorem firstChange_ne (P : Platform) (h : Hart) :
    taskC ≠ ((firstChange P h).hart, (firstChange P h).slot) ∧
      hsmTask ≠ ((firstChange P h).hart, (firstChange P h).slot) := by
  show taskC ≠ (h, firstSlot h) ∧ hsmTask ≠ (h, firstSlot h)
  revert h
  decide

theorem noWaiter_first {s : System} (hs : SysInv s) {k : Kernel} (hk : s.kernel.mutexes = k.mutexes)
    (P : Platform) (h : Hart) : NoWaiterIn (firstChange P h) k := by
  intro i m hm w hw he
  have hfirst : ∀ h, ¬ Locker (h, firstSlot h) := by decide
  refine hfirst h ?_
  rw [show (h, firstSlot h) = waiterTask w from he.symm]
  exact hs.shape.waiters i m ((congrFun hk i).trans hm) w hw

/-- A trap, or a step of the Watchdog, on a hart in U-mode. -/
theorem matches_task {s : System} (hs : Matches B m s) {ev : Event} (hstep : MachineStep B m (.task ev) m')
    (hlive : FirstTasksLive m') : ∃ s', Matches B m' s' ∧ Step B.platform s ev s' := by
  have hboot := bootInv_step hs.boot hstep
  cases machineStep_cases hstep with
  | @task _ s1 huser hraised hs1 =>
    have hmode : ∀ h, (m.rearm ev h).mode = (m.cores h).mode := fun h => by
      obtain ⟨t, ht⟩ := rearm_core m ev h
      rw [ht]
    obtain ⟨h', hne⟩ : ∃ h', h' ≠ ev.hart := exists_ne _
    have honly : ∀ h, (m.cores h).mode ≠ .user → h = h' := fun h hm => by
      have hcases : ∀ a b c : Hart, a ≠ c → b ≠ c → a = b := by decide
      exact hcases h h' ev.hart (fun he => hm (he ▸ huser)) hne
    have huser' : (({ m with system := s1, cores := m.rearm ev } : Machine).cores ev.hart).mode = .user :=
      (hmode _).trans huser
    have heq := hs.eq_started huser
    rw [started_eq huser hne] at heq
    suffices hsim : FirstReady { m with system := s1, cores := m.rearm ev } ∧
        Step B.platform s ev (({ m with system := s1, cores := m.rearm ev } : Machine).started B.platform) by
      exact ⟨_, ⟨hboot, sysInv_step s ev _ hs.sys hsim.2, hsim.1, rfl, ahead_started hboot hsim.1 huser'⟩,
        hsim.2⟩
    rw [started_eq huser' hne]
    by_cases hm : (m.cores h').mode = .user
    · have hself : m.startedOn B.platform h' m.kernel = m.kernel := if_pos hm
      have hself' : ({ m with system := s1, cores := m.rearm ev } : Machine).startedOn B.platform h'
          s1.kernel = s1.kernel := if_pos ((hmode h').trans hm)
      rw [heq, hself]
      refine ⟨fun h hnot _ => ?_, ?_⟩
      · obtain rfl := honly h fun hu => hnot ((hmode h).trans hu)
        exact absurd ((hmode h).trans hm) hnot
      · show Step B.platform m.system ev ⟨_, s1.inPass⟩
        rw [hself']
        exact hs1
    · have hchange : m.startedOn B.platform h' m.kernel = (firstChange B.platform h').apply m.kernel :=
        if_neg hm
      have hchange' : ({ m with system := s1, cores := m.rearm ev } : Machine).startedOn B.platform h'
          s1.kernel = (firstChange B.platform h').apply s1.kernel :=
        if_neg fun hu => hm ((hmode h').symm.trans hu)
      rw [heq, hchange]
      have hmutexes : s.kernel.mutexes = m.kernel.mutexes := by
        rw [heq, hchange]
        rfl
      obtain ⟨hready, hsame⟩ := step_change (c := firstChange B.platform h') hne.symm
        (noWaiter_first hs.sys hmutexes B.platform h')
        (hs.ready h' hm (hs.boot.first_registered (hs.boot.passed huser).1 h')) (fun _ => ⟨rfl, rfl⟩)
        (firstChange_ne B.platform h').1 (firstChange_ne B.platform h').2 hs1
        (hlive h' fun hu => hm ((hmode h').symm.trans hu))
      refine ⟨fun h hnot _ => ?_, ?_⟩
      · obtain rfl := honly h fun hu => hnot ((hmode h).trans hu)
        exact hready
      · show Step B.platform _ ev ⟨_, s1.inPass⟩
        rw [hchange']
        exact hsame

theorem matches_run {m0 : Machine} {es : List MachineEvent} (hon : PoweredOn m0)
    (hrun : Run (fun m e m' => MachineStep B m e m' ∧ FirstTasksLive m') m0 es m) :
    ∃ s0 s, Initial B.platform s0 ∧ Matches B m s ∧
      Run (Step B.platform) s0 (es.filterMap MachineEvent.task?) s := by
  obtain ⟨s0, hinit, hmatch⟩ := matches_poweredOn (B := B) hon
  have hkeep : ∀ m e m' s ev, Matches B m s → MachineStep B m e m' ∧ FirstTasksLive m' →
      e.task? = some ev → ∃ s', Matches B m' s' ∧ Step B.platform s ev s' := by
    intro m e m' s ev hs hstep he
    cases e with
    | task ev' =>
      obtain rfl := Option.some.inj he
      exact matches_task hs hstep.1 hstep.2
    | _ => cases he
  obtain ⟨s, hs, hrun'⟩ := hrun.simulated (R := Matches B)
    (fun _ _ _ _ hs hstep he => matches_boot hs hstep.1 he) hkeep hmatch
  exact ⟨s0, s, hinit, hs, hrun'⟩

/-- From power-on, in any interleaving of the two harts, as long as no task is terminated that its hart has
yet to start first: with a hart in U-mode, the machine is in a state that the system reaches from its boot
by the same traps, but for the first task of the other hart when that one is still in `kmain`. -/
theorem boot_refines (B : Board) (m0 m : Machine) (es : List MachineEvent) (hon : PoweredOn m0)
    (hrun : Run (fun m e m' => MachineStep B m e m' ∧ FirstTasksLive m') m0 es m) (h : Hart)
    (huser : (m.cores h).mode = .user) :
    ∃ s0, Initial B.platform s0 ∧
      Run (Step B.platform) s0 (es.filterMap MachineEvent.task?) (m.started B.platform) := by
  obtain ⟨s0, s, hinit, hs, hrun'⟩ := matches_run hon hrun
  rw [hs.eq_started huser] at hrun'
  exact ⟨s0, hinit, hrun'⟩

end Simulation

/-- Core 1 starts first, and its Task B yields while core 0 is still in `kmain`. -/
def bootYield : List MachineEvent :=
  List.replicate 21 (.boot 0) ++ List.replicate 6 (.boot 1) ++ .task (syscall 1 1 0 0 0) ::
    List.replicate 2 (.boot 0)

theorem boot_refines_yield : ∃ m,
    Run (fun m e m' => MachineStep packedBoard m e m' ∧ FirstTasksLive m') powerOn bootYield m ∧
      (m.cores 0).mode = .user ∧ ∃ s0, Initial packedBoard.platform s0 ∧
        Run (Step packedBoard.platform) s0 (bootYield.filterMap MachineEvent.task?)
          (m.started packedBoard.platform) := by
  have heval : (bootYield.foldlM (fun m e => (Machine.next packedBoard m e).filter fun m' =>
      FirstTasksLive m') powerOn).map (fun m => (m.cores 0).mode) = some .user := by
    decide +kernel
  obtain ⟨m, hm, hmode⟩ := Option.map_eq_some_iff.mp heval
  have hlive : ∀ m e m', ((Machine.next packedBoard m e).filter fun m' => FirstTasksLive m') = some m' →
      MachineStep packedBoard m e m' ∧ FirstTasksLive m' := fun m e m' hs => by
    obtain ⟨hnext, hl⟩ := Option.filter_eq_some_iff.mp hs
    exact ⟨hnext, of_decide_eq_true hl⟩
  have hrun := (Run.of_foldlM hm).mono hlive
  exact ⟨m, hrun, hmode, boot_refines packedBoard powerOn m _ powerOn_poweredOn hrun 0 hmode⟩

end Cerberus.Boot
