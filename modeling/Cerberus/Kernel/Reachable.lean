import Mathlib.Tactic.FinCases
import Cerberus.Foundations.Transition
import Cerberus.Kernel.TrapSpec

/-! # Reachable states

What every state of the two-hart system keeps from the boot registration: the tasks and their
C-lists, who may lock, and that the locks are free between traps. `step_cases` then says once what a
step of the system does to the view; every invariant of the later modules is derived from it. -/
namespace Cerberus.Kernel
open Scheduler Sync Memory Transition
set_option autoImplicit false

/-! ## The boot registration -/

def bootStatic (x : TaskId) : Option Static :=
  ((coreTasks x.1).find? fun s => s.priority.toNat = x.2.val).map fun s =>
    ⟨s.priority, s.name, cList s.capabilities⟩

def bootState (x : TaskId) : Option TaskState :=
  (bootStatic x).map fun _ => if x = (0, 0) ∨ x = (1, 2) then .running else .ready

def taskA : TaskId := (0, 1)
def taskC : TaskId := (1, 3)
def hsmTask : TaskId := (0, 4)
def watchdog : TaskId := (0, 0)

/-- The tasks with a mutex capability: Task A and Task C. -/
def Locker (x : TaskId) : Prop := x = taskA ∨ x = taskC

instance (x : TaskId) : Decidable (Locker x) := by
  unfold Locker
  infer_instance

theorem bootSched_zero (P : Platform) : ∃ s, bootSched P 0 = some s ∧ s.currentPartitionIdx = 0 ∧
    ∀ i, statics s i = bootStatic (0, i) ∧ s.stateAt i = bootState (0, i) := by
  refine ⟨_, rfl, rfl, fun i => ?_⟩
  fin_cases i <;> exact ⟨rfl, rfl⟩

theorem bootSched_one (P : Platform) : ∃ s, bootSched P 1 = some s ∧ s.currentPartitionIdx = 2 ∧
    ∀ i, statics s i = bootStatic (1, i) ∧ s.stateAt i = bootState (1, i) := by
  refine ⟨_, rfl, rfl, fun i => ?_⟩
  fin_cases i <;> exact ⟨rfl, rfl⟩

def bootView : View where
  static := bootStatic
  state := bootState
  current := fun h => if h = 0 then 0 else 2
  mutexes := fun i => if i = 0 then some ⟨false, none, 0#32⟩ else none

theorem boot_view (P : Platform) (m : Memory) (r : Hart → PmpRegs) :
    ∃ k, boot P m r = some k ∧ view k = bootView ∧ k.mutexLock = Spinlock.new ∧
      k.schedLock = Spinlock.new ∧ k.pmp = fun h => reprogramPmpStack P.layout
        (if h = 0 then watchdogSpec.name else taskBSpec.name)
          (initMemoryProtection P.layout (r h)) := by
  obtain ⟨s0, h0, hc0, ht0⟩ := bootSched_zero P
  obtain ⟨s1, h1, hc1, ht1⟩ := bootSched_one P
  refine ⟨_, by simp only [boot, h0, h1]; rfl, ?_, rfl, rfl, rfl⟩
  apply View.ext
  · funext x
    obtain ⟨h, i⟩ := x
    fin_cases h
    · exact (ht0 i).1
    · exact (ht1 i).1
  · funext x
    obtain ⟨h, i⟩ := x
    fin_cases h
    · exact (ht0 i).2
    · exact (ht1 i).2
  · funext h
    fin_cases h
    · exact hc0
    · exact hc1
  · rfl

theorem bootStatic_lockRight (x : TaskId) (c : Fin 8) :
    (bootStatic x).bind (fun s => lockRight (s.capabilities c)) =
      if Locker x ∧ c = 0 then some 0 else none := by
  obtain ⟨h, i⟩ := x
  revert h i c
  decide +kernel

theorem bootStatic_unlockRight (x : TaskId) (c : Fin 8) :
    (bootStatic x).bind (fun s => unlockRight (s.capabilities c)) =
      if Locker x ∧ c = 0 then some 0 else none := by
  obtain ⟨h, i⟩ := x
  revert h i c
  decide +kernel

theorem bootStatic_priority (x : TaskId) :
    ∀ s, bootStatic x = some s → s.priority = BitVec.ofNat 8 x.2.val := by
  intro s hs
  obtain ⟨sp, hsp, rfl⟩ := Option.map_eq_some_iff.mp hs
  have hp : sp.priority.toNat = x.2.val := by simpa using List.find?_some hsp
  rw [← hp]
  simp

theorem waiterTask_of_locker {x : TaskId} (hx : Locker x) : waiterTask x.2 = x := by
  rcases hx with rfl | rfl <;> rfl

theorem bootStatic_isSome_of_locker {x : TaskId} (hx : Locker x) : (bootStatic x).isSome := by
  rcases hx with rfl | rfl <;> rfl

/-! ## Valid effects -/

def SleepOrIpc : TaskState → Prop
  | .blocked _ => True
  | .blockedOnIpcSend _ _ _ => True
  | .blockedOnIpcRecv _ _ _ => True
  | _ => False

def WaitsForPartner : TaskState → Prop
  | .blockedOnIpcSend _ _ _ => True
  | .blockedOnIpcRecv _ _ _ => True
  | _ => False

/-- The running task of `h` holds a right that names mutex `i`. -/
def View.Grants (v : View) (h : Hart) (right : Capability → Option Byte) (i : Fin 8) : Prop :=
  ∃ s c, v.static (v.running h) = some s ∧ right (s.capabilities c) = some (BitVec.ofNat 8 i.val)

/-- What the handler has checked before it applies an effect. -/
def Effect.Valid (h : Hart) (v : View) : Effect → Prop
  | .none | .tick _ | .resched => True
  | .block st => SleepOrIpc st
  | .grant i => (∃ m, v.mutexes i = some m ∧ m.locked = false) ∧ v.Grants h lockRight i
  | .wait i => (∃ m, v.mutexes i = some m ∧ m.locked = true) ∧ v.Grants h lockRight i
  | .release i => (∃ m, v.mutexes i = some m) ∧ v.Grants h unlockRight i
  | .transfer x => ∃ st, v.state x = some st ∧ WaitsForPartner st
  | .kill x => (v.state x).isSome

theorem lockEffect_valid {k : Kernel} (hk : Sound k) (h : Hart) (capIdx : Word) :
    (lockEffect k h capIdx).Valid h (view k) := by
  obtain ⟨r, hr, hm⟩ := grantedMutex_eq hk h capIdx (Or.inl rfl)
  unfold lockEffect
  rw [hr]
  cases r with
  | none => trivial
  | some im =>
    obtain ⟨i, m⟩ := im
    obtain ⟨hmi, hgrant⟩ := hm i m rfl
    by_cases hlocked : m.locked = false
    · simp only [if_pos hlocked]
      exact ⟨⟨m, hmi, hlocked⟩, hgrant⟩
    · simp only [if_neg hlocked]
      exact ⟨⟨m, hmi, by simpa using hlocked⟩, hgrant⟩

theorem unlockEffect_valid {k : Kernel} (hk : Sound k) (h : Hart) (capIdx : Word) :
    (unlockEffect k h capIdx).Valid h (view k) := by
  obtain ⟨r, hr, hm⟩ := grantedMutex_eq hk h capIdx (Or.inr rfl)
  unfold unlockEffect
  rw [hr]
  cases r with
  | none => trivial
  | some im =>
    obtain ⟨i, m⟩ := im
    obtain ⟨hmi, hgrant⟩ := hm i m rfl
    exact ⟨⟨m, hmi⟩, hgrant⟩

theorem ipcEffect_valid {α : Type} {k : Kernel} (h : Hart) (capIdx : Word)
    (right : Capability → Option Byte) {want : Byte → TaskState → Option α}
    (hwant : ∀ e st a, want e st = some a → WaitsForPartner st) {st : Byte → TaskState}
    (hst : ∀ e, SleepOrIpc (st e)) : (ipcEffect k h capIdx right want st).Valid h (view k) := by
  unfold ipcEffect
  split
  · split
    · rename_i hf
      obtain ⟨st', hst', hw⟩ := findPartner_state hf
      exact ⟨st', hst', hwant _ st' _ hw⟩
    · exact hst _
  · trivial

theorem waitingReceiver_waits (e : Byte) (st : TaskState) (a : Word × Word)
    (hw : waitingReceiver e st = some a) : WaitsForPartner st := by
  cases st <;> trivial

theorem waitingSender_waits (e : Byte) (st : TaskState) (a : Word × Word)
    (hw : waitingSender e st = some a) : WaitsForPartner st := by
  cases st <;> trivial

theorem findTask_isSome {k : Kernel} {targetPrio : Word} {x : TaskId}
    (hf : findTask k targetPrio = some x) : ((view k).state x).isSome := by
  rw [view_state_isSome]
  unfold findTask at hf
  split at hf
  · split at hf
    · rename_i hs
      rw [← Option.some.inj hf]
      exact hs
    · split at hf
      · rename_i hs
        rw [← Option.some.inj hf]
        exact hs
      · cases hf
  · cases hf

theorem effect_valid {k : Kernel} (hk : Sound k) (h : Hart) (t : Trap) :
    (effect k h t).Valid h (view k) := by
  unfold effect
  split
  · trivial
  split
  · trivial
  split
  · unfold ecallEffect
    dsimp only
    split
    · trivial
    · trivial
    · exact lockEffect_valid hk h _
    · exact unlockEffect_valid hk h _
    · exact ipcEffect_valid h _ _ waitingReceiver_waits fun _ => trivial
    · exact ipcEffect_valid h _ _ waitingSender_waits fun _ => trivial
    · split
      · rename_i hf
        exact findTask_isSome hf
      · trivial
    · trivial
  split
  · trivial
  · exact hk.indexed.running h

/-! ## What every reachable view keeps -/

/-- `locked` and the owner agree, and nobody waits for a free mutex. -/
structure KernelMutex.Consistent (m : KernelMutex) : Prop where
  owned : m.locked = true ↔ m.ownerTaskIdx.isSome = true
  waited : m.waitersBitmap ≠ 0#32 → m.locked = true

theorem KernelMutex.consistent_handTo (m : KernelMutex) (w : Fin MAX_PARTITIONS) :
    (m.handTo w).Consistent := ⟨⟨fun _ => rfl, fun _ => rfl⟩, fun _ => rfl⟩

theorem KernelMutex.consistent_free {m : KernelMutex} (hl : BitSet.least m.waitersBitmap = none) :
    m.free.Consistent where
  owned := by simp [KernelMutex.free]
  waited := fun hw => absurd (BitSet.eq_zero_of_least hl) hw

/-- Only mutex 0 exists, and only Task A and Task C own it or wait for it. -/
structure View.BootShape (v : View) : Prop where
  static : v.static = bootStatic
  isSome : ∀ x, (v.state x).isSome = (bootStatic x).isSome
  running : ∀ h, (v.state (v.running h)).isSome
  mutexes : ∀ i m, v.mutexes i = some m → i = 0
  waiters : ∀ i m, v.mutexes i = some m → ∀ w, BitSet.Mem m.waitersBitmap w →
    Locker (waiterTask w)
  owners : ∀ i m, v.mutexes i = some m → ∀ o, m.ownerTaskIdx = some o →
    ∃ x, Locker x ∧ o = ownerByte x.2
  waiting : ∀ x b, v.state x = some (.blockedOnMutex b) → Locker x ∧ b = 0#8
  consistent : ∀ i m, v.mutexes i = some m → m.Consistent

namespace View.BootShape
variable {v : View}

theorem indexed (hv : v.BootShape) : v.Indexed where
  priority := fun x s hs => bootStatic_priority x s (hv.static ▸ hs)
  running := hv.running
  waiters := fun i m hm w hw => by
    rw [hv.isSome]
    exact bootStatic_isSome_of_locker (hv.waiters i m hm w hw)
  owned := fun i m hm => (hv.consistent i m hm).owned.mpr

theorem locker_of_grants (hv : v.BootShape) {h : Hart} {right : Capability → Option Byte}
    {i : Fin 8} (hright : right = lockRight ∨ right = unlockRight) (hg : v.Grants h right i) :
    Locker (v.running h) := by
  obtain ⟨s, c, hs, hb⟩ := hg
  rw [hv.static] at hs
  by_contra hno
  rcases hright with rfl | rfl
  · have hl := bootStatic_lockRight (v.running h) c
    rw [hs, if_neg fun hc => hno hc.1] at hl
    have hl' : lockRight (s.capabilities c) = none := hl
    rw [hl'] at hb
    cases hb
  · have hl := bootStatic_unlockRight (v.running h) c
    rw [hs, if_neg fun hc => hno hc.1] at hl
    have hl' : unlockRight (s.capabilities c) = none := hl
    rw [hl'] at hb
    cases hb

theorem setState (hv : v.BootShape) (x : TaskId) {st : TaskState}
    (hst : ∀ b, st = .blockedOnMutex b → Locker x ∧ b = 0#8) : (v.setState x st).BootShape where
  static := hv.static
  isSome := fun y => (isSome_setState v x y st).trans (hv.isSome y)
  running := fun h => by
    rw [isSome_setState]
    exact hv.running h
  mutexes := hv.mutexes
  waiters := hv.waiters
  owners := hv.owners
  waiting := fun y b hy => by
    rw [state_setState] at hy
    by_cases hyx : y = x
    · rw [if_pos hyx] at hy
      obtain ⟨_, -, hst'⟩ := Option.map_eq_some_iff.mp hy
      rw [hyx]
      exact hst b hst'
    · rw [if_neg hyx] at hy
      exact hv.waiting y b hy
  consistent := hv.consistent

theorem setMutex (hv : v.BootShape) {i : Fin 8} {m : KernelMutex} (hi : i = 0)
    (hw : ∀ w, BitSet.Mem m.waitersBitmap w → Locker (waiterTask w))
    (ho : ∀ o, m.ownerTaskIdx = some o → ∃ x, Locker x ∧ o = ownerByte x.2)
    (hc : m.Consistent) : (v.setMutex i m).BootShape where
  static := hv.static
  isSome := hv.isSome
  running := hv.running
  mutexes := fun _ _ hj => setMutex_rule hi (fun j mj _ => hv.mutexes j mj) hj
  waiters := fun _ _ hj => setMutex_rule hw (fun j mj _ => hv.waiters j mj) hj
  owners := fun _ _ hj => setMutex_rule ho (fun j mj _ => hv.owners j mj) hj
  waiting := hv.waiting
  consistent := fun _ _ hj => setMutex_rule hc (fun j mj _ => hv.consistent j mj) hj

/-- There is one mutex, so that after an update it is the updated one. -/
theorem of_setMutex (hv : v.BootShape) {i j : Fin 8} {m m' mj : KernelMutex}
    (hm : v.mutexes i = some m) (hj : (v.setMutex i m').mutexes j = some mj) : j = i ∧ mj = m' := by
  refine setMutex_rule ⟨rfl, rfl⟩ (fun j mj hne hj => ?_) hj
  exact absurd ((hv.mutexes j mj hj).trans (hv.mutexes i m hm).symm) hne

theorem release (hv : v.BootShape) (i : Fin 8) : (v.release i).BootShape := by
  refine release_rule hv (fun m hm hl => ?_) fun m w hm hl => ?_
  · exact hv.setMutex (hv.mutexes i m hm) (hv.waiters i m hm) (fun o ho => by cases ho)
      (m.consistent_free hl)
  · have hw := hv.waiters i m hm w (BitSet.mem_of_least hl)
    refine (hv.setMutex (hv.mutexes i m hm) (fun w' hw' => ?_) (fun o ho => ?_)
      (m.consistent_handTo w)).setState _ fun b hb => by cases hb
    · exact hv.waiters i m hm w' (BitSet.mem_erase.mp hw').1
    · exact ⟨waiterTask w, hw, (Option.some.inj ho).symm⟩

theorem swap (hv : v.BootShape) {h : Hart} {n : Fin MAX_PARTITIONS}
    (hn : v.state (h, n) = some .ready) : (v.swap h n).BootShape where
  static := hv.static
  isSome := fun x => (isSome_swap v x h n).trans (hv.isSome x)
  running := fun h' => by
    rw [isSome_swap]
    by_cases hh : h' = h
    · subst hh
      simp [View.running, View.swap, hn]
    · have hr : (v.swap h n).running h' = v.running h' := by
        simp [View.running, View.swap, hh]
      rw [hr]
      exact hv.running h'
  mutexes := hv.mutexes
  waiters := hv.waiters
  owners := hv.owners
  waiting := fun x b hx => hv.waiting x b ((state_swap_iff (by simp) (by simp) hn).mp hx)
  consistent := hv.consistent

theorem resched (hv : v.BootShape) {h : Hart} {isTick : Bool} {v' : View}
    (hr : View.Resched h isTick v v') : v'.BootShape := by
  rcases hr with ⟨rfl, -⟩ | ⟨n, hn, rfl⟩
  · exact hv
  · exact hv.swap hn

theorem wake (hv : v.BootShape) (h : Hart) (now : Word) : (v.wake h now).BootShape := by
  have hshape := Effect.apply_shape h v (.tick now)
  refine ⟨hv.static, fun x => (hshape.isSome x).trans (hv.isSome x), fun h' => ?_, hv.mutexes,
    hv.waiters, hv.owners, fun x b hx => ?_, hv.consistent⟩
  · exact (hshape.isSome _).trans (hv.running h')
  · exact hv.waiting x b (state_of_wake (by simp) hx)

theorem leads (hv : v.BootShape) {h : Hart} {e : Effect} {v' : View} (hvalid : e.Valid h v)
    (hl : e.Leads h v v') : v'.BootShape := by
  have happly : (e.apply h v).BootShape := by
    cases e with
    | none => exact hv
    | tick now => exact hv.wake h now
    | resched => exact hv
    | block st => exact hv.setState _ fun b hb => by subst hb; exact hvalid.elim
    | grant i =>
      obtain ⟨⟨m, hm, -⟩, hg⟩ := hvalid
      have hrun := hv.locker_of_grants (Or.inl rfl) hg
      simp only [Effect.apply, hm]
      refine hv.setMutex (hv.mutexes i m hm) (hv.waiters i m hm) (fun o ho => ?_)
        ⟨⟨fun _ => rfl, fun _ => rfl⟩, fun _ => rfl⟩
      exact ⟨v.running h, hrun, (Option.some.inj ho).symm⟩
    | wait i =>
      obtain ⟨⟨m, hm, hlocked⟩, hg⟩ := hvalid
      have hrun := hv.locker_of_grants (Or.inl rfl) hg
      have hi := hv.mutexes i m hm
      simp only [Effect.apply, hm]
      refine (hv.setState _ fun b hb => ⟨hrun, ?_⟩).setMutex hi (fun w hw => ?_)
        (hv.owners i m hm) ⟨(hv.consistent i m hm).owned, fun _ => hlocked⟩
      · have hb' : BitVec.ofNat 8 i.val = b := by simpa using hb
        rw [← hb', hi]
        rfl
      · rcases BitSet.mem_insert.mp hw with hw | rfl
        · exact hv.waiters i m hm w hw
        · exact (waiterTask_of_locker hrun).symm ▸ hrun
    | release i => exact hv.release i
    | transfer x => exact hv.setState _ fun b hb => by cases hb
    | kill x =>
      refine recoverAll_induction (I := View.BootShape) (fun u i hu _ => hu.release i) ?_
      exact hv.setState _ fun b hb => by cases hb
  rcases hl.cases with rfl | ⟨_, -, hr⟩
  · exact happly
  · exact happly.resched hr

end View.BootShape

/-! ## Steps of the system -/

/-- What every reachable state of the system satisfies. -/
structure SysInv (s : System) : Prop where
  shape : (view s.kernel).BootShape
  mutexLock : s.kernel.mutexLock.owner = none
  pmp : ∀ h, Booted (s.kernel.pmp h)

theorem sound_of_bootShape {k : Kernel} (hv : (view k).BootShape)
    (hm : k.mutexLock.owner = none) : Sound k where
  indexed := hv.indexed
  caps := fun x s hs c b hb => by
    rw [hv.static] at hs
    have hzero : ∀ right : Capability → Option Byte, (bootStatic x).bind
        (fun s => right (s.capabilities c)) = (if Locker x ∧ c = 0 then some 0 else none) →
        right (s.capabilities c) = some b → b.toNat < 8 := by
      intro right hr hsome
      rw [hs] at hr
      have hr' : right (s.capabilities c) = if Locker x ∧ c = 0 then some 0 else none := hr
      rw [hsome] at hr'
      split at hr'
      · rw [Option.some.inj hr']
        decide
      · cases hr'
    rcases hb with hb | hb
    · exact hzero lockRight (bootStatic_lockRight x c) hb
    · exact hzero unlockRight (bootStatic_unlockRight x c) hb
  lockers := fun x s hs c b hb => by
    rw [hv.static] at hs
    have hl := bootStatic_lockRight x c
    rw [hs] at hl
    have hl' : lockRight (s.capabilities c) = if Locker x ∧ c = 0 then some 0 else none := hl
    rw [hb] at hl'
    by_cases hx : Locker x ∧ c = 0
    · exact waiterTask_of_locker hx.1
    · rw [if_neg hx] at hl'
      cases hl'
  mutexLock := hm

theorem SysInv.sound {s : System} (hs : SysInv s) (m : Memory) : Sound (s.kernel.setMem m) :=
  (sound_of_bootShape hs.shape hs.mutexLock).congr rfl hs.mutexLock

/-- The hart an event traps on and its effect there. A copy fault ends in the termination of the
caller. -/
def Event.effect (k : Kernel) : Event → Option (Hart × Effect)
  | .trap h t m => some (h, Kernel.effect (k.setMem m) h t)
  | .nestedTrap h _ _ _ _ => some (h, .kill (h, k.current h))
  | _ => none

def Event.restarts : Event → Option TaskId
  | .watchdogRestartTaskC => some taskC
  | .watchdogRestartHsm => some hsmTask
  | _ => none

/-- The task an event restarts in `k`: the Watchdog found it terminated. -/
def Event.restartsNow (k : Kernel) : Event → Option TaskId
  | .watchdogRestartTaskC =>
    if k.stateOf 1 3 = some .terminated ∧ k.testCounter < 2#32 then some taskC else none
  | .watchdogRestartHsm => if k.stateOf 0 4 = some .terminated then some hsmTask else none
  | _ => none

/-- Only the Watchdog restarts, only Task C or HSM Task, and only when it is terminated. -/
theorem restartsNow_cases {k : Kernel} {ev : Event} {x : TaskId} (hnow : ev.restartsNow k = some x) :
    ((ev = .watchdogRestartTaskC ∧ x = taskC) ∨ (ev = .watchdogRestartHsm ∧ x = hsmTask)) ∧
      (view k).state x = some .terminated := by
  cases ev with
  | watchdogRestartTaskC =>
    simp only [Event.restartsNow] at hnow
    split at hnow
    · rename_i hc
      obtain rfl := Option.some.inj hnow
      exact ⟨Or.inl ⟨rfl, rfl⟩, hc.1⟩
    · cases hnow
  | watchdogRestartHsm =>
    simp only [Event.restartsNow] at hnow
    split at hnow
    · rename_i hc
      obtain rfl := Option.some.inj hnow
      exact ⟨Or.inr ⟨rfl, rfl⟩, hc⟩
    · cases hnow
  | _ => cases hnow

/-- A handler that returned, seen from the view. -/
structure EffectStep (h : Hart) (e : Effect) (v v' : View) : Prop where
  valid : e.Valid h v
  leads : e.Leads h v v'
  owns : ∀ i, e = .release i → v.Owns (v.current h) i

theorem Effect.Leads.of_none {h : Hart} {v v' : View} (hview : v' = v) :
    Effect.Leads h .none v v' := hview

section Traps
variable {P : Platform} {h : Hart} {t : Trap} {k k' : Kernel}

theorem handledCause_of_ok {r : Word × Kernel} (hok : trapHandler P h t k = .ok r) :
    HandledCause t.mcause := by
  by_contra hno
  rw [trap_unhandled hno] at hok
  cases hok

theorem effectStep_of_ok (hk : Sound k) {sp : Word} (hok : trapHandler P h t k = .ok (sp, k')) :
    EffectStep h (effect k h t) (view k) (view k') ∧ k'.mutexLock.owner = none ∧
      CallerOnly h k k' := by
  have hr := trap_result (P := P) (h := h) hk (handledCause_of_ok hok)
  have hvalid := effect_valid hk h t
  rw [hok] at hr
  cases hr with
  | runs _ _ hr =>
    cases hr with
    | returns hleads _ hmutex howns _ hframe =>
      exact ⟨⟨hvalid, hleads, howns⟩, hmutex, hframe⟩
  | lockFree _ he _ hview hlocks hframe =>
    refine ⟨⟨hvalid, ?_, fun i hi => ?_⟩, ?_, hframe.callerOnly h⟩
    · rw [he]
      exact .of_none hview
    · rw [he] at hi
      cases hi
    · rw [hlocks.2]
      exact hk.mutexLock

theorem result_of_copyFault (hk : Sound k) {cause : Word} {kf : Kernel}
    (hf : trapHandler P h t k = .error (.copyFault cause kf)) :
    ∃ during after copies, k.schedLock.lock h = some during ∧
      Result h k during after (effect k h t) copies (.error (.copyFault cause kf)) := by
  by_cases hc : HandledCause t.mcause
  · have hr := trap_result (P := P) (h := h) hk hc
    rw [hf] at hr
    cases hr with
    | runs _ hl hr => exact ⟨_, _, _, hl, hr⟩
  · rw [trap_unhandled hc] at hf
    cases hf

/-- The kernel a copy fault leaves behind: the view of before, and the lock still taken. -/
theorem of_copyFault (hk : Sound k) {cause : Word} {kf : Kernel}
    (hf : trapHandler P h t k = .error (.copyFault cause kf)) :
    (cause = 5#32 ∨ cause = 7#32) ∧ view kf = view k ∧ kf.mutexLock = k.mutexLock ∧
      k.schedLock.lock h = some kf.schedLock ∧ Untouched k kf := by
  obtain ⟨during, after, copies, hl, hr⟩ := result_of_copyFault hk hf
  cases hr with
  | copyFault _ _ hcause hview hsched hmutex hframe =>
    exact ⟨hcause, hview, hmutex, by rw [hl, hsched], hframe⟩

/-- Only a rendezvous copies. -/
theorem transfer_of_copyFault (hk : Sound k) {cause : Word} {kf : Kernel}
    (hf : trapHandler P h t k = .error (.copyFault cause kf)) : ∃ x, effect k h t = .transfer x := by
  obtain ⟨during, after, copies, -, hr⟩ := result_of_copyFault hk hf
  cases hr with
  | copyFault he => exact ⟨_, he⟩

theorem effect_of_fault (hcause : t.mcause = 5#32 ∨ t.mcause = 7#32) :
    effect k h t = .kill (h, k.current h) := by
  unfold effect
  rcases hcause with hc | hc
  all_goals
    rw [hc, if_neg (by decide), if_neg (by decide), if_neg (by decide),
      if_neg (fun hno => absurd hno.1 (by decide))]

theorem transferPlan_of_fault (hcause : t.mcause = 5#32 ∨ t.mcause = 7#32) :
    transferPlan k h t = none := by
  refine transferPlan_of_ne ?_
  rcases hcause with hc | hc
  · rw [hc]
    decide
  · rw [hc]
    decide

theorem afterTrap_ok (hafter : afterTrap P h t k = some k') :
    ∃ sp, trapHandler P h t k = .ok (sp, k') := by
  unfold afterTrap at hafter
  split at hafter
  · rename_i sp k1 hok
    rw [Option.some.inj hafter] at hok
    exact ⟨sp, hok⟩
  · cases hafter

theorem afterNested_ok {t' : Trap} {m' : Memory} (hafter : afterNested P h t t' m' k = some k') :
    ∃ cause kf sp, trapHandler P h t k = .error (.copyFault cause kf) ∧ t'.mcause = cause ∧
      trapHandler P h t' (kf.setMem m') = .ok (sp, k') := by
  unfold afterNested at hafter
  split at hafter
  · rename_i cause kf hf
    split at hafter
    · rename_i hcause
      obtain ⟨sp, hok⟩ := afterTrap_ok hafter
      exact ⟨cause, kf, sp, hf, hcause, hok⟩
    · cases hafter
  · cases hafter

/-- A trap whose handler returns is a step of the system. -/
theorem step_of_ok {s : System} {m : Memory} {sp : Word}
    (hok : trapHandler P h t (s.kernel.setMem m) = .ok (sp, k')) :
    Step P s (.trap h t m) { s with kernel := k' } := by
  simp only [Step, System.next, afterTrap, hok, Option.map_some]

theorem step_of_copyFault {s : System} {m m' : Memory} {t' : Trap} {sp cause : Word} {kf : Kernel}
    (hf : trapHandler P h t (s.kernel.setMem m) = .error (.copyFault cause kf)) (hcause : t'.mcause = cause)
    (hok : trapHandler P h t' (kf.setMem m') = .ok (sp, k')) :
    Step P s (.nestedTrap h t m t' m') { s with kernel := k' } := by
  simp only [Step, System.next, afterNested, afterTrap, hf, hcause, hok, if_true, Option.map_some]

theorem effectStep_of_nested (hk : Sound k) {t' : Trap} {m' : Memory} {kf : Kernel} {sp : Word}
    (hf : trapHandler P h t k = .error (.copyFault t'.mcause kf))
    (hok : trapHandler P h t' (kf.setMem m') = .ok (sp, k')) :
    EffectStep h (.kill (h, k.current h)) (view k) (view k') ∧ k'.mutexLock.owner = none ∧
      CallerOnly h k k' := by
  obtain ⟨hcause, hview, hmutex, -, hu⟩ := of_copyFault hk hf
  have hview' : view (kf.setMem m') = view k := hview
  have hkf : Sound (kf.setMem m') := hk.congr hview' (hmutex ▸ hk.mutexLock)
  obtain ⟨hstep, hfree, hframe⟩ := effectStep_of_ok hkf hok
  have hcur : (kf.setMem m').current = k.current := congrArg View.current hview'
  rw [effect_of_fault hcause, hview', hcur] at hstep
  exact ⟨hstep, hfree, hframe.after (hu.then_eq rfl rfl)⟩

end Traps

/-! ## Restarts -/

theorem view_restart (P : Platform) (st : StackTask) (h : Hart) (i : Fin MAX_PARTITIONS)
    (k : Kernel) : view (restart P st h i k) = (view k).setState (h, i) .ready := by
  have hs : view (restart P st h i k) = view (k.setState h i .ready) := by
    refine view_eq (fun h' j => ?_) (fun h' j => ?_) ?_ rfl
    · by_cases hh : h' = h
      · subst hh
        simp [restart, Kernel.setSched, Kernel.setState]
      · simp [restart, Kernel.setSched, Kernel.setState, Kernel.setMem, hh]
    · by_cases hh : h' = h
      · subst hh
        simp [restart, Kernel.setSched, Kernel.setState, Kernel.stateOf,
          BitMapScheduler.stateAt_setState]
      · simp [restart, Kernel.setSched, Kernel.setState, Kernel.setMem, Kernel.stateOf, hh]
    · funext h'
      by_cases hh : h' = h
      · subst hh
        simp [restart, Kernel.setSched, Kernel.setState, Kernel.current]
      · simp [restart, Kernel.setSched, Kernel.setState, Kernel.setMem, Kernel.current, hh]
  rw [hs, view_setState]

/-! ## One step, and every run -/

/-- What a step does to the kernel. The Watchdog's steps are made while it runs on core 0. -/
inductive StepKernel (P : Platform) (k : Kernel) : Event → Kernel → Prop where
  | trap {h : Hart} {t : Trap} {m : Memory} {sp : Word} {k' : Kernel}
      (hok : trapHandler P h t (k.setMem m) = .ok (sp, k')) : StepKernel P k (.trap h t m) k'
  | nested {h : Hart} {t t' : Trap} {m m' : Memory} {kf k' : Kernel} {sp : Word}
      (hf : trapHandler P h t (k.setMem m) = .error (.copyFault t'.mcause kf))
      (hok : trapHandler P h t' (kf.setMem m') = .ok (sp, k')) :
      StepKernel P k (.nestedTrap h t m t' m') k'
  | lock {l : Spinlock} (hruns : watchdogRuns k) :
      StepKernel P k .watchdogLock { k with schedLock := l }
  | restartTaskC (hruns : watchdogRuns k) :
      StepKernel P k .watchdogRestartTaskC (Kernel.restartTaskC P k)
  | restartHsm (hruns : watchdogRuns k) : StepKernel P k .watchdogRestartHsm (Kernel.restartHsm P k)
  | unlock (hruns : watchdogRuns k) :
      StepKernel P k .watchdogUnlock { k with schedLock := k.schedLock.unlock }

theorem stepKernel_of_step {P : Platform} {s s' : System} {ev : Event} (hstep : Step P s ev s') :
    StepKernel P s.kernel ev s'.kernel := by
  unfold Step System.next at hstep
  cases ev with
  | trap h t m =>
    obtain ⟨k', hafter, rfl⟩ := Option.map_eq_some_iff.mp hstep
    obtain ⟨sp, hok⟩ := afterTrap_ok hafter
    exact .trap hok
  | nestedTrap h t m t' m' =>
    obtain ⟨k', hafter, rfl⟩ := Option.map_eq_some_iff.mp hstep
    obtain ⟨cause, kf, sp, hf, rfl, hok⟩ := afterNested_ok hafter
    exact .nested hf hok
  | watchdogLock =>
    dsimp only at hstep
    split at hstep
    · rename_i hruns
      obtain ⟨l, -, rfl⟩ := Option.map_eq_some_iff.mp hstep
      exact .lock hruns.1
    · cases hstep
  | watchdogRestartTaskC =>
    dsimp only at hstep
    split at hstep
    · rename_i hruns
      rw [← Option.some.inj hstep]
      exact .restartTaskC hruns.1
    · cases hstep
  | watchdogRestartHsm =>
    dsimp only at hstep
    split at hstep
    · rename_i hruns
      rw [← Option.some.inj hstep]
      exact .restartHsm hruns.1
    · cases hstep
  | watchdogUnlock =>
    dsimp only at hstep
    split at hstep
    · rename_i hruns
      rw [← Option.some.inj hstep]
      exact .unlock hruns.1
    · cases hstep

/-- What an event does to the view. -/
inductive StepView (k : Kernel) (ev : Event) (v' : View) : Prop where
  | effect {h : Hart} {e : Effect} (hev : ev.effect k = some (h, e))
      (hstep : EffectStep h e (view k) v')
  | restart {x : TaskId} (hev : ev.restarts = some x) (hnow : ev.restartsNow k = some x)
      (hterm : (view k).state x = some .terminated) (hv : v' = (view k).setState x .ready)
  | skip (hev : ev.effect k = none) (hnow : ev.restartsNow k = none) (hv : v' = view k)

theorem effectStep_of_view {k : Kernel} {ev : Event} {h : Hart} {e : Effect} {v' : View}
    (hview : StepView k ev v') (hev : ev.effect k = some (h, e)) : EffectStep h e (view k) v' := by
  cases hview with
  | effect hev' hes =>
    obtain ⟨rfl, rfl⟩ := Prod.mk.inj (Option.some.inj (hev.symm.trans hev'))
    exact hes
  | restart hres =>
    cases ev with
    | trap => cases hres
    | nestedTrap => cases hres
    | _ => cases hev
  | skip hno => cases hev.symm.trans hno

/-- A step of the Watchdog leaves the running partitions as they are. -/
theorem StepView.current {k : Kernel} {ev : Event} {v' : View} (hview : StepView k ev v')
    (hev : ev.effect k = none) : v'.current = k.current := by
  cases hview with
  | effect hsome =>
    rw [hev] at hsome
    cases hsome
  | restart _ _ _ hv =>
    rw [hv]
    rfl
  | skip _ _ hv =>
    rw [hv]
    rfl

/-- It leaves the mutexes as they are, and every task but the one it restarts. -/
theorem StepView.keeps {k : Kernel} {ev : Event} {v' : View} (hview : StepView k ev v')
    (hev : ev.effect k = none) : v'.mutexes = (view k).mutexes ∧
      (∀ x, ev.restartsNow k ≠ some x → v'.state x = (view k).state x) ∧
      ∀ x, ev.restartsNow k = some x → v'.state x = some .ready := by
  cases hview with
  | effect hsome => cases hev.symm.trans hsome
  | @restart y _ hnow hterm hv =>
    rw [hv]
    refine ⟨rfl, fun x hx => ?_, fun x hx => ?_⟩
    · rw [View.state_setState, if_neg]
      rintro rfl
      exact hx hnow
    · obtain rfl := Option.some.inj (hx.symm.trans hnow)
      rw [View.state_setState, if_pos rfl, hterm]
      rfl
  | skip _ hnow hv =>
    rw [hv]
    exact ⟨rfl, fun _ _ => rfl, fun x hx => by cases hx.symm.trans hnow⟩

theorem restartTaskC_step (P : Platform) (k : Kernel) :
    StepView k .watchdogRestartTaskC (view (restartTaskC P k)) ∧
      SameLocks k (restartTaskC P k) ∧ (restartTaskC P k).pmp = k.pmp := by
  by_cases hc : k.stateOf 1 3 = some .terminated ∧ k.testCounter < 2#32
  · have hnow : Event.restartsNow k .watchdogRestartTaskC = some taskC := if_pos hc
    rw [restartTaskC, if_pos hc]
    exact ⟨.restart rfl hnow hc.1 (view_restart P .taskC 1 3 _), ⟨rfl, rfl⟩, rfl⟩
  · have hnow : Event.restartsNow k .watchdogRestartTaskC = none := if_neg hc
    rw [restartTaskC, if_neg hc]
    exact ⟨.skip rfl hnow rfl, SameLocks.refl k, rfl⟩

theorem restartHsm_step (P : Platform) (k : Kernel) :
    StepView k .watchdogRestartHsm (view (restartHsm P k)) ∧ SameLocks k (restartHsm P k) ∧
      (restartHsm P k).pmp = k.pmp := by
  by_cases hc : k.stateOf 0 4 = some .terminated
  · have hnow : Event.restartsNow k .watchdogRestartHsm = some hsmTask := if_pos hc
    rw [restartHsm, if_pos hc]
    exact ⟨.restart rfl hnow hc (view_restart P .hsm 0 4 _), ⟨rfl, rfl⟩, rfl⟩
  · have hnow : Event.restartsNow k .watchdogRestartHsm = none := if_neg hc
    rw [restartHsm, if_neg hc]
    exact ⟨.skip rfl hnow rfl, SameLocks.refl k, rfl⟩

theorem step_cases {P : Platform} {s s' : System} {ev : Event} (hs : SysInv s)
    (hstep : Step P s ev s') :
    StepView s.kernel ev (view s'.kernel) ∧ s'.kernel.mutexLock.owner = none ∧
      ∀ h, Booted (s'.kernel.pmp h) := by
  have hkernel := stepKernel_of_step hstep
  generalize s'.kernel = k' at hkernel ⊢
  cases hkernel with
  | trap hok =>
    obtain ⟨heff, hmutex, hframe⟩ := effectStep_of_ok (hs.sound _) hok
    exact ⟨.effect rfl heff, hmutex, fun h => hframe.pmp h (hs.pmp h)⟩
  | nested hf hok =>
    obtain ⟨heff, hmutex, hframe⟩ := effectStep_of_nested (hs.sound _) hf hok
    exact ⟨.effect rfl heff, hmutex, fun h => hframe.pmp h (hs.pmp h)⟩
  | lock => exact ⟨.skip rfl rfl rfl, hs.mutexLock, hs.pmp⟩
  | restartTaskC =>
    obtain ⟨hview, hlocks, hpmp⟩ := restartTaskC_step P s.kernel
    refine ⟨hview, ?_, hpmp ▸ hs.pmp⟩
    rw [hlocks.2]
    exact hs.mutexLock
  | restartHsm =>
    obtain ⟨hview, hlocks, hpmp⟩ := restartHsm_step P s.kernel
    refine ⟨hview, ?_, hpmp ▸ hs.pmp⟩
    rw [hlocks.2]
    exact hs.mutexLock
  | unlock => exact ⟨.skip rfl rfl rfl, hs.mutexLock, hs.pmp⟩

theorem sysInv_step {P : Platform} (s : System) (ev : Event) (s' : System) (hs : SysInv s)
    (hstep : Step P s ev s') : SysInv s' := by
  obtain ⟨hview, hmutex, hpmp⟩ := step_cases hs hstep
  refine ⟨?_, hmutex, hpmp⟩
  cases hview with
  | effect _ hstep => exact hs.shape.leads hstep.valid hstep.leads
  | restart _ _ _ hv =>
    rw [hv]
    exact hs.shape.setState _ fun b hb => by cases hb
  | skip _ _ hv =>
    rw [hv]
    exact hs.shape

theorem initial_view {P : Platform} {s : System} (hs : Initial P s) :
    view s.kernel = bootView ∧ s.kernel.mutexLock = Spinlock.new ∧
      s.kernel.schedLock = Spinlock.new ∧ ∀ h, Booted (s.kernel.pmp h) := by
  obtain ⟨m, r, hreset, hboot, -⟩ := hs
  obtain ⟨k, hk, hview, hmutex, hsched, hpmp⟩ := boot_view P m r
  rw [hk] at hboot
  rw [← Option.some.inj hboot]
  refine ⟨hview, hmutex, hsched, fun h => ?_⟩
  rw [hpmp]
  exact (programmed_reprogramPmpStack (booted_initMemoryProtection (hreset h)) _).booted

theorem bootView_mutexes {i : Fin 8} {m : KernelMutex} (hm : bootView.mutexes i = some m) :
    i = 0 ∧ m = ⟨false, none, 0#32⟩ := by
  by_cases hi : i = 0
  · have hm' : (⟨false, none, 0#32⟩ : KernelMutex) = m := by simpa [bootView, hi] using hm
    exact ⟨hi, hm'.symm⟩
  · simp [bootView, hi] at hm

theorem bootView_waiting (x : TaskId) (b : Byte) :
    bootView.state x ≠ some (.blockedOnMutex b) := by
  intro hx
  obtain ⟨_, -, hst⟩ := Option.map_eq_some_iff.mp hx
  split at hst <;> cases hst

theorem bootView_shape : bootView.BootShape where
  static := rfl
  isSome := fun x => by simp [bootView, bootState]
  running := fun h => by
    fin_cases h <;> rfl
  mutexes := fun _ _ hm => (bootView_mutexes hm).1
  waiters := fun i m hm w hw => by
    rw [(bootView_mutexes hm).2] at hw
    exact absurd hw (BitSet.not_mem_zero w)
  owners := fun i m hm o ho => by
    rw [(bootView_mutexes hm).2] at ho
    cases ho
  waiting := fun x b hx => absurd hx (bootView_waiting x b)
  consistent := fun i m hm => by
    rw [(bootView_mutexes hm).2]
    exact ⟨by decide, fun hw => absurd rfl hw⟩

theorem sysInv_initial {P : Platform} {s : System} (hs : Initial P s) : SysInv s := by
  obtain ⟨hview, hmutex, -, hpmp⟩ := initial_view hs
  refine ⟨?_, ?_, hpmp⟩
  · rw [hview]
    exact bootView_shape
  · rw [hmutex]
    rfl

theorem sysInv_run {P : Platform} {s s' : System} {es : List Event} (hs : Initial P s)
    (hrun : Run (Step P) s es s') : SysInv s' :=
  hrun.invariant sysInv_step (sysInv_initial hs)

/-- An invariant of the view along the runs whose steps all meet `G`. -/
theorem guarded_invariant {P : Platform} {G : System → Event → Prop} {I : View → Prop}
    (hboot : I bootView)
    (hstep : ∀ s ev v', SysInv s → I (view s.kernel) → G s ev → StepView s.kernel ev v' → I v')
    {s s' : System} {es : List Event} (hs : Initial P s)
    (hrun : Run (Guarded (Step P) G) s es s') : I (view s'.kernel) := by
  have hinv : SysInv s ∧ I (view s.kernel) := by
    refine ⟨sysInv_initial hs, ?_⟩
    rw [(initial_view hs).1]
    exact hboot
  refine (hrun.invariant (I := fun s => SysInv s ∧ I (view s.kernel)) ?_ hinv).2
  intro u ev u' hu hg
  exact ⟨sysInv_step u ev u' hu.1 hg.1, hstep u ev _ hu.1 hu.2 hg.2 (step_cases hu.1 hg.1).1⟩

/-- An invariant of the view along every run. -/
theorem view_invariant {P : Platform} {I : View → Prop} (hboot : I bootView)
    (hstep : ∀ s ev v', SysInv s → I (view s.kernel) → StepView s.kernel ev v' → I v')
    {s s' : System} {es : List Event} (hs : Initial P s) (hrun : Run (Step P) s es s') :
    I (view s'.kernel) :=
  guarded_invariant (G := fun _ _ => True) hboot (fun s ev v' hinv hv _ => hstep s ev v' hinv hv) hs
    (hrun.mono fun _ _ _ hst => ⟨hst, trivial⟩)

/-! ## A concrete platform -/

/-- Flash and SRAM of the target. -/
def packedPlatform : Platform where
  layout := packedLayout
  idleStack := fun h => if h = 0 then 0x3FC81400 else 0x3FC81800
  kernelStack := fun h => if h = 0 then 0x3FC81C00 else 0x3FC82000
  entry := fun _ => 0x42000000
  idleEntry := 0x42001000
  mapped := fun a => (0x42000000 ≤ a.toNat ∧ a.toNat < 0x42400000) ∨
    (0x3FC80000 ≤ a.toNat ∧ a.toNat < 0x3FD00000)

/-- The system after boot with memory and PMP registers cleared. -/
def bootSystem : System :=
  ⟨(boot packedPlatform (fun _ => 0) fun _ => zeroRegs).get rfl, false⟩

theorem bootSystem_initial : Initial packedPlatform bootSystem :=
  ⟨fun _ => 0, fun _ => zeroRegs, fun _ => zeroRegs_reset, rfl, rfl⟩

def syscallFrame (sp id a0 a1 a2 : Word) : Memory :=
  Memory.writeWord (Memory.writeWord (Memory.writeWord (Memory.writeWord (fun _ => 0)
    (Memory.slot sp 13) id) (Memory.slot sp 6) a0) (Memory.slot sp 7) a1) (Memory.slot sp 8) a2

def syscall (h : Hart) (id a0 a1 a2 : Word) : Event :=
  .trap h ⟨ECALL_UMODE, 0x3FC82400, 0⟩ (syscallFrame 0x3FC82400 id a0 a1 a2)

theorem run_of_eval {α : Type} (P : Platform) (s : System) (es : List Event) (f : System → α)
    (a : α) (heval : (es.foldlM (System.next P) s).map f = some a) :
    ∃ s', Run (Step P) s es s' ∧ f s' = a := by
  obtain ⟨s', hs', hf⟩ := Option.map_eq_some_iff.mp heval
  exact ⟨s', Run.of_foldlM hs', hf⟩

theorem eq_ok_of_toOption {α : Type} {r : Except Stop α} {a : α} (hr : r.toOption = some a) :
    r = .ok a := by
  cases r with
  | error e => cases hr
  | ok b => exact congrArg Except.ok (Option.some.inj hr)

def System.nextIf (G : System → Event → Prop) [∀ s ev, Decidable (G s ev)] (P : Platform)
    (s : System) (ev : Event) : Option System := if G s ev then s.next P ev else none

theorem guarded_run_of_eval {α : Type} (G : System → Event → Prop) [∀ s ev, Decidable (G s ev)]
    (P : Platform) (s : System) (es : List Event) (f : System → α) (a : α)
    (heval : (es.foldlM (System.nextIf G P) s).map f = some a) :
    ∃ s', Run (Guarded (Step P) G) s es s' ∧ f s' = a := by
  obtain ⟨s', hs', hf⟩ := Option.map_eq_some_iff.mp heval
  exact ⟨s', Run.of_foldlM_guarded G hs', hf⟩

end Cerberus.Kernel
