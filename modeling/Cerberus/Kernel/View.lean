import Cerberus.Foundations.BitSet
import Cerberus.Kernel.Boot

/-! # The kernel as its tasks and mutexes

The abstract kernel: the state of every task, the partition running on each hart, and the mutexes.
A trap is one `Effect` on this view, chosen from the state before the trap, and possibly a context
switch; `Kernel/Refinement` connects it to the handler. -/
namespace Cerberus.Kernel
open Scheduler Sync
set_option autoImplicit false

abbrev TaskId := Hart × Fin MAX_PARTITIONS

/-- The part of a control block that never changes. -/
structure Static where
  priority : Byte
  name : String
  capabilities : Fin 8 → Capability

def static (tcb : TaskControlBlock) : Static := ⟨tcb.priority, tcb.name, tcb.capabilities⟩

@[ext]
structure View where
  static : TaskId → Option Static
  state : TaskId → Option TaskState
  current : Hart → Fin MAX_PARTITIONS
  mutexes : Fin 8 → Option KernelMutex

def view (k : Kernel) : View where
  static := fun x => ((k.scheds x.1).taskTable x.2).map Kernel.static
  state := fun x => k.stateOf x.1 x.2
  current := k.current
  mutexes := k.mutexes

/-- The slot a waiter bit stands for. -/
def waiterTask (w : Fin MAX_PARTITIONS) : TaskId := (waiterHart w, w)

/-- The byte a task is recorded with as an owner. -/
def ownerByte (i : Fin MAX_PARTITIONS) : Byte := BitVec.ofNat 8 i.val

namespace View

variable (v : View)

def running (h : Hart) : TaskId := (h, v.current h)

def setState (x : TaskId) (st : TaskState) : View :=
  { v with state := Function.update v.state x ((v.state x).map fun _ => st) }

def setMutex (i : Fin 8) (m : KernelMutex) : View :=
  { v with mutexes := Function.update v.mutexes i (some m) }

/-- Mutex `i` goes to its least waiter, who becomes `Ready`, or is free. -/
def release (i : Fin 8) : View :=
  match v.mutexes i with
  | none => v
  | some m =>
    match BitSet.least m.waitersBitmap with
    | none => v.setMutex i m.free
    | some w => (v.setMutex i (m.handTo w)).setState (waiterTask w) .ready

/-- Task index `target` is recorded as the owner of mutex `i`. -/
def Owns (target : Fin MAX_PARTITIONS) (i : Fin 8) : Prop :=
  ∃ m, v.mutexes i = some m ∧ m.ownerTaskIdx = some (ownerByte target)

instance (target : Fin MAX_PARTITIONS) (i : Fin 8) : Decidable (v.Owns target i) :=
  match h : v.mutexes i with
  | none => isFalse (by simp [Owns, h])
  | some m => decidable_of_iff (m.ownerTaskIdx = some (ownerByte target)) (by simp [Owns, h])

def recover (target : Fin MAX_PARTITIONS) (v : View) (i : Fin 8) : View :=
  if v.Owns target i then v.release i else v

def recoverAll (target : Fin MAX_PARTITIONS) : View := (List.finRange 8).foldl (recover target) v

def wake (h : Hart) (now : Word) : View :=
  { v with state := fun x =>
      if x.1 = h then (v.state x).map (wakeState now) else v.state x }

def swap (h : Hart) (n : Fin MAX_PARTITIONS) : View :=
  { v with
    current := Function.update v.current h n
    state := fun x =>
      if x = (h, n) then (v.state x).map fun _ => .running
      else if x = v.running h ∧ v.state x = some .running then some .ready
      else v.state x }

/-- A scheduling decision on hart `h`: a swap to some `Ready` slot, or none; without a tick, a swap
whenever there is such a slot. -/
def Resched (h : Hart) (isTick : Bool) (v v' : View) : Prop :=
  (v' = v ∧ (isTick = false → ∀ n, v.state (h, n) ≠ some .ready)) ∨
    ∃ n, v.state (h, n) = some .ready ∧ v' = v.swap h n

end View

/-! ### What the updates leave alone -/

namespace View

variable (v : View) (x y : TaskId) (st : TaskState) (i j : Fin 8) (m : KernelMutex) (h : Hart)

@[simp] theorem setState_mutexes : (v.setState x st).mutexes = v.mutexes := rfl

@[simp] theorem setMutex_state : (v.setMutex i m).state = v.state := rfl

theorem state_setState :
    (v.setState x st).state y = if y = x then (v.state x).map (fun _ => st) else v.state y := by
  by_cases hy : y = x
  · subst hy
    simp [setState]
  · simp [setState, hy]

@[simp] theorem isSome_setState : ((v.setState x st).state y).isSome = (v.state y).isSome := by
  rw [state_setState]
  by_cases hy : y = x
  · subst hy
    simp
  · simp [hy]

theorem mutexes_setMutex :
    (v.setMutex i m).mutexes j = if j = i then some m else v.mutexes j := by
  by_cases hj : j = i
  · subst hj
    simp [setMutex]
  · simp [setMutex, hj]

/-- What holds of the new mutex and of all the others holds of every mutex after the update. -/
@[elab_as_elim] theorem setMutex_rule {v : View} {i : Fin 8} {m : KernelMutex}
    {Q : Fin 8 → KernelMutex → Prop} (hm : Q i m)
    (hother : ∀ j mj, j ≠ i → v.mutexes j = some mj → Q j mj) {j : Fin 8} {mj : KernelMutex}
    (hj : (v.setMutex i m).mutexes j = some mj) : Q j mj := by
  rw [mutexes_setMutex] at hj
  by_cases hji : j = i
  · rw [if_pos hji] at hj
    rw [← Option.some.inj hj, hji]
    exact hm
  · rw [if_neg hji] at hj
    exact hother j mj hji hj

theorem eq_of_setMutex (hj : (v.setMutex i m).mutexes j ≠ v.mutexes j) : j = i := by
  by_contra hne
  rw [mutexes_setMutex, if_neg hne] at hj
  exact hj rfl

theorem state_swap (n : Fin MAX_PARTITIONS) :
    (v.swap h n).state x = if x = (h, n) then (v.state x).map fun _ => .running
      else if x = v.running h ∧ v.state x = some .running then some .ready
      else v.state x := rfl

@[simp] theorem isSome_swap (n : Fin MAX_PARTITIONS) :
    ((v.swap h n).state x).isSome = (v.state x).isSome := by
  rw [state_swap]
  by_cases hx : x = (h, n)
  · simp [hx]
  · by_cases hr : x = v.running h ∧ v.state x = some .running
    · rw [if_neg hx, if_pos hr, hr.2]
      rfl
    · rw [if_neg hx, if_neg hr]

section StateOf
variable {v : View} {x y : TaskId} {h : Hart} {st st' : TaskState}

theorem state_of_setState (hne : st' ≠ st) (hx : (v.setState y st').state x = some st) :
    v.state x = some st := by
  rw [state_setState] at hx
  split at hx
  · obtain ⟨_, -, he⟩ := Option.map_eq_some_iff.mp hx
    exact absurd he hne
  · exact hx

/-- The timer makes tasks `Ready` and does nothing else. -/
theorem state_of_wake {now : Word} (hready : st ≠ .ready) (hx : (v.wake h now).state x = some st) :
    v.state x = some st := by
  simp only [wake] at hx
  split at hx
  · obtain ⟨st', hst', hw⟩ := Option.map_eq_some_iff.mp hx
    cases st' with
    | blocked wakeTick =>
      simp only [wakeState] at hw
      split at hw
      · exact absurd hw.symm hready
      · exact hw ▸ hst'
    | _ =>
      simp only [wakeState] at hw
      exact hw ▸ hst'
  · exact hx

theorem state_wake_iff {now : Word} (hready : st ≠ .ready) (hsleep : ∀ w, st ≠ .blocked w) :
    (v.wake h now).state x = some st ↔ v.state x = some st := by
  refine ⟨state_of_wake hready, fun hx => ?_⟩
  simp only [wake, hx]
  cases st with
  | blocked wakeTick => exact absurd rfl (hsleep wakeTick)
  | _ => simp [wakeState]

theorem state_swap_iff {n : Fin MAX_PARTITIONS} (hready : st ≠ .ready) (hrun : st ≠ .running)
    (hn : v.state (h, n) = some .ready) : (v.swap h n).state x = some st ↔ v.state x = some st := by
  rw [state_swap]
  by_cases hx : x = (h, n)
  · rw [if_pos hx, hx, hn]
    simp [hready.symm, hrun.symm]
  · rw [if_neg hx]
    by_cases hr : x = v.running h ∧ v.state x = some .running
    · rw [if_pos hr, hr.2]
      simp [hready.symm, hrun.symm]
    · rw [if_neg hr]

end StateOf

section Resched
variable {v : View} {v' : View} {h : Hart} {isTick : Bool}

/-- A switch only makes tasks `Ready` or `Running`. -/
theorem Resched.state_iff (hr : Resched h isTick v v') {x : TaskId} {st : TaskState}
    (hready : st ≠ .ready) (hrun : st ≠ .running) : v'.state x = some st ↔ v.state x = some st := by
  rcases hr with ⟨rfl, -⟩ | ⟨n, hn, rfl⟩
  · exact Iff.rfl
  · exact state_swap_iff hready hrun hn

theorem Resched.swap (isTick : Bool) {n : Fin MAX_PARTITIONS} (hn : v.state (h, n) = some .ready) :
    Resched h isTick v (v.swap h n) := Or.inr ⟨n, hn, rfl⟩

theorem Resched.mutexes (hr : Resched h isTick v v') : v'.mutexes = v.mutexes := by
  rcases hr with ⟨rfl, -⟩ | ⟨n, -, rfl⟩ <;> rfl

theorem Resched.isSome (hr : Resched h isTick v v') (x : TaskId) :
    (v'.state x).isSome = (v.state x).isSome := by
  rcases hr with ⟨rfl, -⟩ | ⟨n, -, rfl⟩
  · rfl
  · exact isSome_swap v x h n

end Resched

theorem release_cases {v : View} {i : Fin 8} {m : KernelMutex} (hm : v.mutexes i = some m) :
    (BitSet.least m.waitersBitmap = none ∧ v.release i = v.setMutex i m.free) ∨
    (∃ w, BitSet.least m.waitersBitmap = some w ∧
      v.release i = (v.setMutex i (m.handTo w)).setState (waiterTask w) .ready) := by
  unfold release
  rw [hm]
  cases hl : BitSet.least m.waitersBitmap with
  | none => exact Or.inl ⟨rfl, by simp only [hl]⟩
  | some w => exact Or.inr ⟨w, rfl, by simp only [hl]⟩

/-- A mutex that is not there is not released, one without waiters becomes free, and any other is
handed to its first waiter. -/
theorem release_rule {I : View → Prop} {v : View} {i : Fin 8} (hv : I v)
    (hfree : ∀ m, v.mutexes i = some m → BitSet.least m.waitersBitmap = none → I (v.setMutex i m.free))
    (hto : ∀ m w, v.mutexes i = some m → BitSet.least m.waitersBitmap = some w →
      I ((v.setMutex i (m.handTo w)).setState (waiterTask w) .ready)) : I (v.release i) := by
  cases hm : v.mutexes i with
  | none =>
    unfold release
    rw [hm]
    exact hv
  | some m =>
    rcases release_cases hm with ⟨hl, hr⟩ | ⟨w, hl, hr⟩
    · rw [hr]
      exact hfree m hm hl
    · rw [hr]
      exact hto m w hm hl

theorem state_of_release {v : View} {x : TaskId} {st : TaskState} {i : Fin 8} (hready : st ≠ .ready) :
    (v.release i).state x = some st → v.state x = some st :=
  release_rule (I := fun u => u.state x = some st → v.state x = some st) id (fun _ _ _ hx => hx)
    fun _ _ _ _ hx => state_of_setState (v := v.setMutex i _) hready.symm hx

theorem mutexes_release_of_ne {v : View} {i j : Fin 8} (hj : j ≠ i) :
    (v.release i).mutexes j = v.mutexes j :=
  release_rule (I := fun u => u.mutexes j = v.mutexes j) rfl
    (fun _ _ _ => by rw [mutexes_setMutex, if_neg hj])
    fun _ _ _ _ => by rw [setState_mutexes, mutexes_setMutex, if_neg hj]

/-- The tasks, and who runs, are the same; states and mutexes may differ. -/
structure SameShape (v v' : View) : Prop where
  static : v'.static = v.static
  current : v'.current = v.current
  isSome : ∀ x, (v'.state x).isSome = (v.state x).isSome

theorem SameShape.refl (v : View) : SameShape v v := ⟨rfl, rfl, fun _ => rfl⟩

theorem SameShape.trans {v1 v2 v3 : View} (h1 : SameShape v1 v2) (h2 : SameShape v2 v3) :
    SameShape v1 v3 :=
  ⟨h2.static.trans h1.static, h2.current.trans h1.current,
    fun x => (h2.isSome x).trans (h1.isSome x)⟩

theorem SameShape.setState : SameShape v (v.setState x st) := ⟨rfl, rfl, fun y => isSome_setState v x y st⟩

theorem SameShape.setMutex : SameShape v (v.setMutex i m) := ⟨rfl, rfl, fun _ => rfl⟩

theorem SameShape.release : SameShape v (v.release i) :=
  release_rule (I := SameShape v) (.refl v) (fun _ _ _ => .setMutex v i _)
    fun _ _ _ _ => (SameShape.setMutex v i _).trans (.setState _ _ _)

/-- A property that holds of the view and survives every release of a mutex of `target` survives
the recovery loop. -/
theorem recoverAll_induction {I : View → Prop} {target : Fin MAX_PARTITIONS}
    (hstep : ∀ v i, I v → v.Owns target i → I (v.release i)) {v : View} (hv : I v) :
    I (v.recoverAll target) := by
  unfold recoverAll
  generalize List.finRange 8 = l
  induction l generalizing v with
  | nil => exact hv
  | cons i l ih =>
    rw [List.foldl_cons]
    apply ih
    unfold recover
    split
    · exact hstep v i hv ‹_›
    · exact hv

/-- Task `x` is the first waiter of mutex `i`, which belongs to `target`. -/
def Heir (v : View) (target : Fin MAX_PARTITIONS) (i : Fin 8) (x : TaskId) : Prop :=
  ∃ m w, v.mutexes i = some m ∧ m.ownerTaskIdx = some (ownerByte target) ∧
    BitSet.least m.waitersBitmap = some w ∧ waiterTask w = x

section Heirs
variable {v : View} {target : Fin MAX_PARTITIONS} {i j : Fin 8} {x : TaskId}

theorem mutexes_recover_of_ne (hj : j ≠ i) : (recover target v i).mutexes j = v.mutexes j := by
  unfold recover
  split
  · exact mutexes_release_of_ne hj
  · rfl

theorem heir_recover_of_ne (hj : j ≠ i) : (recover target v i).Heir target j x ↔ v.Heir target j x := by
  unfold Heir
  rw [mutexes_recover_of_ne hj]

theorem state_recover :
    (v.Heir target i x → (recover target v i).state x = (v.state x).map fun _ => .ready) ∧
      (¬ v.Heir target i x → (recover target v i).state x = v.state x) := by
  unfold recover
  by_cases hown : v.Owns target i
  · rw [if_pos hown]
    obtain ⟨m, hm, ho⟩ := hown
    rcases release_cases hm with ⟨hl, hr⟩ | ⟨w, hl, hr⟩
    · refine ⟨?_, fun _ => by rw [hr]; rfl⟩
      rintro ⟨m', w, hm', -, hl', -⟩
      obtain rfl := Option.some.inj (hm.symm.trans hm')
      rw [hl] at hl'
      cases hl'
    · rw [hr, state_setState]
      refine ⟨?_, fun hno => if_neg fun hx => hno ⟨m, w, hm, ho, hl, hx.symm⟩⟩
      rintro ⟨m', w', hm', -, hl', rfl⟩
      obtain rfl := Option.some.inj (hm.symm.trans hm')
      obtain rfl := Option.some.inj (hl.symm.trans hl')
      rw [if_pos rfl]
      rfl
  · rw [if_neg hown]
    refine ⟨?_, fun _ => rfl⟩
    rintro ⟨m, w, hm, ho, -⟩
    exact absurd ⟨m, hm, ho⟩ hown

theorem state_recoverLoop {l : List (Fin 8)} (hl : l.Nodup) :
    ((∃ i ∈ l, v.Heir target i x) →
      (l.foldl (recover target) v).state x = (v.state x).map fun _ => .ready) ∧
    ((∀ i ∈ l, ¬ v.Heir target i x) → (l.foldl (recover target) v).state x = v.state x) := by
  induction l generalizing v with
  | nil => exact ⟨fun ⟨i, hi, _⟩ => by simp at hi, fun _ => rfl⟩
  | cons i l ih =>
    obtain ⟨hi, hl'⟩ := List.nodup_cons.mp hl
    rw [List.foldl_cons]
    obtain ⟨hheir, hno⟩ := ih (v := recover target v i) hl'
    have hlater : ∀ j ∈ l, ((recover target v i).Heir target j x ↔ v.Heir target j x) := by
      intro j hj
      refine heir_recover_of_ne ?_
      rintro rfl
      exact hi hj
    -- a task that inherits several mutexes is made `Ready` several times
    by_cases htail : ∃ j ∈ l, v.Heir target j x
    · obtain ⟨j, hj, hjx⟩ := htail
      rw [hheir ⟨j, hj, (hlater j hj).mpr hjx⟩]
      refine ⟨fun _ => ?_, fun hnone => absurd hjx (hnone j (List.mem_cons_of_mem _ hj))⟩
      by_cases hx : v.Heir target i x
      · rw [state_recover.1 hx, Option.map_map]
        rfl
      · rw [state_recover.2 hx]
    · rw [hno fun j hj hjx => htail ⟨j, hj, (hlater j hj).mp hjx⟩]
      refine ⟨fun ⟨j, hj, hjx⟩ => ?_, fun hnone => state_recover.2 (hnone i (List.mem_cons_self ..))⟩
      rcases List.mem_cons.mp hj with rfl | hjl
      · exact state_recover.1 hjx
      · exact absurd ⟨j, hjl, hjx⟩ htail

theorem state_recoverAll_of_heir (hx : ∃ i, v.Heir target i x) :
    (v.recoverAll target).state x = (v.state x).map fun _ => .ready := by
  obtain ⟨i, hi⟩ := hx
  exact (state_recoverLoop (List.nodup_finRange 8)).1 ⟨i, List.mem_finRange i, hi⟩

theorem state_recoverAll_of_not_heir (hx : ∀ i, ¬ v.Heir target i x) :
    (v.recoverAll target).state x = v.state x :=
  (state_recoverLoop (List.nodup_finRange 8)).2 fun i _ => hx i

end Heirs

end View

/-! ## Effects -/

/-- What a trap does to the view before the context switch. `none` is a refused or unknown syscall, a
check-in or an emulated counter read; `resched` a yield or a software interrupt; `block` puts the
running task to sleep or makes it wait for an IPC partner. The running task gets (`grant`), waits for
(`wait`) or unlocks (`release`) mutex `i`. `transfer` wakes the IPC partner `x`, and `kill` terminates
`x` by syscall 8 or by its own fault. -/
inductive Effect where
  | none
  | tick (now : Word)
  | resched
  | block (st : TaskState)
  | grant (i : Fin 8)
  | wait (i : Fin 8)
  | release (i : Fin 8)
  | transfer (x : TaskId)
  | kill (x : TaskId)

namespace Effect

/-- The effect on hart `h`, up to the context switch. -/
def apply (h : Hart) (v : View) : Effect → View
  | .none => v
  | .tick now => v.wake h now
  | .resched => v
  | .block st => v.setState (v.running h) st
  | .grant i =>
    match v.mutexes i with
    | .none => v
    | .some m => v.setMutex i
        { m with locked := true, ownerTaskIdx := some (ownerByte (v.current h)) }
  | .wait i =>
    match v.mutexes i with
    | .none => v
    | .some m => (v.setState (v.running h) (.blockedOnMutex (BitVec.ofNat 8 i.val))).setMutex i
        { m with waitersBitmap := m.waitersBitmap ||| BitSet.single (v.current h) }
  | .release i => v.release i
  | .transfer x => v.setState x .ready
  | .kill x => (v.setState x .terminated).recoverAll x.2

/-- The call of `schedule` that follows, with its `is_tick`. -/
def switches (h : Hart) (v : View) : Effect → Option Bool
  | .none => .none
  | .tick _ => some true
  | .resched => some false
  | .block _ => some false
  | .grant _ => .none
  | .wait _ => some false
  | .release _ => some false
  | .transfer _ => .none
  | .kill x => if x = v.running h then some false else .none

theorem apply_shape (h : Hart) (v : View) (e : Effect) : View.SameShape v (e.apply h v) := by
  cases e with
  | none => exact .refl v
  | tick now =>
    refine ⟨rfl, rfl, fun x => ?_⟩
    simp only [apply, View.wake]
    split
    · simp
    · rfl
  | resched => exact .refl v
  | block st => exact .setState v _ st
  | grant i =>
    simp only [apply]
    split
    · exact .refl v
    · exact .setMutex v i _
  | wait i =>
    simp only [apply]
    split
    · exact .refl v
    · exact (View.SameShape.setState v _ _).trans (.setMutex _ i _)
  | release i => exact .release v i
  | transfer x => exact .setState v x _
  | kill x =>
    refine View.recoverAll_induction (I := View.SameShape v) ?_ (.setState v x _)
    exact fun u i hu _ => hu.trans (.release u i)

/-- A killed task is `Terminated` unless it inherits a mutex of its own. -/
theorem kill_state_iff {h : Hart} {v : View} {x : TaskId} (hx : (v.state x).isSome) :
    ((Effect.kill x).apply h v).state x = some .terminated ↔ ∀ i, ¬ v.Heir x.2 i x := by
  obtain ⟨st, hst⟩ := Option.isSome_iff_exists.mp hx
  have hdead : (v.setState x .terminated).state x = some .terminated := by
    rw [View.state_setState, if_pos rfl, hst]
    rfl
  constructor
  · intro hterm i hi
    have hready : ((v.setState x .terminated).recoverAll x.2).state x =
        ((v.setState x .terminated).state x).map fun _ => .ready :=
      View.state_recoverAll_of_heir ⟨i, hi⟩
    rw [apply, hready, hdead] at hterm
    cases hterm
  · intro hno
    exact (View.state_recoverAll_of_not_heir (v := v.setState x .terminated) hno).trans hdead

/-- Only the killed task becomes `Terminated`. -/
theorem kill_state_of_ne {h : Hart} {v : View} {x y : TaskId} (hy : y ≠ x)
    (hterm : ((Effect.kill x).apply h v).state y = some .terminated) : v.state y = some .terminated := by
  have hother : (v.setState x .terminated).state y = v.state y := by
    rw [View.state_setState, if_neg hy]
  by_cases hheir : ∃ i, v.Heir x.2 i y
  · have hready : ((v.setState x .terminated).recoverAll x.2).state y =
        ((v.setState x .terminated).state y).map fun _ => .ready := View.state_recoverAll_of_heir hheir
    rw [apply, hready] at hterm
    obtain ⟨st, -, hst⟩ := Option.map_eq_some_iff.mp hterm
    cases hst
  · have hsame : ((v.setState x .terminated).recoverAll x.2).state y = (v.setState x .terminated).state y :=
      View.state_recoverAll_of_not_heir fun i hi => hheir ⟨i, hi⟩
    rw [apply, hsame, hother] at hterm
    exact hterm

def Leads (h : Hart) (e : Effect) (v v' : View) : Prop :=
  match e.switches h v with
  | .none => v' = e.apply h v
  | .some isTick => View.Resched h isTick (e.apply h v) v'

section Leads
variable {h : Hart} {e : Effect} {v v' : View}

theorem Leads.cases (hl : e.Leads h v v') :
    v' = e.apply h v ∨ ∃ isTick, e.switches h v = some isTick ∧
      View.Resched h isTick (e.apply h v) v' := by
  unfold Leads at hl
  split at hl
  · exact Or.inl hl
  · exact Or.inr ⟨_, ‹_›, hl⟩

theorem Leads.isSome (hl : e.Leads h v v') (x : TaskId) :
    (v'.state x).isSome = (v.state x).isSome := by
  rcases hl.cases with rfl | ⟨_, -, hr⟩
  · exact (apply_shape h v e).isSome x
  · rw [hr.isSome, (apply_shape h v e).isSome]

theorem Leads.static (hl : e.Leads h v v') : v'.static = v.static := by
  have happly := (apply_shape h v e).static
  rcases hl.cases with rfl | ⟨_, -, ⟨rfl, -⟩ | ⟨n, -, rfl⟩⟩
  · exact happly
  · exact happly
  · exact happly

theorem Leads.current_of_ne (hl : e.Leads h v v') {h' : Hart} (hh : h' ≠ h) :
    v'.current h' = v.current h' := by
  have happly := congrFun (apply_shape h v e).current h'
  rcases hl.cases with rfl | ⟨_, -, ⟨rfl, -⟩ | ⟨n, -, rfl⟩⟩
  · exact happly
  · exact happly
  · exact (Function.update_of_ne hh _ _).trans happly

/-- The kill of the running task ends in a call of `schedule`. -/
theorem Leads.resched_of_kill {x : TaskId} (hl : (Effect.kill x).Leads h v v') (hx : x = v.running h) :
    View.Resched h false ((Effect.kill x).apply h v) v' := by
  have hswitch : (Effect.kill x).switches h v = some false := if_pos hx
  unfold Leads at hl
  rw [hswitch] at hl
  exact hl

theorem Leads.eq_of_kill {x : TaskId} (hl : (Effect.kill x).Leads h v v') (hx : x ≠ v.running h) :
    v' = (Effect.kill x).apply h v := by
  have hswitch : (Effect.kill x).switches h v = .none := if_neg hx
  unfold Leads at hl
  rw [hswitch] at hl
  exact hl

theorem Leads.mutexes (hl : e.Leads h v v') : v'.mutexes = (e.apply h v).mutexes := by
  rcases hl.cases with rfl | ⟨_, -, hr⟩
  · rfl
  · exact hr.mutexes

end Leads

end Effect

/-! ## The effect of a trap -/

/-- The effect of a send or a receive: `want` is the partner it looks for and `st` the state it
blocks in. -/
def ipcEffect {α : Type} (k : Kernel) (h : Hart) (capIdx : Word) (right : Capability → Option Byte)
    (want : Byte → TaskState → Option α) (st : Byte → TaskState) : Effect :=
  match granted k h capIdx right with
  | .ok (some endpointIdx) =>
    match findPartner (want endpointIdx) k with
    | some (ph, pi, _) => .transfer (ph, pi)
    | none => .block (st endpointIdx)
  | _ => .none

def lockEffect (k : Kernel) (h : Hart) (capIdx : Word) : Effect :=
  match grantedMutex k h capIdx lockRight with
  | .ok (some (i, m)) => if m.locked = false then .grant i else .wait i
  | _ => .none

def unlockEffect (k : Kernel) (h : Hart) (capIdx : Word) : Effect :=
  match grantedMutex k h capIdx unlockRight with
  | .ok (some (i, _)) => .release i
  | _ => .none

/-- A rendezvous: who gives and who takes, and the bytes that are copied. -/
structure Plan where
  sender : TaskId
  receiver : TaskId
  src : Word
  dst : Word
  len : Word

def sendPlan (k : Kernel) (h : Hart) (capIdx msgAddr msgLen : Word) : Option Plan :=
  match granted k h capIdx sendRight with
  | .ok (some endpointIdx) =>
    (findPartner (waitingReceiver endpointIdx) k).map fun (ph, pi, bufAddr, maxLen) =>
      ⟨(h, k.current h), (ph, pi), msgAddr, bufAddr, transferLen msgLen maxLen⟩
  | _ => none

def recvPlan (k : Kernel) (h : Hart) (capIdx bufAddr maxLen : Word) : Option Plan :=
  match granted k h capIdx recvRight with
  | .ok (some endpointIdx) =>
    (findPartner (waitingSender endpointIdx) k).map fun (ph, pi, msgAddr, msgLen) =>
      ⟨(ph, pi), (h, k.current h), msgAddr, bufAddr, transferLen msgLen maxLen⟩
  | _ => none

/-- The rendezvous a trap performs, read from the state before it. -/
def transferPlan (k : Kernel) (h : Hart) (t : Trap) : Option Plan :=
  if t.mcause = ECALL_UMODE then
    match (k.readFrame t.userSp 13).toNat with
    | 6 => sendPlan k h (k.readFrame t.userSp 6) (k.readFrame t.userSp 7) (k.readFrame t.userSp 8)
    | 7 => recvPlan k h (k.readFrame t.userSp 6) (k.readFrame t.userSp 7) (k.readFrame t.userSp 8)
    | _ => none
  else none

def ecallEffect (k : Kernel) (h : Hart) (t : Trap) : Effect :=
  let a0 := k.readFrame t.userSp 6
  let a1 := k.readFrame t.userSp 7
  let a2 := k.readFrame t.userSp 8
  match (k.readFrame t.userSp 13).toNat with
  | 1 => .resched
  | 2 => .block (.blocked (k.tickCount + a0))
  | 3 => lockEffect k h a0
  | 4 => unlockEffect k h a0
  | 6 => ipcEffect k h a0 sendRight waitingReceiver fun e => .blockedOnIpcSend e a1 a2
  | 7 => ipcEffect k h a0 recvRight waitingSender fun e => .blockedOnIpcRecv e a1 a2
  | 8 => match findTask k a0 with
    | some x => .kill x
    | none => .none
  | _ => .none

/-- What a trap is going to do, read from the state before it. -/
def effect (k : Kernel) (h : Hart) (t : Trap) : Effect :=
  if t.mcause = TIMER_INTERRUPT then .tick (k.tickCount + 1#32)
  else if t.mcause = SOFTWARE_INTERRUPT then .resched
  else if t.mcause = ECALL_UMODE then ecallEffect k h t
  else if t.mcause = 2#32 ∧ readsCounter (k.mem.readWord (k.readFrame t.userSp 28)) = true then .none
  else .kill (h, k.current h)

end Cerberus.Kernel
