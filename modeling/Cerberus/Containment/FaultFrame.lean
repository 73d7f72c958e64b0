import Cerberus.Mutex.HandOff
import Cerberus.Mutex.Termination

/-! # What a contained fault changes

A fault of the running task terminates it, gives its mutexes up and reschedules its hart. Nothing else
may change, and every mutex has to go to the task that waits for it. The kernel is any one with the
tasks of the boot registration whose waiter bits are exact; who waits for what is arbitrary. -/
namespace Cerberus.Containment
open Kernel Scheduler Sync Memory Transition Mutex
set_option autoImplicit false

/-! ## The frame -/

/-- The tasks are registered under the priorities and on the harts of boot, with any C-lists. -/
def BootLayout (k : Kernel) : Prop :=
  ∀ x, ((view k).static x).map Static.priority = (bootStatic x).map Static.priority

/-- A waiter bit is set exactly if a task with that index is `BlockedOnMutex` the mutex. -/
def WaitBits (k : Kernel) : Prop :=
  ∀ i m, k.mutexes i = some m → ∀ w, BitSet.Mem m.waitersBitmap w ↔ ∃ h, WaitsFor k (h, w) i

/-- No task that waits for mutex `i` has a higher priority than `x`; the priority of a task is its
index. -/
def FirstWaiter (k : Kernel) (i : Fin 8) (x : TaskId) : Prop :=
  WaitsFor k x i ∧ ∀ y, WaitsFor k y i → x.2 ≤ y.2

/-- `Ready`, or scheduled next on hart `h`. -/
def ReadyOrNext (h : Hart) (k' : Kernel) (x : TaskId) : Prop :=
  k'.stateOf x.1 x.2 = some .ready ∨
    x = (h, k'.current h) ∧ k'.stateOf x.1 x.2 = some .running

/-- The fault of the current task of hart `h` has led from `k` to `k'`, and mutex `i` of the task has
gone to `heir i`. -/
structure FaultFrame (h : Hart) (k k' : Kernel) (heir : Fin 8 → Option TaskId) : Prop where
  terminated : k'.stateOf h (k.current h) = some .terminated
  freed : ∀ i m, k.mutexes i = some m → m.ownerTaskIdx = some (ownerByte (k.current h)) →
    heir i = none → (∀ x, ¬ WaitsFor k x i) ∧ k'.mutexes i = some ⟨false, none, 0#32⟩
  handed : ∀ i m x, k.mutexes i = some m → m.ownerTaskIdx = some (ownerByte (k.current h)) →
    heir i = some x → FirstWaiter k i x ∧ ReadyOrNext h k' x ∧
      k'.mutexes i = some ⟨true, some (ownerByte x.2), m.waitersBitmap &&& ~~~BitSet.single x.2⟩
  mutexes : ∀ i, ¬ (view k).Owns (k.current h) i → k'.mutexes i = k.mutexes i
  states : ∀ x, x ≠ (h, k.current h) →
    (∀ i, (view k).Owns (k.current h) i → heir i ≠ some x) →
    k'.stateOf x.1 x.2 = k.stateOf x.1 x.2 ∨ x = (h, k'.current h) ∧
      k.stateOf x.1 x.2 = some .ready ∧ k'.stateOf x.1 x.2 = some .running
  savedSp : ∀ x, x ≠ (h, k.current h) → savedSpOf k' x = savedSpOf k x
  static : (view k').static = (view k).static
  otherHart : ∀ h', h' ≠ h → k'.current h' = k.current h' ∧
    (k'.scheds h').remainingMifTicks = (k.scheds h').remainingMifTicks

/-- The handler returns, and has changed what it should. -/
def ContainsFault (h : Hart) (k : Kernel) (out : Outcome) : Prop :=
  ∃ sp k' heir, out = .ok (sp, k') ∧ FaultFrame h k k' heir

/-- The recovery finds the waiters of the mutexes of `target`: HSM Task, whom it looks for on core 1,
waits for none of them, and Idle 0, whose bit it takes for Idle 1, waits for none of them alone. -/
def WaitersFound (k : Kernel) (target : Fin MAX_PARTITIONS) : Prop :=
  ∀ i, (view k).Owns target i → ¬ WaitsFor k hsmTask i ∧
    (WaitsFor k (0, 31) i → ∃ y, y ≠ (0, 31) ∧ WaitsFor k y i)

/-! ## The waiters of the boot layout -/

theorem placed_of_boot (x : TaskId) (hx : (bootStatic x).isSome) (hhsm : x ≠ hsmTask)
    (hidle : x ≠ (0, 31)) : waiterTask x.2 = x := by
  obtain ⟨h, i⟩ := x
  revert h i
  decide +kernel

theorem registered_of_boot (x : TaskId) (hx : (bootStatic x).isSome) (hhsm : x ≠ hsmTask) :
    (bootStatic (waiterTask x.2)).isSome := by
  obtain ⟨h, i⟩ := x
  revert h i
  decide +kernel

theorem eq_of_idle (x : TaskId) (hx : x.2 = 31) (hidle : x ≠ (0, 31)) : x = waiterTask 31 := by
  obtain ⟨h, i⟩ := x
  revert h i
  decide +kernel

theorem eq_hsm_of_boot (x : TaskId) (hx : (bootStatic x).isSome) (h4 : x.2 = 4) : x = hsmTask := by
  obtain ⟨h, i⟩ := x
  revert h i
  decide +kernel

section Waiters
variable {k : Kernel} {i : Fin 8} {m : KernelMutex} {target : Fin MAX_PARTITIONS} {x : TaskId}

theorem BootLayout.isSome (hboot : BootLayout k) (x : TaskId) :
    ((view k).state x).isSome = (bootStatic x).isSome := by
  rw [view_state_isSome, ← Option.isSome_map (f := Static.priority) (x := bootStatic x), ← hboot x,
    Option.isSome_map]
  exact (Option.isSome_map ..).symm

theorem boot_of_waits (hboot : BootLayout k) (hx : WaitsFor k x i) : (bootStatic x).isSome := by
  rw [← hboot.isSome x]
  exact Option.isSome_iff_exists.mpr ⟨_, hx⟩

theorem BootLayout.priority (hboot : BootLayout k) :
    ∀ x s, (view k).static x = some s → s.priority = BitVec.ofNat 8 x.2.val := by
  intro x s hs
  have hx := hboot x
  rw [hs, Option.map_some] at hx
  obtain ⟨s', hs', hp⟩ := Option.map_eq_some_iff.mp hx.symm
  rw [← hp]
  exact bootStatic_priority x s' hs'

/-- Where the waiters are found, the scan chooses the first one, in the slot it waits in. -/
theorem scan_of_found (hboot : BootLayout k) (hbits : WaitBits k)
    (hfound : WaitersFound k target) (hm : k.mutexes i = some m)
    (ho : m.ownerTaskIdx = some (ownerByte target)) :
    highestWaiter k m.waitersBitmap = .ok (BitSet.least m.waitersBitmap) ∧
      ∀ w, BitSet.least m.waitersBitmap = some w → FirstWaiter k i (waiterTask w) := by
  obtain ⟨hhsm, hidle⟩ := hfound i ⟨m, hm, ho⟩
  have hne : ∀ y, WaitsFor k y i → y ≠ hsmTask := by
    rintro y hy rfl
    exact hhsm hy
  refine ⟨highestWaiter_eq hboot.priority fun w hw => ?_, fun w hw => ?_⟩
  · obtain ⟨h, hwaits⟩ := (hbits i m hm w).mp hw
    rw [hboot.isSome]
    exact registered_of_boot (h, w) (boot_of_waits hboot hwaits) (hne _ hwaits)
  · have hleast : ∀ y, WaitsFor k y i → w ≤ y.2 := fun y hy =>
      BitSet.least_le hw ((hbits i m hm y.2).mpr ⟨y.1, hy⟩)
    obtain ⟨h, hwaits⟩ := (hbits i m hm w).mp (BitSet.mem_of_least hw)
    refine ⟨?_, hleast⟩
    by_cases hidle0 : (h, w) = ((0, 31) : TaskId)
    · -- bit 31 is the only one, so the other task that waits is Idle 1
      obtain ⟨-, rfl⟩ := Prod.mk.inj hidle0
      rw [hidle0] at hwaits
      obtain ⟨y, hy, hywaits⟩ := hidle hwaits
      have hy31 : y.2 = 31 := Fin.le_antisymm (Fin.le_last y.2) (hleast y hywaits)
      rw [← eq_of_idle y hy31 hy]
      exact hywaits
    · rw [placed_of_boot (h, w) (boot_of_waits hboot hwaits) (hne _ hwaits) hidle0]
      exact hwaits

end Waiters

/-! ## The context switch at the end -/

section Switch
variable {P : Platform} {h : Hart} {k : Kernel} {v v' : View}

/-- A switch away from a task that no longer runs changes the state of the task it finds only. -/
theorem state_of_resched (hs : View.Resched h false v v') (hrun : v.state (v.running h) ≠ some .running)
    (x : TaskId) : v'.state x = v.state x ∨
      x = (h, v'.current h) ∧ v.state x = some .ready ∧ v'.state x = some .running := by
  rcases hs with ⟨rfl, -⟩ | ⟨n, hn, rfl⟩
  · exact Or.inl rfl
  · rw [View.state_swap]
    by_cases hx : x = (h, n)
    · rw [if_pos hx, hx, hn]
      refine Or.inr ⟨?_, rfl, rfl⟩
      simp [View.swap]
    · rw [if_neg hx, if_neg]
      · exact Or.inl rfl
      · rintro ⟨rfl, hr⟩
        exact hrun hr

theorem static_of_resched (hs : View.Resched h false v v') : v'.static = v.static := by
  rcases hs with ⟨rfl, -⟩ | ⟨n, -, rfl⟩ <;> rfl

theorem switchTask_otherHart (P : Platform) (cycles sp : Word) (k : Kernel) {h' : Hart} (hne : h' ≠ h) :
    (switchTask P h cycles false sp k).2.scheds h' = k.scheds h' := by
  unfold switchTask
  split
  · exact setSched_scheds_of_ne k hne _
  · split <;> exact setSched_scheds_of_ne _ hne _

end Switch

/-! ## After the recovery -/

section Recovery
variable {P : Platform} {h : Hart} {t : Trap} {k k2 : Kernel} {i : Fin 8} {m : KernelMutex} {x : TaskId}

theorem heirOf_eq (hm : k.mutexes i = some m) :
    heirOf (view k) i = (BitSet.least m.waitersBitmap).map waiterTask := by
  have hm' : (view k).mutexes i = some m := hm
  rw [heirOf, hm', Option.bind_some, heir]

/-- The faulting task is terminated, and beyond it only chosen waiters have a new state. -/
theorem recovered_state
    (hok : recoverMutexes h (k.current h) (k.setState h (k.current h) .terminated) = .ok k2)
    (hx : ∀ j, ¬ Chosen k (k.current h) j x) : (view k2).state x =
      if x = (h, k.current h) then ((view k).state x).map (fun _ => .terminated)
      else (view k).state x := by
  have hnot : ∀ j, ¬ Chosen (k.setState h (k.current h) .terminated) (k.current h) j x := by
    rintro j ⟨m, w, hm, ho, hscan, hw⟩
    exact hx j ⟨m, w, hm, ho, (scan_terminated k (h, k.current h) _).symm.trans hscan, hw⟩
  rw [(others_of_ok hok).1 x hnot, view_setState, View.state_setState]
  split
  · rename_i hself
    rw [hself]
  · rfl

theorem recovered_handed
    (hok : recoverMutexes h (k.current h) (k.setState h (k.current h) .terminated) = .ok k2)
    (hm : k.mutexes i = some m) (ho : m.ownerTaskIdx = some (ownerByte (k.current h)))
    {w : Fin MAX_PARTITIONS} (hscan : highestWaiter k m.waitersBitmap = .ok (some w)) :
    k2.mutexes i = some (m.handTo w) :=
  ((recovers_of_ok hok).handed i (List.mem_finRange i) m w hm ho
    ((scan_terminated k (h, k.current h) _).trans hscan)).1

theorem recovered_budget
    (hok : recoverMutexes h (k.current h) (k.setState h (k.current h) .terminated) = .ok k2)
    (h' : Hart) : (k2.scheds h').remainingMifTicks = (k.scheds h').remainingMifTicks := by
  rw [(others_of_ok hok).2 h']
  show ((Function.update k.scheds h _) h').remainingMifTicks = _
  by_cases hh : h' = h
  · rw [hh, Function.update_self]
    rfl
  · rw [Function.update_of_ne hh]

variable (hboot : BootLayout k) (hbits : WaitBits k)
  (hfound : WaitersFound k (k.current h)) (hrun : k.stateOf h (k.current h) = some .running)

include hboot hbits hfound in
theorem firstWaiter_of_chosen (hc : Chosen k (k.current h) i x) :
    FirstWaiter k i x ∧ heirOf (view k) i = some x := by
  obtain ⟨m, w, hm, ho, hscan, rfl⟩ := hc
  obtain ⟨hleast, hfirst⟩ := scan_of_found hboot hbits hfound hm ho
  have hw : BitSet.least m.waitersBitmap = some w := Except.ok.inj (hleast.symm.trans hscan)
  exact ⟨hfirst w hw, by rw [heirOf_eq hm, hw]; rfl⟩

include hboot hbits hfound in
theorem scans_of_found : Scans k (k.current h) := fun _ _ hm ho =>
  ⟨_, (scan_of_found hboot hbits hfound hm ho).1⟩

include hboot hbits hfound hrun in
/-- The running task waits for nothing, so it is not chosen. -/
theorem recovered_self
    (hok : recoverMutexes h (k.current h) (k.setState h (k.current h) .terminated) = .ok k2) :
    (view k2).state (h, k.current h) = some .terminated := by
  have hstate : (view k).state (h, k.current h) = some .running := hrun
  rw [recovered_state hok, if_pos rfl, hstate]
  · rfl
  · intro j hc
    have hw : (view k).state (h, k.current h) = _ :=
      (firstWaiter_of_chosen hboot hbits hfound hc).1.1
    rw [hstate] at hw
    cases hw

include hboot hbits hfound in
/-- A mutex without an heir has no waiter, and is free after the recovery. -/
theorem recovered_of_no_heir
    (hok : recoverMutexes h (k.current h) (k.setState h (k.current h) .terminated) = .ok k2)
    (hm : k.mutexes i = some m) (ho : m.ownerTaskIdx = some (ownerByte (k.current h)))
    (hnone : heirOf (view k) i = none) :
    (∀ x, ¬ WaitsFor k x i) ∧ k2.mutexes i = some ⟨false, none, 0#32⟩ := by
  obtain ⟨hleast, -⟩ := scan_of_found hboot hbits hfound hm ho
  have hl : BitSet.least m.waitersBitmap = none := by
    rw [heirOf_eq hm] at hnone
    exact Option.map_eq_none_iff.mp hnone
  have hzero : m.waitersBitmap = 0#32 := BitSet.eq_zero_of_least hl
  refine ⟨fun x hx => ?_, ?_⟩
  · have hmem := (hbits i m hm x.2).mpr ⟨x.1, hx⟩
    rw [hzero] at hmem
    exact BitSet.not_mem_zero _ hmem
  · rw [(recovers_of_ok hok).freed i (List.mem_finRange i) m hm ho
      ((scan_terminated k (h, k.current h) _).trans (hl ▸ hleast))]
    rw [KernelMutex.free, hzero]

include hboot hbits hfound in
/-- The heir of a mutex is its first waiter, owns it after the recovery, and is `Ready`. -/
theorem recovered_of_heir
    (hok : recoverMutexes h (k.current h) (k.setState h (k.current h) .terminated) = .ok k2)
    (hm : k.mutexes i = some m) (ho : m.ownerTaskIdx = some (ownerByte (k.current h)))
    (hsome : heirOf (view k) i = some x) :
    FirstWaiter k i x ∧ (view k2).state x = some .ready ∧
      k2.mutexes i = some ⟨true, some (ownerByte x.2), m.waitersBitmap &&& ~~~BitSet.single x.2⟩ := by
  obtain ⟨hleast, hfirst⟩ := scan_of_found hboot hbits hfound hm ho
  rw [heirOf_eq hm] at hsome
  obtain ⟨w, hw, rfl⟩ := Option.map_eq_some_iff.mp hsome
  have hscan : highestWaiter k m.waitersBitmap = .ok (some w) := hw ▸ hleast
  have hwaits := hfirst w hw
  have hto := (recovers_of_ok hok).handed i (List.mem_finRange i) m w hm ho
    ((scan_terminated k (h, k.current h) _).trans hscan)
  refine ⟨hwaits, ?_, hto.1⟩
  have hregistered : ((view (k.setState h (k.current h) .terminated)).state (waiterTask w)).isSome := by
    rw [view_setState, View.isSome_setState]
    exact Option.isSome_iff_exists.mpr ⟨_, hwaits.1⟩
  obtain ⟨st, hst⟩ := Option.isSome_iff_exists.mp hregistered
  rw [hto.2, hst]
  rfl

include hboot hbits hfound hrun in
theorem faultFrame_of_found
    (hok : recoverMutexes h (k.current h) (k.setState h (k.current h) .terminated) = .ok k2) :
    FaultFrame h k (switchTask P h t.cycles false t.userSp k2).2 (heirOf (view k)) := by
  have hr := recovers_of_ok hok
  have hu : Untouched k k2 :=
    (Untouched.setState k h (k.current h) .terminated).trans (recoverMutexes_untouched hok)
  have hcur : k2.current = k.current := hu.current
  have hself := recovered_self hboot hbits hfound hrun hok
  have hresched := switchTask_resched P h t.cycles false t.userSp k2
  obtain ⟨-, -, hmutexes⟩ := switchTask_same P h t.cycles false t.userSp k2
  have hnot : (view k2).state ((view k2).running h) ≠ some .running := by
    have hrunning : (view k2).running h = (h, k.current h) := congrArg (Prod.mk h) (congrFun hcur h)
    rw [hrunning, hself]
    exact fun he => by cases he
  have hafter := state_of_resched hresched hnot
  refine ⟨?_, ?_, ?_, ?_, ?_, ?_, ?_, ?_⟩
  · rcases hafter (h, k.current h) with he | ⟨-, he, -⟩
    · exact he.trans hself
    · rw [hself] at he
      cases he
  · intro i m hm ho hnone
    rw [hmutexes]
    exact recovered_of_no_heir hboot hbits hfound hok hm ho hnone
  · intro i m x hm ho hsome
    obtain ⟨hwaits, hready, hto⟩ := recovered_of_heir hboot hbits hfound hok hm ho hsome
    refine ⟨hwaits, ?_, ?_⟩
    · rcases hafter x with he | ⟨hx, -, he⟩
      · exact Or.inl (he.trans hready)
      · exact Or.inr ⟨hx, he⟩
    · rw [hmutexes, hto]
  · intro i hi
    rw [hmutexes]
    exact hr.others i (Or.inr hi)
  · intro x hx hheir
    have hstate : (view k2).state x = (view k).state x := by
      rw [recovered_state hok, if_neg hx]
      intro j hc
      obtain ⟨m, w, hm, ho, -, -⟩ := id hc
      exact hheir j ⟨m, hm, ho⟩ (firstWaiter_of_chosen hboot hbits hfound hc).2
    rcases hafter x with he | ⟨hnext, hready, he⟩
    · exact Or.inl (he.trans hstate)
    · exact Or.inr ⟨hnext, hstate.symm.trans hready, he⟩
  · intro x hx
    have hx2 : x ≠ (h, k2.current h) := by
      rw [hcur]
      exact hx
    exact ((switchTask_callerOnly P h t.cycles false t.userSp k2).savedSp x hx2).trans (hu.savedSp x)
  · rw [static_of_resched hresched, hr.static, view_setState]
    rfl
  · intro h' hne
    have hsched := switchTask_otherHart P t.cycles t.userSp k2 hne
    refine ⟨?_, ?_⟩
    · rw [Kernel.current, hsched]
      exact congrFun hcur h'
    · rw [hsched]
      exact recovered_budget hok h'

/-- A waiter in a slot that its index does not stand for stays `BlockedOnMutex`. -/
theorem not_readyOrNext_of_misplaced
    (hok : recoverMutexes h (k.current h) (k.setState h (k.current h) .terminated) = .ok k2)
    (hx : WaitsFor k x i) (hne : waiterTask x.2 ≠ x) :
    ¬ ReadyOrNext h (switchTask P h t.cycles false t.userSp k2).2 x := by
  have hstate : ¬ Runnable ((view k2).state x) := by
    rw [recovered_state hok]
    · split
      · have hst : (view k).state x = _ := hx
        rw [hst]
        rintro (hr | hr) <;> cases hr
      · exact hx.not_runnable
    · rintro j ⟨m, w, -, -, -, rfl⟩
      exact hne rfl
  have hnot := not_woken_of_not_runnable
    (Or.inr (switchTask_resched P h t.cycles false t.userSp k2)) hstate
  rintro (hr | ⟨hxn, hr⟩)
  · exact hnot (Or.inl hr)
  · refine hnot (Or.inr ⟨hr, ?_⟩)
    rw [hxn]

/-- The waiter to whom the frame hands the mutex has the index that the scan chooses. -/
theorem heir_of_frame {heir : Fin 8 → Option TaskId}
    (hok : recoverMutexes h (k.current h) (k.setState h (k.current h) .terminated) = .ok k2)
    (hf : FaultFrame h k (switchTask P h t.cycles false t.userSp k2).2 heir)
    (hm : k.mutexes i = some m) (ho : m.ownerTaskIdx = some (ownerByte (k.current h)))
    {w : Fin MAX_PARTITIONS} (hscan : highestWaiter k m.waitersBitmap = .ok (some w))
    (hx : WaitsFor k x i) : ∃ y, y.2 = w ∧ FirstWaiter k i y ∧
      ReadyOrNext h (switchTask P h t.cycles false t.userSp k2).2 y := by
  cases hheir : heir i with
  | none => exact absurd hx ((hf.freed i m hm ho hheir).1 x)
  | some y =>
    obtain ⟨hfirst, hready, hmutex⟩ := hf.handed i m y hm ho hheir
    refine ⟨y, ?_, hfirst, hready⟩
    rw [(switchTask_same P h t.cycles false t.userSp k2).2.2, recovered_handed hok hm ho hscan] at hmutex
    have howner : some (ownerByte w) = some (ownerByte y.2) :=
      congrArg KernelMutex.ownerTaskIdx (Option.some.inj hmutex)
    exact (ownerByte_inj (Option.some.inj howner)).symm

include hboot hbits in
theorem found_of_faultFrame {heir : Fin 8 → Option TaskId}
    (hok : recoverMutexes h (k.current h) (k.setState h (k.current h) .terminated) = .ok k2)
    (hscans : Scans k (k.current h))
    (hf : FaultFrame h k (switchTask P h t.cycles false t.userSp k2).2 heir) :
    WaitersFound k (k.current h) := by
  rintro i ⟨m, hm, ho⟩
  have hchoice : ∀ x, WaitsFor k x i → ∃ w, highestWaiter k m.waitersBitmap = .ok (some w) := by
    intro x hx
    obtain ⟨w?, hw?⟩ := hscans i m hm ho
    cases w? with
    | none => exact absurd ((hbits i m hm x.2).mpr ⟨x.1, hx⟩) (not_mem_of_highestWaiter hw? x.2)
    | some w => exact ⟨w, hw?⟩
  refine ⟨fun hhsm => ?_, fun hidle => ?_⟩
  · obtain ⟨w, hscan⟩ := hchoice _ hhsm
    by_cases hw : w = 4
    · obtain ⟨y, hy, hfirst, hready⟩ := heir_of_frame hok hf hm ho hscan hhsm
      obtain rfl : y = hsmTask :=
        eq_hsm_of_boot y (boot_of_waits hboot hfirst.1) (hy.trans hw)
      exact not_readyOrNext_of_misplaced hok hfirst.1 (by decide) hready
    · -- the scan compares bit 4 with the one it chooses, and core 1 has no task 4
      have hbit : BitSet.Mem m.waitersBitmap 4 := (hbits i m hm 4).mpr ⟨0, hhsm⟩
      obtain ⟨p, hp⟩ := compared_of_highestWaiter hscan hbit (Ne.symm hw)
      have hnone : (k.scheds (waiterHart 4)).taskTable 4 = none := by
        have hsome := hboot.isSome (waiterTask 4)
        rw [view_state_isSome] at hsome
        exact Option.isNone_iff_eq_none.mp
          (Option.isSome_eq_false_iff.mp (hsome.trans (by decide +kernel)))
      rw [waiterPriority, hnone] at hp
      cases hp
  · obtain ⟨w, hscan⟩ := hchoice _ hidle
    obtain ⟨y, -, hfirst, hready⟩ := heir_of_frame hok hf hm ho hscan hidle
    refine ⟨y, ?_, hfirst.1⟩
    rintro rfl
    exact not_readyOrNext_of_misplaced hok hfirst.1 (by decide) hready

end Recovery

/-! ## The handler -/

/-- The lock and the telemetry are no part of the frame. -/
theorem containsFault_withSchedLock (h : Hart) (k : Kernel) (e : TraceEvent) {l : Spinlock}
    {body : Kernel → Outcome} (hl : k.schedLock.lock h = some l) :
    ContainsFault h k (withSchedLock h (k.logTelemetry e) body) ↔
      ContainsFault h { k.logTelemetry e with schedLock := l }
        (body { k.logTelemetry e with schedLock := l }) := by
  have hl' : (k.logTelemetry e).schedLock.lock h = some l := hl
  unfold withSchedLock
  simp only [hl']
  cases body { k.logTelemetry e with schedLock := l } with
  | error e =>
    constructor
    · rintro ⟨sp, k', heir, hr, -⟩
      cases hr
    · rintro ⟨sp, k', heir, hr, -⟩
      cases hr
  | ok r =>
    constructor
    · rintro ⟨sp, k', heir, hr, hf⟩
      obtain ⟨-, rfl⟩ := Prod.mk.inj (Except.ok.inj hr)
      exact ⟨r.1, r.2, heir, rfl, hf.terminated, hf.freed, hf.handed, hf.mutexes, hf.states, hf.savedSp,
        hf.static, hf.otherHart⟩
    · rintro ⟨sp, k', heir, hr, hf⟩
      obtain rfl : r = (sp, k') := Except.ok.inj hr
      exact ⟨sp, _, heir, rfl, hf.terminated, hf.freed, hf.handed, hf.mutexes, hf.states, hf.savedSp,
        hf.static, hf.otherHart⟩

theorem terminateRunning_contains_iff {P : Platform} {h : Hart} {t : Trap} {k : Kernel}
    (hboot : BootLayout k) (hbits : WaitBits k)
    (hrun : k.stateOf h (k.current h) = some .running) (hmutex : (k.mutexLock.lock h).isSome) :
    ContainsFault h k (terminateRunning P h t k) ↔ WaitersFound k (k.current h) := by
  have hreg : ((k.scheds h).taskTable (k.current h)).isSome := by
    rw [← view_state_isSome k (h, k.current h)]
    exact Option.isSome_iff_exists.mpr ⟨_, hrun⟩
  obtain ⟨tcb, htcb⟩ := Option.isSome_iff_exists.mp hreg
  have hiff := recoverTerminated_ok_iff (o := (h, k.current h)) hmutex
  unfold terminateRunning
  simp only [htcb]
  cases hok : recoverMutexes h (k.current h) (k.setState h (k.current h) .terminated) with
  | error e =>
    refine iff_of_false ?_ fun hfound => ?_
    · rintro ⟨sp, k', heir, hr, -⟩
      cases hr
    · obtain ⟨k2, hk2⟩ := hiff.mpr (scans_of_found hboot hbits hfound)
      rw [hok] at hk2
      cases hk2
  | ok k2 =>
    constructor
    · rintro ⟨sp, k', heir, hr, hf⟩
      obtain ⟨-, rfl⟩ := Prod.mk.inj (Except.ok.inj hr)
      exact found_of_faultFrame hboot hbits hok (hiff.mp ⟨k2, hok⟩) hf
    · intro hfound
      exact ⟨_, _, heirOf (view k), rfl, faultFrame_of_found hboot hbits hfound hrun hok⟩

/-- A contained fault changes what it should and nothing else if and only if the recovery finds the
tasks that wait for the mutexes of the faulting one. -/
theorem fault_contained_iff (P : Platform) (h : Hart) (t : Trap) (k : Kernel)
    (hboot : BootLayout k) (hbits : WaitBits k)
    (hrun : k.stateOf h (k.current h) = some .running) (hcause : contained t.mcause = true)
    (hcsr : ¬ (t.mcause = 2#32 ∧ readsCounter (k.mem.readWord (k.readFrame t.userSp 28)) = true))
    (hlock : (k.schedLock.lock h).isSome) (hmutex : (k.mutexLock.lock h).isSome) :
    ContainsFault h k (trapHandler P h t k) ↔ WaitersFound k (k.current h) := by
  obtain ⟨l, hl⟩ := Option.isSome_iff_exists.mp hlock
  rw [trapHandler_of_contained P hcause hcsr, containFault, containsFault_withSchedLock h k _ hl]
  exact terminateRunning_contains_iff (k := { k.logTelemetry _ with schedLock := l }) hboot hbits hrun
    hmutex

/-- Task A runs and owns mutex 0, and `waiter` waits for it. -/
def faultingKernel (waiter : TaskId) : Kernel :=
  ((((bootSystem.kernel.setSched 0 { bootSystem.kernel.scheds 0 with currentPartitionIdx := 1 }).setState
    0 0 .ready).setState 0 1 .running).setState waiter.1 waiter.2 (.blockedOnMutex 0)).setMutex 0
      ⟨true, some 1, BitSet.single waiter.2⟩

instance (k : Kernel) : Decidable (WaitBits k) :=
  decidable_of_iff (∀ i, ∀ m ∈ k.mutexes i, ∀ w,
    BitSet.Mem m.waitersBitmap w ↔ ∃ h, WaitsFor k (h, w) i) Iff.rfl

instance (k : Kernel) : Decidable (BootLayout k) :=
  decidable_of_iff (∀ h i, ((view k).static (h, i)).map Static.priority =
    (bootStatic (h, i)).map Static.priority) ⟨fun hall x => hall x.1 x.2, fun hall h i => hall (h, i)⟩

/-- Task A faults while Task C waits for its mutex. -/
theorem fault_contained_taskC : ContainsFault 0 (faultingKernel taskC)
    (trapHandler packedPlatform 0 ⟨5, 0x3FC82400, 0⟩ (faultingKernel taskC)) := by
  have hno : ∀ i h w, WaitsFor (faultingKernel taskC) (h, w) i → (h, w) = taskC := by decide +kernel
  refine (fault_contained_iff packedPlatform 0 ⟨5, 0x3FC82400, 0⟩ (faultingKernel taskC)
    (by decide +kernel) (by decide +kernel) (by decide +kernel) (by decide) (by decide)
    (by decide +kernel) (by decide +kernel)).mpr fun i _ => ⟨fun hx => ?_, fun hx => ?_⟩
  · exact absurd (hno i _ _ hx) (by decide)
  · exact absurd (hno i _ _ hx) (by decide)

/-- HSM Task waits for the mutex instead: it is the new owner, and stays `BlockedOnMutex`. -/
theorem fault_leaves_hsm_blocked :
    (∃ sp k', trapHandler packedPlatform 0 ⟨5, 0x3FC82400, 0⟩ (faultingKernel hsmTask) = .ok (sp, k') ∧
      k'.mutexes 0 = some ⟨true, some 4, 0⟩ ∧ k'.stateOf 0 4 = some (.blockedOnMutex 0)) ∧
    ¬ ∀ (P : Platform) (h : Hart) (t : Trap) (k : Kernel), BootLayout k → WaitBits k →
      k.stateOf h (k.current h) = some .running → contained t.mcause = true →
      ¬ (t.mcause = 2#32 ∧ readsCounter (k.mem.readWord (k.readFrame t.userSp 28)) = true) →
      (k.schedLock.lock h).isSome → (k.mutexLock.lock h).isSome →
      ContainsFault h k (trapHandler P h t k) := by
  have hout : ((trapHandler packedPlatform 0 ⟨5, 0x3FC82400, 0⟩ (faultingKernel hsmTask)).toOption.map
      fun r => (r.2.mutexes 0, r.2.stateOf 0 4)) =
      some (some ⟨true, some 4, 0⟩, some (.blockedOnMutex 0)) := by decide +kernel
  obtain ⟨⟨sp, k'⟩, hret, hres⟩ := Option.map_eq_some_iff.mp hout
  obtain ⟨hmutex, hstate⟩ := Prod.mk.inj hres
  have hok := eq_ok_of_toOption hret
  refine ⟨⟨sp, k', hok, hmutex, hstate⟩, fun hall => ?_⟩
  obtain ⟨sp', k'', heir, hok', hf⟩ := hall packedPlatform 0 ⟨5, 0x3FC82400, 0⟩ (faultingKernel hsmTask)
    (by decide +kernel) (by decide +kernel) (by decide +kernel) (by decide) (by decide)
    (by decide +kernel) (by decide +kernel)
  obtain ⟨-, rfl⟩ := Prod.mk.inj (Except.ok.inj (hok.symm.trans hok'))
  have hm : (faultingKernel hsmTask).mutexes 0 = some ⟨true, some 1, 16⟩ := by decide +kernel
  have hwaits : WaitsFor (faultingKernel hsmTask) hsmTask 0 := by decide +kernel
  have honly : ∀ h w, WaitsFor (faultingKernel hsmTask) (h, w) 0 → (h, w) = hsmTask := by decide +kernel
  cases hheir : heir 0 with
  | none => exact (hf.freed 0 _ hm (by decide +kernel) hheir).1 _ hwaits
  | some x =>
    obtain ⟨hfirst, hready, -⟩ := hf.handed 0 _ x hm (by decide +kernel) hheir
    obtain rfl : x = hsmTask := honly _ _ hfirst.1
    have hblocked : k'.stateOf hsmTask.1 hsmTask.2 = some (.blockedOnMutex 0) := hstate
    rcases hready with hr | ⟨-, hr⟩ <;> rw [hblocked] at hr <;> cases hr

end Cerberus.Containment
