import Cerberus.Kernel.Footprint

/-! # Mutex recovery in any kernel

`Kernel/TrapSpec` follows recovery where every waiter has a control block on the hart its index stands
for. Here nothing is assumed of the task tables: the scan may fail to find a control block, and a
waiter may be registered on the other hart. `recoverMutexes_ok_iff` says when recovery succeeds, and
`Recovers` what it leaves. -/
namespace Cerberus.Kernel
open Scheduler Sync Memory
set_option autoImplicit false

/-! ## The scan reads nothing but priorities -/

section Scan
variable {k k' : Kernel}

theorem waiterPriority_congr (hs : (view k').static = (view k).static) (w : Fin MAX_PARTITIONS) :
    waiterPriority k' w = waiterPriority k w := by
  have hslot : ((k'.scheds (waiterHart w)).taskTable w).map static =
      ((k.scheds (waiterHart w)).taskTable w).map static := congrFun hs (waiterTask w)
  unfold waiterPriority
  cases h' : (k'.scheds (waiterHart w)).taskTable w with
  | none =>
    rw [h'] at hslot
    rw [Option.map_eq_none_iff.mp hslot.symm]
  | some tcb' =>
    rw [h'] at hslot
    obtain ⟨tcb, htcb, hstatic⟩ := Option.map_eq_some_iff.mp hslot.symm
    rw [htcb]
    exact congrArg (fun s => Except.ok s.priority) hstatic.symm

theorem highestWaiter_congr (hs : (view k').static = (view k).static) (b : Word) :
    highestWaiter k' b = highestWaiter k b := by
  have hscan : scanWaiter k' b = scanWaiter k b := by
    funext w? i
    unfold scanWaiter
    simp only [waiterPriority_congr hs]
  rw [highestWaiter, hscan, highestWaiter]

/-- The scan chooses one of the waiters. -/
theorem mem_of_scan {b : Word} {l : List (Fin MAX_PARTITIONS)} {w? : Option (Fin MAX_PARTITIONS)}
    (hw? : ∀ w ∈ w?, BitSet.Mem b w) {r : Option (Fin MAX_PARTITIONS)}
    (hr : l.foldlM (scanWaiter k b) w? = .ok r) : ∀ w ∈ r, BitSet.Mem b w := by
  induction l generalizing w? with
  | nil =>
    obtain rfl : w? = r := Except.ok.inj hr
    exact hw?
  | cons i l ih =>
    rw [List.foldlM_cons] at hr
    cases hi : scanWaiter k b w? i with
    | error e =>
      rw [hi] at hr
      cases hr
    | ok v? =>
      rw [hi] at hr
      refine ih (fun w hw => ?_) hr
      unfold scanWaiter at hi
      split at hi
      · rename_i hbit
        have hmem : BitSet.Mem b i := BitSet.and_single_ne_zero_iff.mp hbit
        split at hi
        · obtain rfl := Except.ok.inj hi
          obtain rfl : i = w := Option.some.inj hw
          exact hmem
        · rename_i v
          split at hi
          · have hv := Except.ok.inj hi
            rw [← hv] at hw
            split at hw
            · obtain rfl : i = w := Option.some.inj hw
              exact hmem
            · obtain rfl : v = w := Option.some.inj hw
              exact hw? v rfl
          · cases hi
      · obtain rfl := Except.ok.inj hi
        exact hw? w hw

theorem mem_of_highestWaiter {b : Word} {w : Fin MAX_PARTITIONS}
    (hw : highestWaiter k b = .ok (some w)) : BitSet.Mem b w :=
  mem_of_scan (fun _ hn => by cases hn) hw w rfl

theorem not_mem_of_scan {b : Word} {l : List (Fin MAX_PARTITIONS)}
    {w? : Option (Fin MAX_PARTITIONS)} (hr : l.foldlM (scanWaiter k b) w? = .ok none) :
    w? = none ∧ ∀ i ∈ l, ¬ BitSet.Mem b i := by
  induction l generalizing w? with
  | nil => exact ⟨Except.ok.inj hr, fun i hi => by cases hi⟩
  | cons i l ih =>
    rw [List.foldlM_cons] at hr
    cases hi : scanWaiter k b w? i with
    | error e =>
      rw [hi] at hr
      cases hr
    | ok v? =>
      rw [hi] at hr
      obtain ⟨rfl, hl⟩ := ih hr
      unfold scanWaiter at hi
      split at hi
      · -- a set bit leaves a waiter behind
        split at hi
        · cases hi
        · split at hi
          · have hv := Except.ok.inj hi
            split at hv <;> cases hv
          · cases hi
      · rename_i hbit
        refine ⟨Except.ok.inj hi, fun j hj => ?_⟩
        rcases List.mem_cons.mp hj with rfl | hjl
        · exact fun hmem => hbit (BitSet.and_single_ne_zero_iff.mpr hmem)
        · exact hl j hjl

theorem not_mem_of_highestWaiter {b : Word} (hnone : highestWaiter k b = .ok none)
    (w : Fin MAX_PARTITIONS) : ¬ BitSet.Mem b w := (not_mem_of_scan hnone).2 w (List.mem_finRange w)

/-- Every waiter that is not chosen has been compared with another one. -/
theorem compared_of_scan {b : Word} {l : List (Fin MAX_PARTITIONS)} {w? : Option (Fin MAX_PARTITIONS)}
    {r : Option (Fin MAX_PARTITIONS)} (hr : l.foldlM (scanWaiter k b) w? = .ok r)
    {v : Fin MAX_PARTITIONS} (hv : v ∈ w? ∨ (v ∈ l ∧ BitSet.Mem b v)) :
    r = some v ∨ ∃ p, waiterPriority k v = .ok p := by
  induction l generalizing w? with
  | nil =>
    obtain rfl : w? = r := Except.ok.inj hr
    rcases hv with hv | ⟨hv, -⟩
    · exact Or.inl hv
    · cases hv
  | cons i l ih =>
    rw [List.foldlM_cons] at hr
    cases hi : scanWaiter k b w? i with
    | error e =>
      rw [hi] at hr
      cases hr
    | ok u? =>
      rw [hi] at hr
      unfold scanWaiter at hi
      split at hi
      · split at hi
        · -- the first waiter the scan meets
          obtain rfl := Except.ok.inj hi
          rcases hv with hv | ⟨hv, hb⟩
          · cases hv
          · rcases List.mem_cons.mp hv with rfl | hvl
            · exact ih hr (Or.inl rfl)
            · exact ih hr (Or.inr ⟨hvl, hb⟩)
        · rename_i w
          split at hi
          · rename_i wPrio iPrio hw hip
            obtain rfl := Except.ok.inj hi
            rcases hv with hv | ⟨hv, hb⟩
            · obtain rfl : w = v := Option.some.inj hv
              exact Or.inr ⟨wPrio, hw⟩
            · rcases List.mem_cons.mp hv with rfl | hvl
              · exact Or.inr ⟨iPrio, hip⟩
              · exact ih hr (Or.inr ⟨hvl, hb⟩)
          · cases hi
      · rename_i hbit
        obtain rfl := Except.ok.inj hi
        rcases hv with hv | ⟨hv, hb⟩
        · exact ih hr (Or.inl hv)
        · rcases List.mem_cons.mp hv with rfl | hvl
          · exact absurd (BitSet.and_single_ne_zero_iff.mpr hb) hbit
          · exact ih hr (Or.inr ⟨hvl, hb⟩)

theorem compared_of_highestWaiter {b : Word} {v w : Fin MAX_PARTITIONS}
    (hw : highestWaiter k b = .ok (some w)) (hv : BitSet.Mem b v) (hne : v ≠ w) :
    ∃ p, waiterPriority k v = .ok p := by
  rcases compared_of_scan hw (Or.inr ⟨List.mem_finRange v, hv⟩) with hwv | hp
  · exact absurd (Option.some.inj hwv).symm hne
  · exact hp

end Scan

/-! ## One mutex -/

theorem recoverMutex_cases (target : Fin MAX_PARTITIONS) (k : Kernel) (i : Fin 8) :
    (¬ (view k).Owns target i ∧ recoverMutex target k i = .ok k) ∨
    ∃ m, k.mutexes i = some m ∧ m.ownerTaskIdx = some (ownerByte target) ∧
      ((∃ e, highestWaiter k m.waitersBitmap = .error e ∧ recoverMutex target k i = .error e) ∨
      (highestWaiter k m.waitersBitmap = .ok none ∧
        recoverMutex target k i = .ok (k.setMutex i m.free)) ∨
      ∃ w, highestWaiter k m.waitersBitmap = .ok (some w) ∧ recoverMutex target k i =
        .ok ((k.setMutex i (m.handTo w)).setState (waiterHart w) w .ready)) := by
  unfold recoverMutex
  cases hm : k.mutexes i with
  | none =>
    refine Or.inl ⟨?_, rfl⟩
    rintro ⟨m, hm', -⟩
    have hm'' : k.mutexes i = some m := hm'
    rw [hm] at hm''
    cases hm''
  | some m =>
    by_cases ho : m.ownerTaskIdx = some (ownerByte target)
    · have ho' : m.ownerTaskIdx = some (BitVec.ofNat 8 target.val) := ho
      refine Or.inr ⟨m, rfl, ho, ?_⟩
      simp only [if_pos ho']
      cases hscan : highestWaiter k m.waitersBitmap with
      | error e => exact Or.inl ⟨e, rfl, rfl⟩
      | ok w? =>
        cases w? with
        | none => exact Or.inr (Or.inl ⟨rfl, rfl⟩)
        | some w => exact Or.inr (Or.inr ⟨w, rfl, rfl⟩)
    · have ho' : ¬ m.ownerTaskIdx = some (BitVec.ofNat 8 target.val) := ho
      refine Or.inl ⟨?_, by simp only [if_neg ho']⟩
      rintro ⟨m', hm', ho''⟩
      have hm'' : k.mutexes i = some m' := hm'
      rw [hm] at hm''
      rw [← Option.some.inj hm''] at ho''
      exact ho ho''

/-! ## The loop over the mutexes -/

/-- What recovery over the mutexes in `l` leaves. -/
structure Recovers (target : Fin MAX_PARTITIONS) (l : List (Fin 8)) (k k' : Kernel) : Prop where
  static : (view k').static = (view k).static
  mem : k'.mem = k.mem
  msip : k'.msip = k.msip
  others : ∀ j, j ∉ l ∨ ¬ (view k).Owns target j → k'.mutexes j = k.mutexes j
  state : ∀ x, (view k').state x = (view k).state x ∨
    waiterTask x.2 = x ∧ (view k').state x = ((view k).state x).map fun _ => .ready
  freed : ∀ j ∈ l, ∀ m, k.mutexes j = some m → m.ownerTaskIdx = some (ownerByte target) →
    highestWaiter k m.waitersBitmap = .ok none → k'.mutexes j = some m.free
  handed : ∀ j ∈ l, ∀ m w, k.mutexes j = some m → m.ownerTaskIdx = some (ownerByte target) →
    highestWaiter k m.waitersBitmap = .ok (some w) → k'.mutexes j = some (m.handTo w) ∧
      (view k').state (waiterTask w) = ((view k).state (waiterTask w)).map fun _ => .ready

namespace Recovers
variable {target : Fin MAX_PARTITIONS} {k k1 k' : Kernel} {i : Fin 8} {l : List (Fin 8)}

theorem nil : Recovers target [] k k where
  static := rfl
  mem := rfl
  msip := rfl
  others := fun _ _ => rfl
  state := fun _ => Or.inl rfl
  freed := fun j hj => by cases hj
  handed := fun j hj => by cases hj

/-- One round of the loop. -/
theorem single (hok : recoverMutex target k i = .ok k') : Recovers target [i] k k' := by
  rcases recoverMutex_cases target k i with ⟨hno, hsame⟩ | ⟨m, hm, ho, hcases⟩
  · obtain rfl := Except.ok.inj (hsame.symm.trans hok)
    refine ⟨rfl, rfl, rfl, fun _ _ => rfl, fun _ => Or.inl rfl, ?_, ?_⟩
    · intro j hj m hm ho _
      obtain rfl := List.mem_singleton.mp hj
      exact absurd ⟨m, hm, ho⟩ hno
    · intro j hj m w hm ho _
      obtain rfl := List.mem_singleton.mp hj
      exact absurd ⟨m, hm, ho⟩ hno
  · have hown : (view k).Owns target i := ⟨m, hm, ho⟩
    have hothers : ∀ m' j, j ∉ [i] ∨ ¬ (view k).Owns target j →
        (k.setMutex i m').mutexes j = k.mutexes j := by
      intro m' j hj
      have hne : j ≠ i := by
        rintro rfl
        exact hj.elim (fun h => h (List.mem_singleton.mpr rfl)) fun h => h hown
      exact Function.update_of_ne hne _ _
    rcases hcases with ⟨e, -, herr⟩ | ⟨hscan, hfree⟩ | ⟨w, hscan, hto⟩
    · rw [herr] at hok
      cases hok
    · obtain rfl := Except.ok.inj (hfree.symm.trans hok)
      refine ⟨rfl, rfl, rfl, hothers _, fun _ => Or.inl rfl, ?_, ?_⟩
      · intro j hj m' hm' _ _
        obtain rfl := List.mem_singleton.mp hj
        obtain rfl := Option.some.inj (hm.symm.trans hm')
        exact Function.update_self j _ _
      · intro j hj m' w hm' _ hscan'
        obtain rfl := List.mem_singleton.mp hj
        obtain rfl := Option.some.inj (hm.symm.trans hm')
        rw [hscan] at hscan'
        cases hscan'
    · obtain rfl := Except.ok.inj (hto.symm.trans hok)
      have hstate : ∀ x, (view ((k.setMutex i (m.handTo w)).setState (waiterHart w) w .ready)).state x =
          if x = waiterTask w then ((view k).state (waiterTask w)).map (fun _ => .ready)
          else (view k).state x := by
        intro x
        rw [view_setState, View.state_setState]
        rfl
      refine ⟨by rw [view_setState]; rfl, rfl, rfl, hothers _, fun x => ?_, ?_, ?_⟩
      · rw [hstate]
        by_cases hx : x = waiterTask w
        · rw [if_pos hx, hx]
          exact Or.inr ⟨rfl, rfl⟩
        · rw [if_neg hx]
          exact Or.inl rfl
      · intro j hj m' hm' _ hscan'
        obtain rfl := List.mem_singleton.mp hj
        obtain rfl := Option.some.inj (hm.symm.trans hm')
        rw [hscan] at hscan'
        cases hscan'
      · intro j hj m' w' hm' _ hscan'
        obtain rfl := List.mem_singleton.mp hj
        obtain rfl := Option.some.inj (hm.symm.trans hm')
        obtain rfl := Option.some.inj (Except.ok.inj (hscan.symm.trans hscan'))
        refine ⟨Function.update_self j _ _, ?_⟩
        rw [hstate, if_pos rfl]

theorem owns_iff (hr : Recovers target [i] k k1) {j : Fin 8} (hj : j ≠ i) :
    (view k1).Owns target j ↔ (view k).Owns target j := by
  have hsame : k1.mutexes j = k.mutexes j :=
    hr.others j (Or.inl fun h => hj (List.mem_singleton.mp h))
  exact exists_congr fun m => by
    show k1.mutexes j = some m ∧ _ ↔ k.mutexes j = some m ∧ _
    rw [hsame]

theorem cons (h1 : Recovers target [i] k k1) (h2 : Recovers target l k1 k') (hi : i ∉ l) :
    Recovers target (i :: l) k k' := by
  have hlater : ∀ j ∈ l, k1.mutexes j = k.mutexes j := by
    intro j hj
    refine h1.others j (Or.inl fun h => hi ?_)
    rw [← List.mem_singleton.mp h]
    exact hj
  have hhead : k'.mutexes i = k1.mutexes i := h2.others i (Or.inl hi)
  refine ⟨h2.static.trans h1.static, h2.mem.trans h1.mem, h2.msip.trans h1.msip, ?_, ?_, ?_, ?_⟩
  · intro j hj
    have hj1 : j ∉ [i] ∨ ¬ (view k).Owns target j :=
      hj.imp (fun h hji => h (List.mem_singleton.mp hji ▸ List.mem_cons_self ..)) id
    refine (h2.others j ?_).trans (h1.others j hj1)
    by_cases hji : j = i
    · exact Or.inl (hji ▸ hi)
    · exact hj.imp (fun h hjl => h (List.mem_cons_of_mem _ hjl)) fun h hown =>
        h ((h1.owns_iff hji).mp hown)
  · intro x
    rcases h1.state x with hx1 | ⟨hw, hx1⟩ <;> rcases h2.state x with hx2 | ⟨hw', hx2⟩
    · exact Or.inl (hx2.trans hx1)
    · exact Or.inr ⟨hw', by rw [hx2, hx1]⟩
    · exact Or.inr ⟨hw, hx2.trans hx1⟩
    · refine Or.inr ⟨hw, ?_⟩
      rw [hx2, hx1, Option.map_map]
      rfl
  · intro j hj m hm ho hscan
    rcases List.mem_cons.mp hj with rfl | hjl
    · rw [hhead]
      exact h1.freed j (List.mem_singleton.mpr rfl) m hm ho hscan
    · refine h2.freed j hjl m ((hlater j hjl).trans hm) ho ?_
      rw [highestWaiter_congr h1.static]
      exact hscan
  · intro j hj m w hm ho hscan
    rcases List.mem_cons.mp hj with rfl | hjl
    · obtain ⟨hto, hst⟩ := h1.handed j (List.mem_singleton.mpr rfl) m w hm ho hscan
      refine ⟨hhead.trans hto, ?_⟩
      rcases h2.state (waiterTask w) with hx2 | ⟨-, hx2⟩
      · exact hx2.trans hst
      · rw [hx2, hst, Option.map_map]
        rfl
    · obtain ⟨hto, hst⟩ := h2.handed j hjl m w ((hlater j hjl).trans hm) ho (by
        rw [highestWaiter_congr h1.static]
        exact hscan)
      refine ⟨hto, hst.trans ?_⟩
      rcases h1.state (waiterTask w) with hx1 | ⟨-, hx1⟩
      · rw [hx1]
      · rw [hx1, Option.map_map]
        rfl

end Recovers

/-- The scan finds the control blocks it reads, for every mutex of `target`. -/
def Scans (k : Kernel) (target : Fin MAX_PARTITIONS) : Prop :=
  ∀ j m, k.mutexes j = some m → m.ownerTaskIdx = some (ownerByte target) →
    ∃ w?, highestWaiter k m.waitersBitmap = .ok w?

theorem recoverLoop_ok_iff {k : Kernel} (target : Fin MAX_PARTITIONS) {l : List (Fin 8)}
    (hl : l.Nodup) : (∃ k', l.foldlM (recoverMutex target) k = .ok k') ↔
      ∀ j ∈ l, ∀ m, k.mutexes j = some m → m.ownerTaskIdx = some (ownerByte target) →
        ∃ w?, highestWaiter k m.waitersBitmap = .ok w? := by
  induction l generalizing k with
  | nil => exact ⟨fun _ j hj => (by cases hj), fun _ => ⟨k, rfl⟩⟩
  | cons i l ih =>
    obtain ⟨hi, hl'⟩ := List.nodup_cons.mp hl
    rw [List.foldlM_cons]
    have hhead : (∃ k1, recoverMutex target k i = .ok k1) ↔ ∀ m, k.mutexes i = some m →
        m.ownerTaskIdx = some (ownerByte target) → ∃ w?, highestWaiter k m.waitersBitmap = .ok w? := by
      rcases recoverMutex_cases target k i with
        ⟨hno, hsame⟩ | ⟨m, hm, ho, ⟨e, hscan, herr⟩ | ⟨hscan, hok⟩ | ⟨w, hscan, hok⟩⟩
      · exact ⟨fun _ m hm ho => absurd ⟨m, hm, ho⟩ hno, fun _ => ⟨k, hsame⟩⟩
      · refine ⟨fun ⟨k1, hk1⟩ => ?_, fun hall => ?_⟩
        · rw [herr] at hk1
          cases hk1
        · obtain ⟨w?, hw?⟩ := hall m hm ho
          rw [hscan] at hw?
          cases hw?
      · exact ⟨fun _ m' hm' _ => ⟨none, by rwa [Option.some.inj (hm'.symm.trans hm)]⟩,
          fun _ => ⟨_, hok⟩⟩
      · exact ⟨fun _ m' hm' _ => ⟨some w, by rwa [Option.some.inj (hm'.symm.trans hm)]⟩,
          fun _ => ⟨_, hok⟩⟩
    cases hrec : recoverMutex target k i with
    | error e =>
      refine ⟨fun ⟨k', hk'⟩ => (by cases hk'), fun hall => ?_⟩
      obtain ⟨k1, hk1⟩ := hhead.mpr (hall i (List.mem_cons_self ..))
      rw [hrec] at hk1
      cases hk1
    | ok k1 =>
      have hone := Recovers.single hrec
      have htail := ih (k := k1) hl'
      have hsame : ∀ j ∈ l, k1.mutexes j = k.mutexes j := by
        intro j hj
        refine hone.others j (Or.inl fun h => hi ?_)
        rw [← List.mem_singleton.mp h]
        exact hj
      refine ⟨fun hok j hj m hm ho => ?_, fun hall => ?_⟩
      · rcases List.mem_cons.mp hj with rfl | hjl
        · exact hhead.mp ⟨k1, hrec⟩ m hm ho
        · obtain ⟨w?, hw?⟩ := htail.mp hok j hjl m ((hsame j hjl).trans hm) ho
          exact ⟨w?, (highestWaiter_congr hone.static _).symm.trans hw?⟩
      · refine htail.mpr fun j hjl m hm ho => ?_
        obtain ⟨w?, hw?⟩ := hall j (List.mem_cons_of_mem _ hjl) m ((hsame j hjl).symm.trans hm) ho
        exact ⟨w?, (highestWaiter_congr hone.static _).trans hw?⟩

theorem recovers_of_loop {target : Fin MAX_PARTITIONS} {k k' : Kernel} {l : List (Fin 8)}
    (hl : l.Nodup) (hok : l.foldlM (recoverMutex target) k = .ok k') : Recovers target l k k' := by
  induction l generalizing k with
  | nil =>
    obtain rfl : k = k' := Except.ok.inj hok
    exact .nil
  | cons i l ih =>
    obtain ⟨hi, hl'⟩ := List.nodup_cons.mp hl
    rw [List.foldlM_cons] at hok
    cases hrec : recoverMutex target k i with
    | error e =>
      rw [hrec] at hok
      cases hok
    | ok k1 =>
      rw [hrec] at hok
      exact (Recovers.single hrec).cons (ih hl' hok) hi

/-- The slot of `x` is the one of the waiter chosen for mutex `j` of `target`. -/
def Chosen (k : Kernel) (target : Fin MAX_PARTITIONS) (j : Fin 8) (x : TaskId) : Prop :=
  ∃ m w, k.mutexes j = some m ∧ m.ownerTaskIdx = some (ownerByte target) ∧
    highestWaiter k m.waitersBitmap = .ok (some w) ∧ waiterTask w = x

/-- Recovery changes the states of the chosen waiters only, and no budget. -/
theorem recoverLoop_others {target : Fin MAX_PARTITIONS} {k k' : Kernel} {l : List (Fin 8)}
    (hl : l.Nodup) (hok : l.foldlM (recoverMutex target) k = .ok k') :
    (∀ x, (∀ j ∈ l, ¬ Chosen k target j x) → (view k').state x = (view k).state x) ∧
      ∀ h, (k'.scheds h).remainingMifTicks = (k.scheds h).remainingMifTicks := by
  induction l generalizing k with
  | nil =>
    obtain rfl : k = k' := Except.ok.inj hok
    exact ⟨fun _ _ => rfl, fun _ => rfl⟩
  | cons i l ih =>
    obtain ⟨hi, hl'⟩ := List.nodup_cons.mp hl
    rw [List.foldlM_cons] at hok
    cases hrec : recoverMutex target k i with
    | error e =>
      rw [hrec] at hok
      cases hok
    | ok k1 =>
      rw [hrec] at hok
      have hone := Recovers.single hrec
      obtain ⟨hstate, hbudget⟩ := ih hl' hok
      have hlater : ∀ j ∈ l, ∀ x, Chosen k1 target j x → Chosen k target j x := by
        rintro j hj x ⟨m, w, hm, ho, hscan, hx⟩
        have hsame : k1.mutexes j = k.mutexes j := by
          refine hone.others j (Or.inl fun h => hi ?_)
          rw [← List.mem_singleton.mp h]
          exact hj
        exact ⟨m, w, hsame ▸ hm, ho, (highestWaiter_congr hone.static _).symm.trans hscan, hx⟩
      have hhead : (∀ x, ¬ Chosen k target i x → (view k1).state x = (view k).state x) ∧
          ∀ h, (k1.scheds h).remainingMifTicks = (k.scheds h).remainingMifTicks := by
        rcases recoverMutex_cases target k i with
          ⟨-, hsame⟩ | ⟨m, hm, ho, ⟨e, -, herr⟩ | ⟨-, hfree⟩ | ⟨w, hscan, hto⟩⟩
        · obtain rfl := Except.ok.inj (hsame.symm.trans hrec)
          exact ⟨fun _ _ => rfl, fun _ => rfl⟩
        · rw [herr] at hrec
          cases hrec
        · obtain rfl := Except.ok.inj (hfree.symm.trans hrec)
          exact ⟨fun _ _ => rfl, fun _ => rfl⟩
        · obtain rfl := Except.ok.inj (hto.symm.trans hrec)
          refine ⟨fun x hx => ?_, fun h => ?_⟩
          · rw [view_setState, View.state_setState, if_neg]
            · rfl
            · rintro rfl
              exact hx ⟨m, w, hm, ho, hscan, rfl⟩
          · show ((Function.update k.scheds (waiterHart w) _) h).remainingMifTicks = _
            by_cases hh : h = waiterHart w
            · rw [hh, Function.update_self]
              rfl
            · rw [Function.update_of_ne hh]
      refine ⟨fun x hx => ?_, fun h => (hbudget h).trans (hhead.2 h)⟩
      rw [hstate x fun j hj hc => hx j (List.mem_cons_of_mem _ hj) (hlater j hj x hc)]
      exact hhead.1 x (hx i (List.mem_cons_self ..))

section All
variable {h : Hart} {target : Fin MAX_PARTITIONS} {k k' : Kernel}

theorem recoverMutexes_ok_iff (hlock : (k.mutexLock.lock h).isSome) :
    (∃ k', recoverMutexes h target k = .ok k') ↔ Scans k target := by
  obtain ⟨l, hl⟩ := Option.isSome_iff_exists.mp hlock
  have hloop := recoverLoop_ok_iff target (k := { k with mutexLock := l }) (List.nodup_finRange 8)
  have hscans : Scans k target ↔ ∀ j ∈ List.finRange 8, ∀ m, k.mutexes j = some m →
      m.ownerTaskIdx = some (ownerByte target) → ∃ w?, highestWaiter k m.waitersBitmap = .ok w? :=
    ⟨fun hs j _ => hs j, fun hs j => hs j (List.mem_finRange j)⟩
  rw [hscans]
  refine Iff.trans ?_ hloop
  unfold recoverMutexes lockMutexes
  rw [hl]
  dsimp only
  cases (List.finRange 8).foldlM (recoverMutex target) { k with mutexLock := l } with
  | error e => exact ⟨fun ⟨k', hk'⟩ => (by cases hk'), fun ⟨k', hk'⟩ => (by cases hk')⟩
  | ok k2 => exact ⟨fun _ => ⟨k2, rfl⟩, fun _ => ⟨_, rfl⟩⟩

/-- What recovery leaves, whatever the task tables are. -/
theorem recovers_of_ok (hok : recoverMutexes h target k = .ok k') :
    Recovers target (List.finRange 8) k k' := by
  obtain ⟨l, k2, hloop, rfl⟩ := recoverMutexes_ok hok
  have hr : Recovers target (List.finRange 8) { k with mutexLock := l } k2 :=
    recovers_of_loop (List.nodup_finRange 8) hloop
  exact ⟨hr.static, hr.mem, hr.msip, hr.others, hr.state, hr.freed, hr.handed⟩

theorem others_of_ok (hok : recoverMutexes h target k = .ok k') :
    (∀ x, (∀ j, ¬ Chosen k target j x) → (view k').state x = (view k).state x) ∧
      ∀ h', (k'.scheds h').remainingMifTicks = (k.scheds h').remainingMifTicks := by
  obtain ⟨l, k2, hloop, rfl⟩ := recoverMutexes_ok hok
  obtain ⟨hstate, hbudget⟩ := recoverLoop_others (List.nodup_finRange 8) hloop
  exact ⟨fun x hx => hstate x fun j _ => hx j, hbudget⟩

end All

end Cerberus.Kernel
