import Mathlib.Algebra.BigOperators.Group.Finset.Basic
import Mathlib.Algebra.Order.BigOperators.Group.Finset
import Cerberus.Foundations.Transition
import Cerberus.Scheduler.Selection

/-! # The starvation bound

A run of one scheduler: calls of `schedule` of both kinds, each labelled with the partition it
swapped in, and changes of other tasks' states made from outside between the calls. While a ready
partition `j` waits, every swap moves the current partition strictly closer to `j` in cyclic
order, and every tick either spends budget of the current slot or swaps. The measure is the budget
of the registered partitions still ahead of `j` plus what is left of the current one. -/
namespace Cerberus.Scheduler
open CyclicScan Transition BitMapScheduler
set_option autoImplicit false

/-! ## Runs of one scheduler -/

inductive CallEvent where
  /-- `schedule(is_tick)`, with the partition it swapped in if it returned `Some` -/
  | call (isTick : Bool) (swappedIn : Option (Fin MAX_PARTITIONS))
  | outside

namespace CallEvent

def isTickCall : CallEvent → Bool
  | call isTick _ => isTick
  | outside => false

def swapIn : CallEvent → Option (Fin MAX_PARTITIONS)
  | call _ swappedIn => swappedIn
  | outside => none

end CallEvent

/-- A change of tasks other than `j` from outside the scheduler: block, wake, terminate. -/
structure OutsideChange (j : Fin MAX_PARTITIONS) (s s' : BitMapScheduler) : Prop where
  current : s'.currentPartitionIdx = s.currentPartitionIdx
  durations : s'.partitionDurations = s.partitionDurations
  remaining : s'.remainingMifTicks = s.remainingMifTicks
  registered : ∀ i, (s'.taskTable i).isSome = (s.taskTable i).isSome
  untouched : s'.taskTable j = s.taskTable j
  running : ∀ i, s'.stateAt i = some .running → i = s'.currentPartitionIdx

inductive PartitionStep (j : Fin MAX_PARTITIONS) :
    BitMapScheduler → CallEvent → BitMapScheduler → Prop where
  | call (s : BitMapScheduler) (isTick : Bool) :
      PartitionStep j s
        (.call isTick ((s.schedule isTick).2.map fun _ => (s.schedule isTick).1.currentPartitionIdx))
        (s.schedule isTick).1
  | outside {s s' : BitMapScheduler} (h : OutsideChange j s s') : PartitionStep j s .outside s'

def swapIns (es : List CallEvent) : List (Fin MAX_PARTITIONS) := es.filterMap CallEvent.swapIn

def tickCalls (es : List CallEvent) : ℕ := es.countP CallEvent.isTickCall

/-- The run up to and including the first call that swaps in `j`. -/
def upToSwapIn (j : Fin MAX_PARTITIONS) : List CallEvent → List CallEvent
  | [] => []
  | e :: es => if e.swapIn = some j then [e] else e :: upToSwapIn j es

/-- `Σ max(1, d[k])` over the registered partitions `k ≠ j`, partition 31 included. -/
def starvationBound (s : BitMapScheduler) (j : Fin MAX_PARTITIONS) : ℕ :=
  ∑ k ∈ Finset.univ.filter (fun k => (s.taskTable k).isSome ∧ k ≠ j), max 1 (s.partitionDurations k)

/-! ## The measure -/

/-- Partition `j` is ready and waits for its turn. -/
structure Waiting (s : BitMapScheduler) (j : Fin MAX_PARTITIONS) : Prop where
  registered : (s.taskTable s.currentPartitionIdx).isSome
  notIdle : j ≠ 31
  notCurrent : j ≠ s.currentPartitionIdx
  ready : s.stateAt j = some .ready
  budget : s.remainingMifTicks ≤ s.partitionDurations s.currentPartitionIdx

/-- The registered partitions strictly between the current one and `j`. -/
def ahead (s : BitMapScheduler) (j : Fin MAX_PARTITIONS) : Finset (Fin MAX_PARTITIONS) :=
  Finset.univ.filter fun k => (s.taskTable k).isSome ∧ gap k j < gap s.currentPartitionIdx j

def potential (s : BitMapScheduler) (j : Fin MAX_PARTITIONS) : ℕ :=
  (∑ k ∈ ahead s j, max 1 (s.partitionDurations k)) + max 1 s.remainingMifTicks

theorem gap_self_of_ne {c j : Fin MAX_PARTITIONS} (h : j ≠ c) : gap c j < gap j j := by
  have hc := c.isLt
  have hj := j.isLt
  have hne : j.val ≠ c.val := fun he => h (Fin.ext he)
  unfold gap
  split_ifs <;> omega

theorem potential_pos (s : BitMapScheduler) (j : Fin MAX_PARTITIONS) : 1 ≤ potential s j := by
  have : 1 ≤ max 1 s.remainingMifTicks := le_max_left _ _
  unfold potential
  omega

theorem potential_le_bound {s : BitMapScheduler} {j : Fin MAX_PARTITIONS} (h : Waiting s j) :
    potential s j ≤ starvationBound s j := by
  have hcur : s.currentPartitionIdx ∉ ahead s j := by simp [ahead]
  have hsub : insert s.currentPartitionIdx (ahead s j) ⊆
      Finset.univ.filter (fun k => (s.taskTable k).isSome ∧ k ≠ j) := by
    intro k hk
    rw [Finset.mem_filter]
    refine ⟨Finset.mem_univ k, ?_⟩
    rcases Finset.mem_insert.mp hk with rfl | hk
    · exact ⟨h.registered, h.notCurrent.symm⟩
    · obtain ⟨-, hreg, hgap⟩ := Finset.mem_filter.mp hk
      refine ⟨hreg, fun he => ?_⟩
      have := gap_self_of_ne h.notCurrent
      rw [he] at hgap
      omega
  have hrem : max 1 s.remainingMifTicks ≤ max 1 (s.partitionDurations s.currentPartitionIdx) :=
    max_le_max (le_refl 1) h.budget
  calc potential s j
      ≤ (∑ k ∈ ahead s j, max 1 (s.partitionDurations k)) +
          max 1 (s.partitionDurations s.currentPartitionIdx) := Nat.add_le_add_left hrem _
    _ = ∑ k ∈ insert s.currentPartitionIdx (ahead s j), max 1 (s.partitionDurations k) := by
        rw [Finset.sum_insert hcur, Nat.add_comm]
    _ ≤ starvationBound s j := Finset.sum_le_sum_of_subset hsub

theorem potential_swap {s s' : BitMapScheduler} {j : Fin MAX_PARTITIONS}
    (hdur : s'.partitionDurations = s.partitionDurations)
    (hreg : ∀ i, (s'.taskTable i).isSome = (s.taskTable i).isSome)
    (hrem : s'.remainingMifTicks = s.partitionDurations s'.currentPartitionIdx)
    (hin : s'.currentPartitionIdx ∈ ahead s j) :
    potential s' j + max 1 s.remainingMifTicks ≤ potential s j := by
  have hgap : gap s'.currentPartitionIdx j < gap s.currentPartitionIdx j :=
    (Finset.mem_filter.mp hin).2.2
  have hcur : s'.currentPartitionIdx ∉ ahead s' j := by simp [ahead]
  have hsub : insert s'.currentPartitionIdx (ahead s' j) ⊆ ahead s j := by
    intro k hk
    rcases Finset.mem_insert.mp hk with rfl | hk
    · exact hin
    · obtain ⟨-, hk1, hk2⟩ := Finset.mem_filter.mp hk
      rw [ahead, Finset.mem_filter]
      exact ⟨Finset.mem_univ k, hreg k ▸ hk1, hk2.trans hgap⟩
  have hsum : potential s' j ≤ ∑ k ∈ ahead s j, max 1 (s.partitionDurations k) := by
    calc potential s' j
        = ∑ k ∈ insert s'.currentPartitionIdx (ahead s' j), max 1 (s.partitionDurations k) := by
          rw [Finset.sum_insert hcur, potential, hdur, hrem, Nat.add_comm]
      _ ≤ ∑ k ∈ ahead s j, max 1 (s.partitionDurations k) := Finset.sum_le_sum_of_subset hsub
  exact Nat.add_le_add_right hsum _

/-! ## One step while `j` waits -/

/-- What one step that does not swap in `j` leaves: `j` still waits, the measure pays for a tick,
and a swap went to a partition closer to `j`. -/
structure Progress (j : Fin MAX_PARTITIONS) (s : BitMapScheduler) (e : CallEvent)
    (s' : BitMapScheduler) : Prop where
  waiting : Waiting s' j
  measure : potential s' j + (if e.isTickCall then 1 else 0) ≤ potential s j
  stays : e.swapIn = none → s'.currentPartitionIdx = s.currentPartitionIdx
  swaps : ∀ n, e.swapIn = some n →
    s'.currentPartitionIdx = n ∧ gap n j < gap s.currentPartitionIdx j

theorem outside_progress {j : Fin MAX_PARTITIONS} {s s' : BitMapScheduler} (hw : Waiting s j)
    (h : OutsideChange j s s') : Progress j s .outside s' where
  waiting := by
    refine ⟨?_, hw.notIdle, ?_, ?_, ?_⟩
    · rw [h.current, h.registered]
      exact hw.registered
    · rw [h.current]
      exact hw.notCurrent
    · rw [stateAt, h.untouched]
      exact hw.ready
    · rw [h.remaining, h.current, h.durations]
      exact hw.budget
  measure := by
    have hahead : ahead s' j = ahead s j := by simp [ahead, h.registered, h.current]
    simp [potential, hahead, h.durations, h.remaining, CallEvent.isTickCall]
  stays := fun _ => h.current
  swaps := fun n hn => by simp [CallEvent.swapIn] at hn

theorem stay_progress {j : Fin MAX_PARTITIONS} {s : BitMapScheduler} {isTick : Bool} {r : ℕ}
    (hw : Waiting s j) (hnt : ¬ s.Triggers isTick) (hr : r = (s.spendTick isTick).remainingMifTicks) :
    Progress j s (.call isTick none) { s with remainingMifTicks := r } where
  waiting := by
    refine ⟨hw.registered, hw.notIdle, hw.notCurrent, hw.ready, ?_⟩
    have := hw.budget
    rw [hr, spendTick_remainingMifTicks]
    exact le_trans (Nat.sub_le _ _) this
  measure := by
    have htick : isTick = true := by
      cases isTick
      · exact absurd (Or.inr (Or.inl rfl)) hnt
      · rfl
    have hpos : r ≠ 0 := fun h0 => hnt (Or.inl (hr ▸ h0))
    rw [htick, spendTick_remainingMifTicks] at hr
    simp only [if_true] at hr
    have hahead : ahead { s with remainingMifTicks := r } j = ahead s j := rfl
    simp only [potential, hahead, htick, CallEvent.isTickCall, if_true]
    omega
  stays := fun _ => rfl
  swaps := fun n hn => by simp [CallEvent.swapIn] at hn

theorem selectNext_mem_ahead {j n : Fin MAX_PARTITIONS} {s : BitMapScheduler} (hw : Waiting s j)
    (hn : s.selectNext = some n) (hnj : n ≠ j) : n ∈ ahead s j := by
  have hreg : (s.taskTable n).isSome := by
    rw [← stateAt_isSome, stateAt_of_selectNext hn]
    rfl
  rw [selectNext_of_ready hw.notIdle hw.ready] at hn
  rw [ahead, Finset.mem_filter]
  exact ⟨Finset.mem_univ n, hreg,
    next_gap_lt ((readyNotIdle_iff s j).mpr ⟨hw.notIdle, hw.ready⟩) hn hnj⟩

theorem swap_progress {j n : Fin MAX_PARTITIONS} {s : BitMapScheduler} {isTick : Bool}
    (hw : Waiting s j) (hn : s.selectNext = some n) (hnj : n ≠ j) :
    Progress j s (.call isTick (some n)) ((s.spendTick isTick).swapTo n) where
  waiting := by
    have hin := (Finset.mem_filter.mp (selectNext_mem_ahead hw hn hnj)).2
    refine ⟨?_, hw.notIdle, ?_, ?_, ?_⟩
    · rw [swapTo_currentPartitionIdx, swapTo_isSome, spendTick_taskTable]
      exact hin.1
    · rw [swapTo_currentPartitionIdx]
      exact hnj.symm
    · have hjc : ¬ (j = (s.spendTick isTick).currentPartitionIdx ∧
          (s.spendTick isTick).stateAt j = some .running) := by
        rintro ⟨he, -⟩
        rw [spendTick_currentPartitionIdx] at he
        exact hw.notCurrent he
      rw [stateAt_swapTo, if_neg hnj.symm, if_neg hjc, stateAt_spendTick]
      exact hw.ready
    · simp
  measure := by
    have hin := selectNext_mem_ahead hw hn hnj
    have h : potential ((s.spendTick isTick).swapTo n) j + max 1 s.remainingMifTicks ≤
        potential s j :=
      potential_swap (by simp) (by simp) (by simp) (by simpa using hin)
    have h1 : 1 ≤ max 1 s.remainingMifTicks := le_max_left _ _
    have h2 : (if (CallEvent.call isTick (some n)).isTickCall then 1 else 0) ≤ 1 := by
      split <;> omega
    omega
  stays := fun h => by simp [CallEvent.swapIn] at h
  swaps := by
    intro m hm
    have hmn : n = m := by simpa [CallEvent.swapIn] using hm
    subst hmn
    exact ⟨swapTo_currentPartitionIdx _ _,
      (Finset.mem_filter.mp (selectNext_mem_ahead hw hn hnj)).2.2⟩

theorem step_progress {j : Fin MAX_PARTITIONS} {s s' : BitMapScheduler} {e : CallEvent}
    (hw : Waiting s j) (h : PartitionStep j s e s') (he : e.swapIn ≠ some j) :
    Progress j s e s' := by
  cases h with
  | outside h => exact outside_progress hw h
  | call isTick =>
    obtain ⟨r, hs, ⟨hnt, hr⟩ | ⟨-, hnone⟩⟩ | ⟨n, tcb, -, hn, -, hs⟩ :=
      schedule_cases (b := isTick) hw.registered
    · rw [hs]
      exact stay_progress hw hnt hr
    · exact absurd hw.ready (selectNext_eq_none_iff.mp hnone j)
    · rw [hs] at he ⊢
      simp only [CallEvent.swapIn, Option.map_some, swapTo_currentPartitionIdx, ne_eq,
        Option.some.injEq] at he ⊢
      exact swap_progress hw hn he

/-! ## Whole runs -/

theorem swapIns_cons (e : CallEvent) (es : List CallEvent) :
    swapIns (e :: es) = e.swapIn.toList ++ swapIns es := by
  cases h : e.swapIn <;> simp [swapIns, h]

theorem tickCalls_cons (e : CallEvent) (es : List CallEvent) :
    tickCalls (e :: es) = tickCalls es + if e.isTickCall then 1 else 0 := by
  simp [tickCalls, List.countP_cons]

/-- The run lemma: as long as `j` is not swapped in it waits, the measure pays for all ticks, and
the partitions swapped in come strictly closer to `j`. -/
theorem run_progress {j : Fin MAX_PARTITIONS} {s s' : BitMapScheduler} {es : List CallEvent}
    (hw : Waiting s j) (h : Run (PartitionStep j) s es s') (hj : j ∉ swapIns es) :
    Waiting s' j ∧ potential s' j + tickCalls es ≤ potential s j ∧
      (swapIns es).Pairwise (fun a b => gap b j < gap a j) ∧
      ∀ n ∈ swapIns es, gap n j < gap s.currentPartitionIdx j := by
  induction es generalizing s with
  | nil =>
    have hss : s = s' := h
    subst hss
    simp [hw, tickCalls, swapIns]
  | cons e es ih =>
    obtain ⟨u, hstep, hrest⟩ := h
    rw [swapIns_cons, List.mem_append, not_or] at hj
    have he : e.swapIn ≠ some j := fun h => hj.1 (by simp [h])
    have hp := step_progress hw hstep he
    obtain ⟨hw', hpot, hpair, hclose⟩ := ih hp.waiting hrest hj.2
    have hm := hp.measure
    refine ⟨hw', ?_, ?_, ?_⟩
    · rw [tickCalls_cons]
      omega
    · rw [swapIns_cons]
      cases hs : e.swapIn with
      | none => simpa using hpair
      | some n =>
        have hcur := (hp.swaps n hs).1
        rw [hcur] at hclose
        simpa using ⟨hclose, hpair⟩
    · intro n hn
      rw [swapIns_cons, List.mem_append] at hn
      cases hs : e.swapIn with
      | none =>
        rw [hp.stays hs] at hclose
        exact hclose n (by simpa [hs] using hn)
      | some m =>
        obtain ⟨hcur, hgap⟩ := hp.swaps m hs
        rcases hn with hn | hn
        · have hnm : n = m := by simpa [hs] using hn
          exact hnm ▸ hgap
        · have := hclose n hn
          rw [hcur] at this
          omega

theorem nodup_of_closer {j : Fin MAX_PARTITIONS} {l : List (Fin MAX_PARTITIONS)}
    (h : l.Pairwise (fun a b => gap b j < gap a j)) : l.Nodup :=
  h.imp fun hlt he => by
    rw [he] at hlt
    omega

theorem upToSwapIn_cases (j : Fin MAX_PARTITIONS) (es : List CallEvent) :
    (j ∉ swapIns es ∧ upToSwapIn j es = es) ∨
    (j ∈ swapIns es ∧ ∃ pre e post, es = pre ++ e :: post ∧ e.swapIn = some j ∧ j ∉ swapIns pre ∧
      upToSwapIn j es = pre ++ [e]) := by
  induction es with
  | nil => exact Or.inl ⟨by simp [swapIns], rfl⟩
  | cons e es ih =>
    by_cases he : e.swapIn = some j
    · refine Or.inr ⟨by simp [swapIns_cons, he], [], e, es, rfl, he, by simp [swapIns], ?_⟩
      simp [upToSwapIn, he]
    · have hj : j ∉ e.swapIn.toList := by simpa using he
      rcases ih with ⟨hes, hup⟩ | ⟨hes, pre, e', post, hsplit, he', hpre, hup⟩
      · refine Or.inl ⟨?_, by simp [upToSwapIn, he, hup]⟩
        rw [swapIns_cons, List.mem_append]
        exact fun h => h.elim hj hes
      · refine Or.inr ⟨by simp [swapIns_cons, hes], e :: pre, e', post, by simp [hsplit], he', ?_, ?_⟩
        · rw [swapIns_cons, List.mem_append]
          exact fun h => h.elim hj hpre
        · simp [upToSwapIn, he, hup]

/-- Starvation bound: before `j` is swapped in no partition is swapped in twice, and `j` becomes
current within `starvationBound` calls with `is_tick = true`. -/
theorem starvation_bound (s s' : BitMapScheduler) (es : List CallEvent) (j : Fin MAX_PARTITIONS)
    (hrun : Run (PartitionStep j) s es s')
    (hreg : (s.taskTable s.currentPartitionIdx).isSome)
    (hidle : j ≠ 31) (hcur : j ≠ s.currentPartitionIdx) (hready : s.stateAt j = some .ready)
    (hbudget : s.remainingMifTicks ≤ s.partitionDurations s.currentPartitionIdx) :
    (swapIns (upToSwapIn j es)).Nodup ∧
    tickCalls (upToSwapIn j es) ≤ starvationBound s j ∧
    (starvationBound s j ≤ tickCalls es → j ∈ swapIns es) := by
  have hw : Waiting s j := ⟨hreg, hidle, hcur, hready, hbudget⟩
  have hle := potential_le_bound hw
  rcases upToSwapIn_cases j es with ⟨hj, hup⟩ | ⟨hj, pre, e, post, hsplit, he, hpre, hup⟩
  · obtain ⟨-, hpot, hpair, -⟩ := run_progress hw hrun hj
    have hpos := potential_pos s' j
    rw [hup]
    exact ⟨nodup_of_closer hpair, by omega, fun h => by omega⟩
  · rw [hsplit] at hrun
    obtain ⟨u, hrun1, -⟩ := hrun.split
    obtain ⟨-, hpot, hpair, -⟩ := run_progress hw hrun1 hpre
    have hpos := potential_pos u j
    rw [hup]
    refine ⟨?_, ?_, fun _ => hj⟩
    · have hsnoc : swapIns (pre ++ [e]) = swapIns pre ++ [j] := by simp [swapIns, he]
      rw [hsnoc]
      exact (nodup_of_closer hpair).append (List.nodup_singleton j) (by simpa using hpre)
    · have hcount : tickCalls (pre ++ [e]) ≤ tickCalls pre + 1 := by
        simp only [tickCalls, List.countP_append, List.countP_cons, List.countP_nil]
        split <;> omega
      omega

/-- The scheduler of the slice-expiry unit test: partition 0 runs on its last tick, 1 is ready. -/
def sliceExpiring : BitMapScheduler where
  taskTable := fun i =>
    if i = 0 then some ⟨0, 0, 0, .running, "test", fun _ => .none⟩
    else if i = 1 then some ⟨0, 1, 1, .ready, "test", fun _ => .none⟩ else none
  currentPartitionIdx := 0
  partitionDurations := fun _ => 100
  remainingMifTicks := 1

theorem starvation_bound_slice_expiring :
    tickCalls (upToSwapIn 1 [.call true (some 1)]) = 1 ∧
    (swapIns (upToSwapIn 1 [.call true (some 1)])).Nodup ∧
    tickCalls (upToSwapIn 1 [.call true (some 1)]) ≤ starvationBound sliceExpiring 1 ∧
    (starvationBound sliceExpiring 1 ≤ tickCalls [.call true (some 1)] →
      1 ∈ swapIns [.call true (some 1)]) :=
  ⟨rfl, starvation_bound sliceExpiring _ [.call true (some 1)] 1
    (Run.single (PartitionStep.call sliceExpiring true)) rfl (by decide) (by decide) rfl
    (by decide)⟩

end Cerberus.Scheduler
