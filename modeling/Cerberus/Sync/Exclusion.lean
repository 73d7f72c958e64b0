import Cerberus.Foundations.Transition
import Cerberus.Sync.Spinlock

/-! # Mutual exclusion of the spinlock under preemption

Each hart has U-mode code that takes the lock (the Watchdog on hart 0) and a trap handler that
interrupts it at any instruction boundary and takes the lock itself. The handler's re-entry relies
on `owner` and `depth` agreeing; they do not in two windows of the U-mode code: after the
compare-exchange of `lock` and before its write of `depth`, and after the decrement of `depth` to
zero and before the store of `owner` in `unlock`. Outside these windows exclusion holds. -/
namespace Cerberus.Sync
open Transition
set_option autoImplicit false

/-- The lock, the U-mode code of each hart and its trap handler while one is active. -/
structure LockSystem where
  lock : Spinlock
  user : Hart → Pc
  trap : Hart → Option Pc

namespace LockSystem

def init : LockSystem := ⟨Spinlock.new, fun _ => .out, fun _ => none⟩

end LockSystem

/-- One step of the U-mode code, a trap being taken, one step of the handler, or a spurious failure
of a `compare_exchange_weak`. -/
inductive LockEvent where
  | user (h : Hart)
  | enter (h : Hart)
  | trap (h : Hart)
  | spurious

def LockSystem.next (s : LockSystem) : LockEvent → Option LockSystem
  | .user h =>
    match s.trap h with
    | some _ => none
    | none => some { s with
        lock := (advance h (s.user h) s.lock).2
        user := Function.update s.user h (advance h (s.user h) s.lock).1 }
  | .enter h =>
    match s.trap h with
    | some _ => none
    | none => some { s with trap := Function.update s.trap h (some .loadOwner) }
  | .trap h =>
    match s.trap h with
    | none => none
    | some pc => some { s with
        lock := (advance h pc s.lock).2
        trap := Function.update s.trap h
          (if (advance h pc s.lock).1 = .out then none else some (advance h pc s.lock).1) }
  | .spurious => some s

def LockStep (s : LockSystem) (e : LockEvent) (t : LockSystem) : Prop := s.next e = some t

/-- Hart `h` is between a completed `lock` and the start of its matching `unlock`. -/
def Holding (s : LockSystem) (h : Hart) : Prop := s.user h = .inside ∨ s.trap h = some .inside

def Exclusive (s : LockSystem) : Prop := ∀ h h', Holding s h → Holding s h' → h = h'

/-- No trap is taken on a hart whose U-mode code is between the compare-exchange and the write of
`depth`, or between the decrement of `depth` to zero and the store of `owner`. -/
def TrapOutsideWindows (s : LockSystem) (e : LockEvent) : Prop :=
  ∀ h, e = .enter h → s.user h ≠ .writeDepth ∧ s.user h ≠ .storeOwner

/-! ## The invariant of one hart -/

def Pc.Before (pc : Pc) : Prop := pc = .out ∨ pc = .loadOwner ∨ pc = .compareExchange

def Pc.Held (pc : Pc) : Prop := pc = .inside ∨ pc = .decDepth

/-- How `owner` and `depth` relate to where hart `h` stands: its U-mode code at `u` and its trap
handler at `t`. Either neither level has the lock, or one of them took it, or the handler re-entered
a lock that the U-mode code holds. -/
inductive HartOk (h : Hart) : Pc → Option Pc → Spinlock → Prop where
  | away {u : Pc} {l : Spinlock} (hu : u.Before) (ho : l.owner ≠ some h) : HartOk h u none l
  | awayTrap {u t : Pc} {l : Spinlock} (hu : u.Before) (ht : t.Before) (hne : t ≠ .out)
      (ho : l.owner ≠ some h) : HartOk h u (some t) l
  | trapTook {u t : Pc} {l : Spinlock} (hu : u.Before) (ho : l.owner = some h)
      (ht : t = .writeDepth ∨ (t.Held ∧ l.depth = 1#32) ∨ (t = .storeOwner ∧ l.depth = 0#32)) :
      HartOk h u (some t) l
  | userTook {u : Pc} {l : Spinlock} (ho : l.owner = some h)
      (hu : u = .writeDepth ∨ (u.Held ∧ l.depth = 1#32) ∨ (u = .storeOwner ∧ l.depth = 0#32)) :
      HartOk h u none l
  | reentered {u t : Pc} {l : Spinlock} (ho : l.owner = some h) (hu : u.Held)
      (ht : ((t = .loadOwner ∨ t = .incDepth) ∧ l.depth = 1#32) ∨ (t.Held ∧ l.depth = 2#32)) :
      HartOk h u (some t) l

theorem HartOk.owner_of_inside {h : Hart} {u : Pc} {t : Option Pc} {l : Spinlock}
    (hok : HartOk h u t l) (hin : u = .inside ∨ t = some .inside) : l.owner = some h := by
  cases hok with
  | away hu _ => rcases hin with rfl | hin <;> simp_all [Pc.Before]
  | awayTrap hu ht _ _ => rcases hin with rfl | hin <;> simp_all [Pc.Before]
  | trapTook _ ho _ => exact ho
  | userTook ho _ => exact ho
  | reentered ho _ _ => exact ho

theorem HartOk.of_not_owner {h : Hart} {u : Pc} {t : Option Pc} {l l' : Spinlock}
    (hok : HartOk h u t l) (ho : l.owner ≠ some h) (ho' : l'.owner ≠ some h) :
    HartOk h u t l' := by
  cases hok with
  | away hu _ => exact .away hu ho'
  | awayTrap hu ht hne _ => exact .awayTrap hu ht hne ho'
  | trapTook _ h1 _ => exact absurd h1 ho
  | userTook h1 _ => exact absurd h1 ho
  | reentered h1 _ _ => exact absurd h1 ho

/-! ## Steps of one hart -/

theorem HartOk.user_step {h : Hart} {u : Pc} {l : Spinlock} (hok : HartOk h u none l) :
    HartOk h (advance h u l).1 none (advance h u l).2 := by
  cases hok with
  | away hu ho =>
    rcases hu with rfl | rfl | rfl
    · exact .away (Or.inr (Or.inl rfl)) ho
    · simp only [advance, if_neg ho]
      exact .away (Or.inr (Or.inr rfl)) ho
    · simp only [advance]
      split
      · exact .userTook rfl (Or.inl rfl)
      · exact .away (Or.inr (Or.inr rfl)) ho
  | userTook ho hu =>
    rcases hu with rfl | ⟨rfl | rfl, hd⟩ | ⟨rfl, hd⟩
    · exact .userTook ho (Or.inr (Or.inl ⟨Or.inl rfl, rfl⟩))
    · exact .userTook ho (Or.inr (Or.inl ⟨Or.inr rfl, hd⟩))
    · have h0 : l.depth - 1#32 = 0#32 := by simp [hd]
      simp only [advance, h0, if_true]
      exact .userTook ho (Or.inr (Or.inr ⟨rfl, rfl⟩))
    · exact .away (Or.inl rfl) (by simp [advance])

theorem HartOk.trap_step {h : Hart} {u t : Pc} {l : Spinlock} (hok : HartOk h u (some t) l) :
    HartOk h u (if (advance h t l).1 = .out then none else some (advance h t l).1)
      (advance h t l).2 := by
  cases hok with
  | awayTrap hu ht hne ho =>
    rcases ht with rfl | rfl | rfl
    · exact absurd rfl hne
    · simp only [advance, if_neg ho]
      exact .awayTrap hu (Or.inr (Or.inr rfl)) (by simp) ho
    · simp only [advance]
      split
      · exact .trapTook hu rfl (Or.inl rfl)
      · exact .awayTrap hu (Or.inr (Or.inr rfl)) (by simp) ho
  | trapTook hu ho ht =>
    rcases ht with rfl | ⟨rfl | rfl, hd⟩ | ⟨rfl, hd⟩
    · exact .trapTook hu ho (Or.inr (Or.inl ⟨Or.inl rfl, rfl⟩))
    · exact .trapTook hu ho (Or.inr (Or.inl ⟨Or.inr rfl, hd⟩))
    · have h0 : l.depth - 1#32 = 0#32 := by simp [hd]
      simp only [advance, h0, if_true]
      exact .trapTook hu ho (Or.inr (Or.inr ⟨rfl, rfl⟩))
    · exact .away hu (by simp [advance])
  | reentered ho hu ht =>
    rcases ht with ⟨rfl | rfl, hd⟩ | ⟨rfl | rfl, hd⟩
    · simp only [advance, if_pos ho]
      exact .reentered ho hu (Or.inl ⟨Or.inr rfl, hd⟩)
    · have h2 : l.depth + 1#32 = 2#32 := by simp [hd]
      simp only [advance, h2]
      exact .reentered ho hu (Or.inr ⟨Or.inl rfl, rfl⟩)
    · exact .reentered ho hu (Or.inr ⟨Or.inr rfl, hd⟩)
    · have h1 : l.depth - 1#32 = 1#32 := by simp [hd]
      simp only [advance, h1]
      exact .userTook ho (Or.inr (Or.inl ⟨hu, rfl⟩))

/-- Taking a trap outside the windows: the re-entry is counted correctly. -/
theorem HartOk.enter {h : Hart} {u : Pc} {l : Spinlock} (hok : HartOk h u none l)
    (hw : u ≠ .writeDepth ∧ u ≠ .storeOwner) : HartOk h u (some .loadOwner) l := by
  cases hok with
  | away hu ho => exact .awayTrap hu (Or.inr (Or.inl rfl)) (by decide) ho
  | userTook ho hu =>
    rcases hu with rfl | ⟨hu, hd⟩ | ⟨rfl, -⟩
    · exact absurd rfl hw.1
    · exact .reentered ho hu (Or.inl ⟨Or.inl rfl, hd⟩)
    · exact absurd rfl hw.2

/-! ## Steps seen from the other hart -/

theorem advance_owner {h h' : Hart} (pc : Pc) {l : Spinlock} (hne : h' ≠ h)
    (ho : l.owner ≠ some h') : (advance h pc l).2.owner ≠ some h' := by
  have hsome : (some h : Option Hart) ≠ some h' := fun he => hne (Option.some.inj he).symm
  cases pc <;> simp only [advance] <;> first | exact ho | skip
  · split <;> exact ho
  · split
    · exact hsome
    · exact ho
  · simp

theorem advance_before {h h' : Hart} {pc : Pc} {l : Spinlock} (hb : pc.Before)
    (ho : l.owner = some h') : (advance h pc l).2 = l := by
  rcases hb with rfl | rfl | rfl
  · rfl
  · simp only [advance]
    split <;> rfl
  · simp [advance, ho]

theorem HartOk.before_of_not_owner {h : Hart} {u : Pc} {t : Option Pc} {l : Spinlock}
    (hok : HartOk h u t l) (ho : l.owner ≠ some h) : (t.getD u).Before := by
  cases hok with
  | away hu _ => exact hu
  | awayTrap _ ht _ _ => exact ht
  | trapTook _ h1 _ => exact absurd h1 ho
  | userTook h1 _ => exact absurd h1 ho
  | reentered h1 _ _ => exact absurd h1 ho

theorem HartOk.other {h h' : Hart} {u u' : Pc} {t t' : Option Pc} {l : Spinlock} (hne : h' ≠ h)
    (hok : HartOk h u t l) (hok' : HartOk h' u' t' l) :
    HartOk h' u' t' (advance h (t.getD u) l).2 := by
  by_cases ho : l.owner = some h'
  · have hnot : l.owner ≠ some h := by
      rw [ho]
      exact fun he => hne (Option.some.inj he)
    rw [advance_before (hok.before_of_not_owner hnot) ho]
    exact hok'
  · exact hok'.of_not_owner ho (advance_owner _ hne ho)

/-! ## Whole runs -/

def LockInv (s : LockSystem) : Prop := ∀ h, HartOk h (s.user h) (s.trap h) s.lock

theorem lockInv_init : LockInv LockSystem.init := fun _ =>
  .away (Or.inl rfl) (by simp [LockSystem.init, Spinlock.new])

theorem lockInv_step (s : LockSystem) (e : LockEvent) (t : LockSystem) (hinv : LockInv s)
    (hstep : Guarded LockStep TrapOutsideWindows s e t) : LockInv t := by
  obtain ⟨hnext, hguard⟩ := hstep
  unfold LockStep LockSystem.next at hnext
  intro h'
  have hok' := hinv h'
  cases e with
  | user h =>
    have hok := hinv h
    cases htrap : s.trap h with
    | some pc => simp [htrap] at hnext
    | none =>
      simp only [htrap, Option.some.injEq] at hnext
      subst hnext
      rw [htrap] at hok
      by_cases hh : h' = h
      · subst hh
        simp only [Function.update_self, htrap]
        exact hok.user_step
      · simp only [Function.update_of_ne hh]
        exact hok.other hh hok'
  | enter h =>
    cases htrap : s.trap h with
    | some pc => simp [htrap] at hnext
    | none =>
      simp only [htrap, Option.some.injEq] at hnext
      subst hnext
      by_cases hh : h' = h
      · subst hh
        rw [htrap] at hok'
        simp only [Function.update_self]
        exact hok'.enter (hguard h' rfl)
      · simp only [Function.update_of_ne hh]
        exact hok'
  | trap h =>
    have hok := hinv h
    cases htrap : s.trap h with
    | none => simp [htrap] at hnext
    | some pc =>
      simp only [htrap, Option.some.injEq] at hnext
      subst hnext
      rw [htrap] at hok
      by_cases hh : h' = h
      · subst hh
        simp only [Function.update_self]
        exact hok.trap_step
      · simp only [Function.update_of_ne hh]
        exact hok.other hh hok'
  | spurious =>
    simp only [Option.some.injEq] at hnext
    subst hnext
    exact hok'

/-- In every run in which no trap falls into one of the two windows, exclusion holds in every
state reached. -/
theorem spinlock_exclusion (es : List LockEvent) (s : LockSystem)
    (hrun : Run (Guarded LockStep TrapOutsideWindows) LockSystem.init es s) : Exclusive s := by
  have hinv : LockInv s := hrun.invariant lockInv_step lockInv_init
  intro h h' hin hin'
  have ho := (hinv h).owner_of_inside hin
  have ho' := (hinv h').owner_of_inside hin'
  rw [ho] at ho'
  exact Option.some.inj ho'

def reentryRun : List LockEvent :=
  [.user 0, .user 0, .user 0, .user 0, .enter 0, .trap 0, .trap 0, .trap 0, .trap 0]

theorem spinlock_exclusion_reentry :
    ∃ s, Run (Guarded LockStep TrapOutsideWindows) LockSystem.init reentryRun s ∧
      Holding s 0 ∧ Exclusive s := by
  have hrun : Run (Guarded LockStep TrapOutsideWindows) LockSystem.init reentryRun
      ((reentryRun.foldlM LockSystem.next LockSystem.init).get rfl) := by
    refine ⟨_, ⟨rfl, ?_⟩, _, ⟨rfl, ?_⟩, _, ⟨rfl, ?_⟩, _, ⟨rfl, ?_⟩, _, ⟨rfl, ?_⟩, _, ⟨rfl, ?_⟩,
      _, ⟨rfl, ?_⟩, _, ⟨rfl, ?_⟩, _, ⟨rfl, ?_⟩, rfl⟩ <;> intro h he <;> cases he
    exact ⟨by decide, by decide⟩
  exact ⟨_, hrun, Or.inl rfl, spinlock_exclusion _ _ hrun⟩

/-- The trap falls between the compare-exchange and the write of `depth`: the handler releases the
Watchdog's lock, and the trap handler of hart 1 takes it. -/
def windowOfLock : List LockEvent :=
  [.user 0, .user 0, .user 0, .enter 0, .trap 0, .trap 0, .trap 0, .trap 0, .trap 0, .user 0,
    .enter 1, .trap 1, .trap 1, .trap 1]

/-- The trap falls between the decrement of `depth` and the store of `owner`: the handler releases
the lock, hart 1 takes it, and the Watchdog's late store frees it again. -/
def windowOfUnlock : List LockEvent :=
  [.user 0, .user 0, .user 0, .user 0, .user 0, .user 0, .enter 0, .trap 0, .trap 0, .trap 0,
    .trap 0, .trap 0, .enter 1, .trap 1, .trap 1, .trap 1, .user 0, .user 0, .user 0, .user 0,
    .user 0]

/-- Both windows let two harts hold the lock. -/
theorem spinlock_exclusion_fails :
    (∃ s, Run LockStep LockSystem.init windowOfLock s ∧ Holding s 0 ∧ Holding s 1) ∧
    (∃ s, Run LockStep LockSystem.init windowOfUnlock s ∧ Holding s 0 ∧ Holding s 1) ∧
    ¬ ∀ es s, Run LockStep LockSystem.init es s → Exclusive s := by
  have h1 : ∃ s, Run LockStep LockSystem.init windowOfLock s ∧ Holding s 0 ∧ Holding s 1 :=
    ⟨(windowOfLock.foldlM LockSystem.next LockSystem.init).get rfl, Run.of_foldlM rfl,
      Or.inl rfl, Or.inr rfl⟩
  have h2 : ∃ s, Run LockStep LockSystem.init windowOfUnlock s ∧ Holding s 0 ∧ Holding s 1 :=
    ⟨(windowOfUnlock.foldlM LockSystem.next LockSystem.init).get rfl, Run.of_foldlM rfl,
      Or.inl rfl, Or.inr rfl⟩
  refine ⟨h1, h2, fun hall => ?_⟩
  obtain ⟨s, hrun, hin0, hin1⟩ := h1
  exact absurd (hall _ s hrun 0 1 hin0 hin1) (by decide)

end Cerberus.Sync
