import Cerberus.Kernel.Reachable

/-! # Traps that stop a core

A trap handler ends in a panic for two reasons only: a cause without an arm, and an unlock by a task
that is not the owner. Both are in the hands of U-mode code. -/
namespace Cerberus.Containment
open Kernel Scheduler Sync Memory Transition
set_option autoImplicit false

def Completes (P : Platform) (h : Hart) (t : Trap) (k : Kernel) : Prop :=
  ∃ r, trapHandler P h t k = .ok r

def Panics : Outcome → Prop
  | .error .unwrapNone | .error .indexOutOfBounds | .error .ownerAssertion
  | .error .unhandledException => True
  | _ => False

instance (o : Outcome) : Decidable (Panics o) := by
  unfold Panics
  split <;> infer_instance

/-- The causes U-mode code raises without address translation: the exceptions and `ecall`. -/
def UserCause (cause : Word) : Prop := cause.toNat ≤ 8

instance (cause : Word) : Decidable (UserCause cause) := by
  unfold UserCause
  infer_instance

/-- An unlock syscall on a mutex comes from its owner. -/
def UnlockOwned (k : Kernel) (h : Hart) (t : Trap) : Prop :=
  t.mcause = ECALL_UMODE → (k.readFrame t.userSp 13).toNat = 4 → ∀ i m,
    grantedMutex k h (k.readFrame t.userSp 6) unlockRight = .ok (some (i, m)) →
      m.ownerTaskIdx = some (ownerByte (k.current h))

/-- The trap needs no lock, or `SCHED_LOCK` is not with the other hart. -/
def LockAvailable (k : Kernel) (h : Hart) (t : Trap) : Prop :=
  TakesLock k t → k.schedLock.owner = none ∨ k.schedLock.owner = some h

theorem lock_isSome_iff (l : Spinlock) (h : Hart) :
    (∃ l', l.lock h = some l') ↔ l.owner = none ∨ l.owner = some h := by
  unfold Spinlock.lock
  by_cases hh : l.owner = some h
  · simp [hh]
  · by_cases hn : l.owner = none
    · simp [hn]
    · simp [hh, hn]

/-! ## Unlock effects -/

theorem lockEffect_ne_release (k : Kernel) (h : Hart) (capIdx : Word) (i : Fin 8) :
    lockEffect k h capIdx ≠ .release i := by
  unfold lockEffect
  split
  · split <;> exact Effect.noConfusion
  · exact Effect.noConfusion

theorem ipcEffect_ne_release {α : Type} (k : Kernel) (h : Hart) (capIdx : Word)
    (right : Capability → Option Byte) (want : Byte → TaskState → Option α)
    (st : Byte → TaskState) (i : Fin 8) : ipcEffect k h capIdx right want st ≠ .release i := by
  unfold ipcEffect
  split
  · split <;> exact Effect.noConfusion
  · exact Effect.noConfusion

theorem unlockEffect_eq_release {k : Kernel} {h : Hart} {capIdx : Word} {i : Fin 8} :
    unlockEffect k h capIdx = .release i ↔
      ∃ m, grantedMutex k h capIdx unlockRight = .ok (some (i, m)) := by
  unfold unlockEffect
  constructor
  · intro he
    split at he
    · rename_i j m hg
      obtain rfl : j = i := by simpa using he
      exact ⟨m, hg⟩
    · cases he
  · rintro ⟨m, hg⟩
    rw [hg]

theorem effect_eq_release {k : Kernel} {h : Hart} {t : Trap} {i : Fin 8} :
    effect k h t = .release i ↔ t.mcause = ECALL_UMODE ∧ (k.readFrame t.userSp 13).toNat = 4 ∧
      ∃ m, grantedMutex k h (k.readFrame t.userSp 6) unlockRight = .ok (some (i, m)) := by
  constructor
  · intro he
    unfold effect at he
    split at he
    · cases he
    split at he
    · cases he
    split at he
    · rename_i hecall
      refine ⟨hecall, ?_⟩
      unfold ecallEffect at he
      dsimp only at he
      split at he
      · cases he
      · cases he
      · exact absurd he (lockEffect_ne_release k h _ i)
      · rename_i hid
        exact ⟨hid, unlockEffect_eq_release.mp he⟩
      · exact absurd he (ipcEffect_ne_release k h _ _ _ _ i)
      · exact absurd he (ipcEffect_ne_release k h _ _ _ _ i)
      · split at he <;> cases he
      · cases he
    split at he
    · cases he
    · cases he
  · rintro ⟨hecall, hid, hg⟩
    rw [effect, if_neg (by rw [hecall]; decide), if_neg (by rw [hecall]; decide), if_pos hecall,
      ecallEffect]
    simp only [hid]
    exact unlockEffect_eq_release.mpr hg

theorem unlockOwned_iff {k : Kernel} (hk : Sound k) {h : Hart} {t : Trap} :
    UnlockOwned k h t ↔ ∀ i, effect k h t = .release i → (view k).Owns (k.current h) i := by
  obtain ⟨r, hr, hm⟩ := grantedMutex_eq hk h (k.readFrame t.userSp 6) (Or.inr rfl)
  constructor
  · intro howned i he
    obtain ⟨hecall, hid, m, hg⟩ := effect_eq_release.mp he
    obtain ⟨hmi, -⟩ := hm i m (by rw [hg] at hr; exact (Except.ok.inj hr).symm)
    exact ⟨m, hmi, howned hecall hid i m hg⟩
  · intro howns hecall hid i m hg
    obtain ⟨hmi, -⟩ := hm i m (by rw [hg] at hr; exact (Except.ok.inj hr).symm)
    obtain ⟨m', hm', ho⟩ := howns i (effect_eq_release.mpr ⟨hecall, hid, m, hg⟩)
    have hmm : some m = some m' := hmi.symm.trans hm'
    rw [Option.some.inj hmm]
    exact ho

/-! ## Returns and panics -/

theorem completes_iff {P : Platform} {k : Kernel} (hk : Sound k) {h : Hart} {t : Trap} :
    (Completes P h t k ↔ HandledCause t.mcause ∧ UnlockOwned k h t ∧ LockAvailable k h t ∧
      PlanPermitted P k h (transferPlan k h t)) ∧
    (Panics (trapHandler P h t k) ↔
      ¬ HandledCause t.mcause ∨ (LockAvailable k h t ∧ ¬ UnlockOwned k h t)) := by
  unfold Completes
  by_cases hc : HandledCause t.mcause
  · have hr := trap_result (P := P) (h := h) hk hc
    have howned : UnlockOwned k h t ↔ _ := unlockOwned_iff hk
    generalize trapHandler P h t k = o at hr
    cases hr with
    | runs htakes hl hr =>
      have hlock : LockAvailable k h t := fun _ => (lock_isSome_iff _ h).mp ⟨_, hl⟩
      cases hr with
      | returns _ _ _ howns hcopies =>
        have hu := howned.mpr howns
        simp [Panics, hc, hlock, hu, hcopies]
      | notOwner he hnot =>
        have hu : ¬ UnlockOwned k h t := fun hu => hnot (howned.mp hu _ he)
        simp [Panics, hc, hlock, hu]
      | copyFault he hnot =>
        have hu : UnlockOwned k h t := howned.mpr fun i hi => by
          rw [he] at hi
          cases hi
        simp [Panics, hc, hlock, hu, hnot]
    | spins htakes hl =>
      have hlock : ¬ LockAvailable k h t := by
        intro hav
        obtain ⟨l, hl'⟩ := (lock_isSome_iff _ h).mpr (hav htakes)
        rw [hl] at hl'
        cases hl'
      simp [Panics, hc, hlock]
    | lockFree htakes he hp =>
      have hlock : LockAvailable k h t := fun htakes' => absurd htakes' htakes
      have hu : UnlockOwned k h t := howned.mpr fun i hi => by
        rw [he] at hi
        cases hi
      simp [Panics, hc, hlock, hu, hp, PlanPermitted]
  · rw [trap_unhandled hc]
    simp [Panics, hc]

end Cerberus.Containment
