import Mathlib.Data.Fin.Basic
import Mathlib.Logic.Function.Iterate
import Cerberus.Foundations.ByteMemory

/-! # The reentrant spinlock

`kernel/src/kernel/spinlock.rs` twice: as the atomic operations the trap handler is modelled with,
and as the individual memory steps of `lock` and `unlock`. `owner` is 0 when the lock is free and
the owning hart id plus one otherwise; `depth` counts the holds and wraps as a `usize` does. -/
namespace Cerberus.Sync
set_option autoImplicit false

abbrev Hart := Fin 2

instance neZero_harts : NeZero 2 := ⟨by decide⟩

/-- The two words of the lock; `owner` is decoded. -/
structure Spinlock where
  owner : Option Hart
  depth : Word
  deriving DecidableEq

namespace Spinlock

def new : Spinlock := ⟨none, 0#32⟩

/-- `lock` run without interruption; `none` while it busy-waits for the other hart. -/
def lock (l : Spinlock) (hartId : Hart) : Option Spinlock :=
  if l.owner = some hartId then some { l with depth := l.depth + 1#32 }
  else if l.owner = none then some ⟨some hartId, 1#32⟩
  else none

/-- Release one level of the lock; ownership is cleared once the depth is back at zero. -/
def unlock (l : Spinlock) : Spinlock where
  owner := if l.depth - 1#32 = 0#32 then none else l.owner
  depth := l.depth - 1#32

end Spinlock

/-! ## The memory steps -/

/-- Where code that takes the lock once and releases it stands: the next step of `lock` or
`unlock`, or between the two. -/
inductive Pc where
  | out
  | loadOwner
  | compareExchange
  | writeDepth
  | incDepth
  | inside
  | decDepth
  | storeOwner
  deriving DecidableEq

/-- One memory step of hart `h`. A failed `compare_exchange_weak` repeats. -/
def advance (h : Hart) : Pc → Spinlock → Pc × Spinlock
  | .out, l => (.loadOwner, l)
  | .loadOwner, l => if l.owner = some h then (.incDepth, l) else (.compareExchange, l)
  | .compareExchange, l =>
    if l.owner = none then (.writeDepth, { l with owner := some h }) else (.compareExchange, l)
  | .writeDepth, l => (.inside, { l with depth := 1#32 })
  | .incDepth, l => (.inside, { l with depth := l.depth + 1#32 })
  | .inside, l => (.decDepth, l)
  | .decDepth, l =>
    (if l.depth - 1#32 = 0#32 then .storeOwner else .out, { l with depth := l.depth - 1#32 })
  | .storeOwner, l => (.out, { l with owner := none })

/-- Uninterrupted, the memory steps of `lock` are the atomic `lock`. -/
theorem advance_lock {h : Hart} {l l' : Spinlock} (hl : l.lock h = some l') :
    ∃ n, (fun x => advance h x.1 x.2)^[n] (.loadOwner, l) = (.inside, l') := by
  unfold Spinlock.lock at hl
  split at hl
  · rename_i ho
    have hl' := Option.some.inj hl
    rw [ho] at hl'
    exact ⟨2, by simp [advance, ho, hl']⟩
  · split at hl
    · rename_i ho hn
      have hl' := Option.some.inj hl
      exact ⟨3, by simp [advance, hn, hl']⟩
    · cases hl

theorem advance_unlock (h : Hart) (l : Spinlock) :
    ∃ n, (fun x => advance h x.1 x.2)^[n] (.inside, l) = (.out, l.unlock) := by
  by_cases hd : l.depth - 1#32 = 0#32
  · exact ⟨3, by simp [advance, Spinlock.unlock, hd]⟩
  · exact ⟨2, by simp [advance, Spinlock.unlock, hd]⟩

end Cerberus.Sync
