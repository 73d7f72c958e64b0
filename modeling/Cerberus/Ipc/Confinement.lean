import Cerberus.Ipc.Rendezvous
import Cerberus.Mutex.Termination

/-! # Confinement to the C-lists

The handlers check the capability of the caller only, and only at the call. Bytes still travel from a
task that may send to a task that may receive, and a mutex is owned and waited for by tasks that may
lock it: whoever is recorded as waiting has passed the check when it was recorded. -/
namespace Cerberus.Ipc
open Kernel Scheduler Sync Transition Mutex
set_option autoImplicit false

/-- Task `x` is recorded as the owner of mutex `i`, as one of its waiters, or as blocked on it. -/
inductive RecordedOn (v : View) (x : TaskId) (i : Fin 8) : Prop where
  | owner {m : KernelMutex} (hm : v.mutexes i = some m) (ho : m.ownerTaskIdx = some (ownerByte x.2))
  | waiter {m : KernelMutex} (hm : v.mutexes i = some m) (hw : BitSet.Mem m.waitersBitmap x.2)
  | blocked (hx : v.state x = some (.blockedOnMutex (BitVec.ofNat 8 i.val)))

theorem mayLock_of_locker {v : View} (hv : v.BootShape) {x : TaskId} (hx : Locker x) :
    MayLock v x 0 := by
  unfold MayLock
  rw [hv.static]
  rcases hx with rfl | rfl
  · exact ⟨_, 0, true, rfl, rfl⟩
  · exact ⟨_, 0, true, rfl, rfl⟩

theorem mayLock_of_recordedOn {v : View} (hv : v.BootShape) {x : TaskId} (hreg : (v.state x).isSome)
    {i : Fin 8} (hx : RecordedOn v x i) : MayLock v x i := by
  cases hx with
  | owner hm ho =>
    obtain rfl := hv.mutexes i _ hm
    obtain ⟨y, hy, hbyte⟩ := hv.owners 0 _ hm _ ho
    obtain rfl := eq_of_locker_index hv hy hreg (ownerByte_inj hbyte)
    exact mayLock_of_locker hv hy
  | waiter hm hw =>
    obtain rfl := hv.mutexes i _ hm
    have hlocker := hv.waiters 0 _ hm x.2 hw
    rw [eq_of_locker_index hv hlocker hreg rfl]
    exact mayLock_of_locker hv hlocker
  | blocked hx =>
    obtain ⟨hlocker, hzero⟩ := hv.waiting x _ hx
    obtain rfl : i = 0 := by
      have hi := congrArg BitVec.toNat hzero
      rw [BitVec.toNat_ofNat] at hi
      apply Fin.ext
      have hlt := i.isLt
      simp at hi ⊢
      omega
    exact mayLock_of_locker hv hlocker

def cListOf (k : Kernel) (x : TaskId) : Option (Fin 8 → Capability) :=
  ((k.scheds x.1).taskTable x.2).map TaskControlBlock.capabilities

theorem cListOf_eq (k : Kernel) (x : TaskId) :
    cListOf k x = ((view k).static x).map Static.capabilities := by
  simp only [cListOf, view, Option.map_map]
  rfl

theorem rights_of_opposite {v : View} (hv : IpcInv v) {caller y : TaskId} {e : Byte} {p : Plan}
    (hopp : Opposite v caller e p y) : MaySend v p.sender e ∧ MayRecv v p.receiver e := by
  cases hopp with
  | sends hsender hreceiver hmay hy =>
    rw [hsender, hreceiver]
    exact ⟨hmay, hv.receivers _ _ _ _ hy⟩
  | receives hsender hreceiver hmay hy =>
    rw [hsender, hreceiver]
    exact ⟨hv.senders _ _ _ _ hy, hmay⟩

/-- The memory at Task A's send of twelve bytes on endpoint 2. -/
def requestFrame : Memory := syscallFrame 0x3FC82400 6 2 0x3FC80400 12

end Cerberus.Ipc
