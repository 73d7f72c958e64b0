import Cerberus.Kernel.Footprint
import Cerberus.Memory.Isolation

/-! # The rights of the two parties of a rendezvous

The copy of a rendezvous runs in M-mode, where the entries of the stacks do not apply, and the
handler compares no address with the rights of the sender or the receiver. Whether the rights are
respected is therefore a matter of the addresses the two tasks pass. -/
namespace Cerberus.Containment
open Kernel Scheduler Sync Memory Transition
set_option autoImplicit false

/-! ## The accesses of a copy -/

/-- The accesses a copy of `n` bytes makes, in order, up to the one that faults. -/
def copyAccesses (P : Platform) (r : PmpRegs) : ℕ → Word → Word → List (Access × Word)
  | 0, _, _ => []
  | n + 1, src, dst =>
    if P.mapped src && mModeMay r .read src then
      if P.mapped dst && mModeMay r .write dst then
        (.read, src) :: (.write, dst) :: copyAccesses P r n (src + 1#32) (dst + 1#32)
      else [(.read, src)]
    else []

/-- The memory after a sequence of accesses: a write stores the byte last read. -/
def replay : List (Access × Word) → Byte → Memory → Memory
  | [], _, m => m
  | (.read, a) :: l, _, m => replay l (m a) m
  | (.write, a) :: l, b, m => replay l b (Function.update m a b)
  | (.execute, _) :: l, b, m => replay l b m

def copied : Except (Word × Memory) Memory → Memory
  | .ok m => m
  | .error (_, m) => m

/-- A copy is its accesses, nothing else. -/
theorem copied_eq_replay (P : Platform) (r : PmpRegs) (n : ℕ) (src dst : Word) (b : Byte)
    (m : Memory) :
    copied (copyBytes P r n src dst m) = replay (copyAccesses P r n src dst) b m := by
  induction n generalizing src dst b m with
  | zero => rfl
  | succ n ih =>
    unfold copyBytes copyAccesses
    by_cases hs : P.mapped src && mModeMay r .read src
    · rw [if_pos hs, if_pos hs]
      by_cases hd : P.mapped dst && mModeMay r .write dst
      · rw [if_pos hd, if_pos hd]
        exact ih (src + 1#32) (dst + 1#32) (m src) (Function.update m dst (m src))
      · rw [if_neg hd, if_neg hd]
        rfl
    · rw [if_neg hs, if_neg hs]
      rfl

/-! ## Rights -/

/-- Task `x` itself may make the access: in U-mode, with the registers `reprogram_pmp_stack` leaves
when it runs. -/
def taskMay (P : Platform) (k : Kernel) (x : TaskId) (acc : Access) (a : Word) : Bool :=
  match (view k).static x with
  | some st => uModeMay (reprogramPmpStack P.layout st.name (k.pmp x.1)) acc a
  | none => false

/-- Every byte the rendezvous reads may be read by the sender, every byte it writes may be written
by the receiver. -/
def RightsRespected (P : Platform) (k : Kernel) (h : Hart) (p : Plan) : Prop :=
  ∀ b ∈ copyAccesses P (k.pmp h) p.len.toNat p.src p.dst,
    (b.1 = .read → taskMay P k p.sender .read b.2 = true) ∧
    (b.1 = .write → taskMay P k p.receiver .write b.2 = true)

instance (P : Platform) (k : Kernel) (h : Hart) (p : Plan) :
    Decidable (RightsRespected P k h p) := by
  unfold RightsRespected
  infer_instance

def nameOf (x : TaskId) : String := ((bootStatic x).map Static.name).getD ""

/-- The addresses read lie in flash or SRAM, those written in SRAM, and none in the stack of the
Watchdog or of Task A, unless it is the party's own. -/
def InOpenMemory (P : Platform) (k : Kernel) (h : Hart) (p : Plan) : Prop :=
  ∀ b ∈ copyAccesses P (k.pmp h) p.len.toNat p.src p.dst,
    (b.1 = .read → InFlash b.2 ∨ (InSram b.2 ∧ ¬ Hidden P.layout (nameOf p.sender) b.2)) ∧
    (b.1 = .write → InSram b.2 ∧ ¬ Hidden P.layout (nameOf p.receiver) b.2)

instance (P : Platform) (k : Kernel) (h : Hart) (p : Plan) :
    Decidable (InOpenMemory P k h p) := by
  unfold InOpenMemory
  infer_instance

theorem taskMay_iff {P : Platform} {k : Kernel} {x : TaskId} (hv : (view k).BootShape)
    (hpmp : ∀ h, Booted (k.pmp h)) (hx : ((view k).state x).isSome) (acc : Access) (a : Word) :
    taskMay P k x acc a = true ↔ (InFlash a ∧ acc ≠ .write) ∨
      (InSram a ∧ ¬ Hidden P.layout (nameOf x) a ∧ acc ≠ .execute) := by
  rw [hv.isSome] at hx
  obtain ⟨st, hst⟩ := Option.isSome_iff_exists.mp hx
  have hname : nameOf x = st.name := by simp [nameOf, hst]
  have hprog := programmed_reprogramPmpStack (L := P.layout) (hpmp x.1) st.name
  unfold taskMay
  rw [hv.static, hst, hname]
  exact hprog.uModeMay_iff acc a

theorem transferPlan_registered {k : Kernel} (hk : Sound k) {h : Hart} {t : Trap} {p : Plan}
    (hp : transferPlan k h t = some p) :
    ((view k).state p.sender).isSome ∧ ((view k).state p.receiver).isSome := by
  have hrun := hk.indexed.running h
  unfold transferPlan at hp
  split at hp
  · split at hp
    · unfold sendPlan at hp
      split at hp
      · obtain ⟨⟨ph, pi, bufAddr, maxLen⟩, hf, rfl⟩ := Option.map_eq_some_iff.mp hp
        obtain ⟨st, hst, -⟩ := findPartner_state hf
        exact ⟨hrun, Option.isSome_iff_exists.mpr ⟨st, hst⟩⟩
      · cases hp
    · unfold recvPlan at hp
      split at hp
      · obtain ⟨⟨ph, pi, msgAddr, msgLen⟩, hf, rfl⟩ := Option.map_eq_some_iff.mp hp
        obtain ⟨st, hst, -⟩ := findPartner_state hf
        exact ⟨Option.isSome_iff_exists.mpr ⟨st, hst⟩, hrun⟩
      · cases hp
    · cases hp
  · cases hp

/-- In every reachable state and for every rendezvous a trap performs: the parties' rights are
respected if and only if the accessed bytes lie in memory that is open to them. -/
theorem copy_rights_exact (P : Platform) (s s' : System) (es : List Event) (hs : Initial P s)
    (hrun : Run (Step P) s es s') (h : Hart) (t : Trap) (m : Memory) (p : Plan)
    (hp : transferPlan (s'.kernel.setMem m) h t = some p) :
    RightsRespected P (s'.kernel.setMem m) h p ↔ InOpenMemory P (s'.kernel.setMem m) h p := by
  have hinv : SysInv s' := sysInv_run hs hrun
  obtain ⟨hsender, hreceiver⟩ := transferPlan_registered (hinv.sound m) hp
  have hshape : (view (s'.kernel.setMem m)).BootShape := hinv.shape
  have hread : ∀ a, taskMay P (s'.kernel.setMem m) p.sender .read a = true ↔
      InFlash a ∨ (InSram a ∧ ¬ Hidden P.layout (nameOf p.sender) a) := fun a => by
    simpa using taskMay_iff (P := P) hshape hinv.pmp hsender .read a
  have hwrite : ∀ a, taskMay P (s'.kernel.setMem m) p.receiver .write a = true ↔
      InSram a ∧ ¬ Hidden P.layout (nameOf p.receiver) a := fun a => by
    simpa using taskMay_iff (P := P) hshape hinv.pmp hreceiver .write a
  unfold RightsRespected InOpenMemory
  simp only [hread, hwrite]

/-- HSM Task waits for a message of four bytes at `buffer`, and Task A is about to send. -/
def hsmWaits (buffer : Word) : List Event :=
  [syscall 0 1 0 0 0, syscall 0 1 0 0 0, syscall 0 7 0 buffer 4, syscall 0 1 0 0 0]

/-- The memory at Task A's send of the first four bytes of its stack, which begin with 0xAA. -/
def sendFrame : Memory :=
  Function.update (syscallFrame 0x3FC82400 6 2 0x3FC80400 4) 0x3FC80400 0xAA

theorem copy_rights_exact_own_stack :
    ∃ s' p, Run (Step packedPlatform) bootSystem (hsmWaits 0x3FC81000) s' ∧
      transferPlan (s'.kernel.setMem sendFrame) 0 ⟨ECALL_UMODE, 0x3FC82400, 0⟩ = some p ∧
      RightsRespected packedPlatform (s'.kernel.setMem sendFrame) 0 p := by
  obtain ⟨s', hrun, hf⟩ := run_of_eval packedPlatform bootSystem (hsmWaits 0x3FC81000)
    (fun s => (transferPlan (s.kernel.setMem sendFrame) 0 ⟨ECALL_UMODE, 0x3FC82400, 0⟩).map
      fun p => decide (InOpenMemory packedPlatform (s.kernel.setMem sendFrame) 0 p))
    (some true) (by decide +kernel)
  obtain ⟨p, hp, hopen⟩ := Option.map_eq_some_iff.mp hf
  exact ⟨s', p, hrun, hp, (copy_rights_exact _ _ _ _ bootSystem_initial hrun _ _ _ p hp).mpr
    (of_decide_eq_true hopen)⟩

def byteAfter (o : Outcome) (a : Word) : Option Byte :=
  match o with
  | .ok (_, k) => some (k.mem a)
  | .error _ => none

/-- The buffer is the Watchdog's stack: the kernel writes there what HSM Task may not write. -/
theorem copy_into_watchdog_stack :
    (∃ s' p, Run (Step packedPlatform) bootSystem (hsmWaits 0x3FC80000) s' ∧
      transferPlan (s'.kernel.setMem sendFrame) 0 ⟨ECALL_UMODE, 0x3FC82400, 0⟩ = some p ∧
      byteAfter (trapHandler packedPlatform 0 ⟨ECALL_UMODE, 0x3FC82400, 0⟩
        (s'.kernel.setMem sendFrame)) 0x3FC80000 = some 0xAA ∧
      ¬ RightsRespected packedPlatform (s'.kernel.setMem sendFrame) 0 p) ∧
    ¬ ∀ P s s' es h t m p, Initial P s → Run (Step P) s es s' →
      transferPlan (s'.kernel.setMem m) h t = some p →
      RightsRespected P (s'.kernel.setMem m) h p := by
  have hrun : ∃ s' p, Run (Step packedPlatform) bootSystem (hsmWaits 0x3FC80000) s' ∧
      transferPlan (s'.kernel.setMem sendFrame) 0 ⟨ECALL_UMODE, 0x3FC82400, 0⟩ = some p ∧
      byteAfter (trapHandler packedPlatform 0 ⟨ECALL_UMODE, 0x3FC82400, 0⟩
        (s'.kernel.setMem sendFrame)) 0x3FC80000 = some 0xAA ∧
      ¬ RightsRespected packedPlatform (s'.kernel.setMem sendFrame) 0 p := by
    obtain ⟨s', hrun, hf⟩ := run_of_eval packedPlatform bootSystem (hsmWaits 0x3FC80000)
      (fun s => ((transferPlan (s.kernel.setMem sendFrame) 0 ⟨ECALL_UMODE, 0x3FC82400, 0⟩).map
          fun p => decide (RightsRespected packedPlatform (s.kernel.setMem sendFrame) 0 p),
        byteAfter (trapHandler packedPlatform 0 ⟨ECALL_UMODE, 0x3FC82400, 0⟩
          (s.kernel.setMem sendFrame)) 0x3FC80000)) (some false, some 0xAA) (by decide +kernel)
    obtain ⟨hplan, hbyte⟩ := by simpa only [Prod.mk.injEq] using hf
    obtain ⟨p, hp, hno⟩ := Option.map_eq_some_iff.mp hplan
    exact ⟨s', p, hrun, hp, hbyte, of_decide_eq_false hno⟩
  refine ⟨hrun, fun hall => ?_⟩
  obtain ⟨s', p, hs', hp, -, hno⟩ := hrun
  exact hno (hall _ _ _ _ _ _ _ p bootSystem_initial hs' hp)

end Cerberus.Containment
