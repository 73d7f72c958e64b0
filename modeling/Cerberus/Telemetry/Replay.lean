import Cerberus.Telemetry.Report

/-! # The schedule, read from the telemetry

The events of the two harts arrive in one stream and do not say on which hart they happened. A reader
who knows the registration of `kmain` can follow the schedule all the same: apart from the idle
partition, no partition is on both harts. -/
namespace Cerberus.Telemetry
open Kernel Scheduler Sync Memory Transition
set_option autoImplicit false

/-! ## The reader -/

/-- The harts a partition is registered on. -/
def homes (p : ℕ) : List Hart :=
  [0, 1].filter fun h => (coreTasks h).any fun s => s.priority.toNat = p

/-- The hart a partition names: none for the idle partition, which is on both. -/
def hartOf (p : ℕ) : Option Hart :=
  match homes p with
  | [h] => some h
  | _ => none

/-- The partitions that `start_first_task` enters. -/
def firstRunning : Hart → ℕ := fun h => if h = 0 then 0 else 2

/-- One record. A swap is refused if its source is not the partition last seen on its hart; one from
the idle partition to itself changes nothing on either. -/
def follow (running : Hart → ℕ) : Record → Option (Hart → ℕ)
  | .taskSwap src dst _ =>
    match (hartOf src).or (hartOf dst) with
    | some h => if running h = src then some (Function.update running h dst) else none
    | none => if src = dst ∧ ∃ h, running h = src then some running else none
  | _ => some running

def replay (records : List Record) : Option (Hart → ℕ) := records.foldlM follow firstRunning

/-- What the kernel has on its harts. -/
def onHarts (k : Kernel) : Hart → ℕ := fun h => (k.current h).val

/-! ## One swap -/

theorem hartOf_registered (h : Hart) (i : Fin MAX_PARTITIONS) (hreg : (bootStatic (h, i)).isSome) :
    i = 31 ∨ hartOf i.val = some h := by
  revert h i
  decide +kernel

theorem hartOf_idle : hartOf 31 = none := by decide

theorem follow_swap (running : Hart → ℕ) {h : Hart} {i n : Fin MAX_PARTITIONS} (cycles : ℕ)
    (hi : (bootStatic (h, i)).isSome) (hn : (bootStatic (h, n)).isSome) (hrun : running h = i.val) :
    follow running (.taskSwap i.val n.val cycles) = some (Function.update running h n.val) := by
  have hside : (hartOf i.val).or (hartOf n.val) = some h ∨ (i = 31 ∧ n = 31) := by
    rcases hartOf_registered h i hi with rfl | hsrc
    · rcases hartOf_registered h n hn with rfl | hdst
      · exact Or.inr ⟨rfl, rfl⟩
      · refine Or.inl ?_
        rw [show hartOf (31 : Fin MAX_PARTITIONS).val = none from hartOf_idle, hdst]
        rfl
    · refine Or.inl ?_
      rw [hsrc]
      rfl
  unfold follow
  rcases hside with hside | ⟨rfl, rfl⟩
  · simp only [hside, if_pos hrun]
  · -- from idle to idle
    have hnone : (hartOf (31 : Fin MAX_PARTITIONS).val).or (hartOf (31 : Fin MAX_PARTITIONS).val) = none := by
      decide
    have hsame : Function.update running h (31 : Fin MAX_PARTITIONS).val = running := by
      rw [← hrun, Function.update_eq_self]
    simp only [hnone]
    rw [if_pos ⟨trivial, h, hrun⟩, hsame]

/-! ## One step -/

/-- `es` leads a reader from what `k` has on its harts to what `k'` has. -/
def Tells (k : Kernel) (es : List TraceEvent) (k' : Kernel) : Prop :=
  k'.trace = k.trace ++ es ∧ (es.map record).foldlM follow (onHarts k) = some (onHarts k')

theorem Tells.silent {k k' : Kernel} (htrace : k'.trace = k.trace) (hcur : k'.current = k.current) :
    Tells k [] k' := by
  refine ⟨by rw [htrace, List.append_nil], ?_⟩
  have hharts : onHarts k = onHarts k' := by
    funext h
    rw [onHarts, onHarts, hcur]
  rw [hharts]
  rfl

theorem Tells.trans {k k1 k2 : Kernel} {es es1 : List TraceEvent} (h : Tells k es k1)
    (h1 : Tells k1 es1 k2) : Tells k (es ++ es1) k2 := by
  obtain ⟨htrace, hfold⟩ := h
  obtain ⟨htrace1, hfold1⟩ := h1
  refine ⟨by rw [htrace1, htrace, List.append_assoc], ?_⟩
  rw [List.map_append, List.foldlM_append, hfold]
  exact hfold1

/-- Events that are not swaps tell a reader nothing. -/
theorem foldlM_follow_trapLog (k : Kernel) (h : Hart) (t : Trap) (running : Hart → ℕ) :
    ((trapLog k h t).map record).foldlM follow running = some running := by
  have hfault : ((faultLog k t).map record).foldlM follow running = some running := by
    unfold faultLog
    split <;> rfl
  have htransfer : ∀ (e? : Option Byte) (p? : Option Plan),
      ((transferLog e? p?).map record).foldlM follow running = some running := by
    intro e? p?
    unfold transferLog planLog
    cases e? <;> cases p? <;> rfl
  rw [trapLog, List.map_append, List.foldlM_append, hfault]
  exact htransfer _ _

section Steps
variable {P : Platform} {h : Hart} {t : Trap} {k k' : Kernel} {sp : Word}

theorem tells_of_trap (hok : trapHandler P h t k = .ok (sp, k')) (hk : Sound k)
    (hreg : ∀ h, (bootStatic (h, k.current h)).isSome)
    (hreg' : ∀ h, (bootStatic (h, k'.current h)).isSome) : ∃ es, Tells k es k' := by
  obtain ⟨htrace, hnext⟩ := trap_logs hk hok
  obtain ⟨hstep, -⟩ := effectStep_of_ok hk hok
  have hother : ∀ h', h' ≠ h → onHarts k' h' = onHarts k h' := by
    intro h' hh
    have hsame : k'.current h' = k.current h' := hstep.leads.current_of_ne hh
    rw [onHarts, onHarts, hsame]
  refine ⟨_, by rw [htrace, List.append_assoc], ?_⟩
  rw [List.map_append, List.foldlM_append, foldlM_follow_trapLog]
  cases hn : nextSlot k h (effect k h t) with
  | none =>
    rw [hn] at hnext
    have hharts : onHarts k = onHarts k' := by
      funext h'
      by_cases hh : h' = h
      · rw [hh, onHarts, onHarts, hnext]
        rfl
      · exact (hother h' hh).symm
    rw [hharts]
    rfl
  | some n =>
    rw [hn] at hnext
    have hcur : k'.current h = n := hnext
    have hswap := follow_swap (onHarts k) t.cycles.toNat (hreg h) (hcur ▸ hreg' h) rfl
    have hharts : Function.update (onHarts k) h n.val = onHarts k' := by
      funext h'
      by_cases hh : h' = h
      · rw [hh, Function.update_self, onHarts, hcur]
      · rw [Function.update_of_ne hh, hother h' hh]
    simp only [Option.map_some, Option.toList_some, List.map_cons, List.map_nil, record_swapEvent]
    show (follow (onHarts k) _ >>= fun b => List.foldlM follow b []) = _
    rw [hswap, hharts]
    rfl

end Steps

theorem registered_of_sysInv {s : System} (hs : SysInv s) (h : Hart) :
    (bootStatic (h, s.kernel.current h)).isSome := by
  rw [← hs.shape.isSome]
  exact hs.shape.running h

theorem tells_of_step {P : Platform} {s s' : System} {ev : Event} (hs : SysInv s)
    (hstep : Step P s ev s') : ∃ es, Tells s.kernel es s'.kernel := by
  have hreg := registered_of_sysInv hs
  have hreg' := registered_of_sysInv (sysInv_step s ev s' hs hstep)
  have hkernel := stepKernel_of_step hstep
  generalize s'.kernel = k' at hkernel hreg' ⊢
  cases hkernel with
  | trap hok =>
    obtain ⟨es, hes⟩ := tells_of_trap hok (hs.sound _) hreg hreg'
    exact ⟨es, hes⟩
  | @nested h t t' m m' kf k' sp hf hok =>
    -- the handler that faults has neither logged nor switched
    obtain ⟨-, hview, hmutex, -, -⟩ := of_copyFault (hs.sound m) hf
    have hcur : (kf.setMem m').current = s.kernel.current := congrArg View.current hview
    have hlogged := copyFault_trace (hs.sound m) hf
    have htrace : (kf.setMem m').trace = s.kernel.trace := hlogged
    have hkf : Sound (kf.setMem m') := (hs.sound m).congr hview (hmutex ▸ (hs.sound m).mutexLock)
    obtain ⟨es, hlog, hes⟩ := tells_of_trap hok hkf (fun h => hcur ▸ hreg h) hreg'
    have hharts : onHarts (kf.setMem m') = onHarts s.kernel := by
      funext h'
      rw [onHarts, onHarts, hcur]
    exact ⟨es, by rw [hlog, htrace], hharts ▸ hes⟩
  | lock => exact ⟨[], .silent rfl rfl⟩
  | restartTaskC =>
    refine ⟨[], .silent ?_ ((restartTaskC_step P s.kernel).1.current rfl)⟩
    rw [restartTaskC]
    split <;> rfl
  | restartHsm =>
    refine ⟨[], .silent ?_ ((restartHsm_step P s.kernel).1.current rfl)⟩
    rw [restartHsm]
    split <;> rfl
  | unlock => exact ⟨[], .silent rfl rfl⟩

/-! ## Every run -/

theorem tells_of_run {P : Platform} {s s' : System} {es : List Event} (hs : Initial P s)
    (hrun : Run (Step P) s es s') : ∃ log, Tells s.kernel log s'.kernel := by
  refine hrun.rel (I := SysInv) (R := fun s s' => ∃ log, Tells s.kernel log s'.kernel)
    (fun u => ⟨[], .silent rfl rfl⟩) (fun u v w h1 h2 => ?_) sysInv_step
    (fun u ev u' hu hstep => tells_of_step hu hstep) (sysInv_initial hs)
  obtain ⟨log1, h1⟩ := h1
  obtain ⟨log2, h2⟩ := h2
  exact ⟨log1 ++ log2, h1.trans h2⟩

theorem onHarts_initial {P : Platform} {s : System} (hs : Initial P s) :
    onHarts s.kernel = firstRunning ∧ s.kernel.trace = [] := by
  have hcur : s.kernel.current = bootView.current := congrArg View.current (initial_view hs).1
  constructor
  · funext h
    rw [onHarts, hcur]
    revert h
    decide
  · obtain ⟨m, r, -, hboot, -⟩ := hs
    obtain ⟨s0, h0, -⟩ := bootSched_zero P
    obtain ⟨s1, h1, -⟩ := bootSched_one P
    simp only [boot, h0, h1] at hboot
    rw [← Option.some.inj hboot]

/-- At any point of any run: whatever the chunks in which the file comes to the broker, if each ends
between two events then what the broker sends replays, without a refused swap, to the partitions that
the two harts are running. -/
theorem replay_follows_schedule (P : Platform) (s s' : System) (es : List Event)
    (chunks : List (List Byte)) (hs : Initial P s) (hrun : Run (Step P) s es s')
    (hbytes : chunks.flatten = logged s'.kernel.trace)
    (hal : Aligned s'.kernel.trace chunks) :
    replay (tailFile BytesIo.new chunks) = some fun h => (s'.kernel.current h).val := by
  obtain ⟨log, htrace, hfold⟩ := tells_of_run hs hrun
  obtain ⟨hfirst, hnil⟩ := onHarts_initial hs
  rw [hnil, List.nil_append] at htrace
  rw [logged_eq] at hbytes
  rw [tailFile_of_aligned hbytes hal, replay, ← hfirst, htrace]
  exact hfold

/-- Both harts yield once; the file comes in two pieces. -/
theorem replay_two_yields : ∃ s', Run (Step packedPlatform) bootSystem
      [syscall 0 1 0 0 0, syscall 1 1 0 0 0] s' ∧
    s'.kernel.current 0 = 1 ∧ s'.kernel.current 1 = 3 ∧
    replay (tailFile BytesIo.new [[0, 0, 1, 0], [0, 2, 3, 0]]) =
      some fun h => (s'.kernel.current h).val := by
  obtain ⟨s', hrun, hs'⟩ := run_of_eval packedPlatform bootSystem
    [syscall 0 1 0 0 0, syscall 1 1 0 0 0]
    (fun s => (s.kernel.trace, s.kernel.current 0, s.kernel.current 1))
    ([.taskSwap 0 1 0, .taskSwap 2 3 0], 1, 3) (by decide +kernel)
  obtain ⟨htrace, hcur⟩ := Prod.mk.inj hs'
  obtain ⟨h0, h1⟩ := Prod.mk.inj hcur
  refine ⟨s', hrun, h0, h1, replay_follows_schedule packedPlatform bootSystem s' _ _
    bootSystem_initial hrun ?_ ?_⟩
  · rw [htrace]
    rfl
  · rw [htrace]
    exact .cons (n := 1) rfl (.cons (n := 1) rfl (aligned_nil _))

end Cerberus.Telemetry
