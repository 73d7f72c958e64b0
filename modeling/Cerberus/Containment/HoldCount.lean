import Cerberus.Containment.Nested
import Cerberus.Containment.Panic

/-! # Leaked holds

A copy fault of HSM Task leaves one more hold of `SCHED_LOCK` behind, and the Watchdog restarts HSM Task
afterwards. The two can go on for ever, so that every hold count is reached. -/
namespace Cerberus.Containment
open Kernel Scheduler Sync Memory Transition Mutex
set_option autoImplicit false

/-- Slot `i` of hart 0 runs, the slots in `R` are `Ready`, and Task A waits to send the byte at address 0
to HSM Task. -/
structure Duel (v : View) (i : Fin MAX_PARTITIONS) (R : Fin MAX_PARTITIONS → Prop) : Prop where
  current : v.current 0 = i
  running : v.state (0, i) = some .running
  ready : ∀ n, v.state (0, n) = some .ready ↔ R n
  sender : v.state taskA = some (.blockedOnIpcSend 2#8 0#32 1#32)

section Views
variable {v v' : View} {i j : Fin MAX_PARTITIONS}

/-- With one `Ready` slot the scheduling decision is determined: that slot runs, and the slot that ran is
`Ready` if it still could run. -/
theorem resched_unique (hcurrent : v.current 0 = i) (hready : ∀ n, v.state (0, n) = some .ready ↔ n = j)
    (hr : View.Resched 0 false v v') :
    v'.current 0 = j ∧ v'.state (0, j) = some .running ∧
      ∀ n, v'.state (0, n) = some .ready ↔ n = i ∧ v.state (0, i) = some .running := by
  have hj : v.state (0, j) = some .ready := (hready j).mpr rfl
  obtain rfl : v' = v.swap 0 j := by
    rcases hr with ⟨-, hnone⟩ | ⟨n, hn, hv'⟩
    · exact absurd hj (hnone rfl j)
    · rw [hv', (hready n).mp hn]
  have hrun : v.running 0 = (0, i) := by rw [View.running, hcurrent]
  refine ⟨by simp [View.swap], ?_, fun n => ?_⟩
  · rw [View.state_swap, if_pos rfl, hj]
    rfl
  · rw [View.state_swap, hrun]
    by_cases hnj : n = j
    · subst hnj
      rw [if_pos rfl, hj]
      simp only [Option.map_some, Option.some.injEq, reduceCtorEq, false_iff]
      rintro ⟨rfl, hi⟩
      rw [hj] at hi
      cases hi
    · rw [if_neg fun he => hnj (Prod.mk.inj he).2]
      by_cases hni : n = i
      · subst hni
        by_cases hi : v.state (0, n) = some .running
        · simp [hi]
        · simp [hi, hready, hnj]
      · rw [if_neg fun he => hni (Prod.mk.inj he.1).2, hready]
        simp [hni, hnj]

/-- The running slot gives way to the only `Ready` one. -/
theorem Duel.yields (hv : Duel v i (· = j)) (hr : View.Resched 0 false v v') : Duel v' j (· = i) := by
  obtain ⟨hcurrent, hrun, hready⟩ := resched_unique hv.current hv.ready hr
  refine ⟨hcurrent, hrun, fun n => ?_, (hr.state_iff (by simp) (by simp)).mpr hv.sender⟩
  rw [hready, and_iff_left hv.running]

theorem ne_hsmTask {n : Fin MAX_PARTITIONS} (hn : n ≠ 4) : ((0, n) : TaskId) ≠ hsmTask :=
  fun he => hn (Prod.mk.inj he).2

/-- HSM Task owns no mutex, so that its termination changes its own state only. -/
theorem state_kill_hsm (hshape : v.BootShape) (x : TaskId) :
    ((Effect.kill hsmTask).apply 0 v).state x = (v.setState hsmTask .terminated).state x := by
  refine View.state_recoverAll_of_not_heir fun k hheir => ?_
  obtain ⟨m, w, hm, ho, -⟩ := hheir
  obtain ⟨y, hy, hbyte⟩ := hshape.owners k m hm _ ho
  revert hbyte
  rcases hy with rfl | rfl <;> decide

/-- HSM Task is terminated, and the only `Ready` slot runs. -/
theorem Duel.dies (hv : Duel v 4 (· = j)) (hshape : v.BootShape)
    (hr : View.Resched 0 false ((Effect.kill hsmTask).apply 0 v) v') :
    Duel v' j (fun _ => False) ∧ v'.state hsmTask = some .terminated := by
  have hkilled := state_kill_hsm hshape
  have hterm : ((Effect.kill hsmTask).apply 0 v).state hsmTask = some .terminated := by
    rw [hkilled, View.state_setState, if_pos rfl, show v.state hsmTask = _ from hv.running]
    rfl
  have hother : ∀ {n : Fin MAX_PARTITIONS}, n ≠ 4 →
      ((Effect.kill hsmTask).apply 0 v).state (0, n) = v.state (0, n) := by
    intro n hn
    rw [hkilled, View.state_setState, if_neg (ne_hsmTask hn)]
  have hready : ∀ n, ((Effect.kill hsmTask).apply 0 v).state (0, n) = some .ready ↔ n = j := by
    intro n
    by_cases hn : n = 4
    · subst hn
      have hrun := hv.running
      rw [show ((Effect.kill hsmTask).apply 0 v).state (0, 4) = _ from hterm, ← hv.ready, hrun]
      simp
    · rw [hother hn, hv.ready]
  have hcurrent : ((Effect.kill hsmTask).apply 0 v).current 0 = 4 :=
    (congrFun (Effect.apply_shape 0 v (.kill hsmTask)).current 0).trans hv.current
  obtain ⟨hcurrent', hrun, hready'⟩ := resched_unique hcurrent hready hr
  refine ⟨⟨hcurrent', hrun, fun n => ?_, ?_⟩, ?_⟩
  · rw [hready', show ((Effect.kill hsmTask).apply 0 v).state (0, 4) = _ from hterm]
    simp
  · exact (hr.state_iff (by simp) (by simp)).mpr ((hother (by decide)).trans hv.sender)
  · exact (hr.state_iff (by simp) (by simp)).mpr hterm

/-- HSM Task is restarted. -/
theorem Duel.restarted (hv : Duel v i (fun _ => False)) (hterm : v.state hsmTask = some .terminated) :
    Duel (v.setState hsmTask .ready) i (· = 4) := by
  have hi : (0, i) ≠ hsmTask := by
    intro he
    rw [← he, hv.running] at hterm
    cases hterm
  refine ⟨hv.current, ?_, fun n => ?_, ?_⟩
  · rw [View.state_setState, if_neg hi]
    exact hv.running
  · rw [View.state_setState]
    by_cases hn : n = 4
    · subst hn
      rw [if_pos (show (0, 4) = hsmTask from rfl), hterm]
      simp
    · rw [if_neg (ne_hsmTask hn), hv.ready]
      simp [hn]
  · rw [View.state_setState, if_neg (by decide)]
    exact hv.sender

end Views

/-! ## The steps of a round -/

section Steps
variable {P : Platform} {s : System} {d : Word}

theorem relock_held {h : Hart} {l : Spinlock} (hd : d ≠ 0#32)
    (hl : (Spinlock.mk (some h) d).lock h = some l) : l.unlock = ⟨some h, d⟩ :=
  (unlock_lock_iff hl).mpr ⟨fun _ => hd, fun hno => by cases hno⟩

/-- A rendezvous that is not permitted faults, if the lock is there. -/
theorem copyFault_of_plan {k : Kernel} (hk : Sound k) {h : Hart} {t : Trap} {l : Spinlock}
    (hl : k.schedLock.lock h = some l) (hno : ¬ PlanPermitted P k h (transferPlan k h t)) :
    ∃ cause kf, trapHandler P h t k = .error (.copyFault cause kf) := by
  have hnone : transferPlan k h t ≠ none := by
    intro hp
    rw [hp] at hno
    exact hno fun p hp => by cases hp
  have hecall : t.mcause = ECALL_UMODE := by
    by_contra hne
    exact hnone (transferPlan_of_ne hne)
  have hr := trap_result (P := P) (h := h) hk (t := t) (Or.inr (Or.inr (Or.inl hecall)))
  generalize trapHandler P h t k = o at hr
  cases hr with
  | runs _ _ hr =>
    cases hr with
    | returns _ _ _ _ hcopies => exact absurd hcopies hno
    | notOwner he =>
      obtain ⟨-, hid, -⟩ := effect_eq_release.mp he
      refine absurd ?_ hnone
      rw [transferPlan, if_pos hecall, hid]
      rfl
    | copyFault => exact ⟨_, _, rfl⟩
  | spins _ hspin =>
    rw [hl] at hspin
    cases hspin
  | lockFree _ _ hp => exact absurd hp hnone

/-- The running task of hart 0 yields. -/
theorem Duel.yield_step {t : Trap} {m : Memory} {i j : Fin MAX_PARTITIONS} (hs : SysInv s) (hd : d ≠ 0#32)
    (hl : s.kernel.schedLock = ⟨some 0, d⟩) (hv : Duel (view s.kernel) i (· = j))
    (hecall : t.mcause = ECALL_UMODE) (hid : (s.kernel.setMem m).readFrame t.userSp 13 = 1#32) :
    ∃ s', Step P s (.trap 0 t m) s' ∧ s'.inPass = s.inPass ∧ s'.kernel.schedLock = ⟨some 0, d⟩ ∧
      Duel (view s'.kernel) j (· = i) := by
  have hk := hs.sound m
  have hcompletes : Completes P 0 t (s.kernel.setMem m) := by
    refine (completes_iff hk).1.mpr ⟨Or.inr (Or.inr (Or.inl hecall)), fun _ h4 => ?_,
      fun _ => Or.inr (congrArg Spinlock.owner hl), fun p hp => ?_⟩
    · rw [hid] at h4
      cases h4
    · rw [transferPlan, if_pos hecall, hid] at hp
      cases hp
  obtain ⟨⟨sp, k'⟩, hok⟩ := hcompletes
  have heff : effect (s.kernel.setMem m) 0 t = .resched := by
    rw [effect_of_ecall hecall, ecallEffect, hid]
    rfl
  have htakes : TakesLock (s.kernel.setMem m) t := by
    rw [TakesLock, if_pos hecall, hid]
    decide
  obtain ⟨l, hl', hafter⟩ := schedLock_of_ok hk htakes hok
  refine ⟨_, step_of_ok hok, rfl, ?_, ?_⟩
  · rw [hafter]
    refine relock_held hd ?_
    rw [← hl]
    exact hl'
  · have hleads := (effectStep_of_ok hk hok).1.leads
    rw [heff] at hleads
    exact hv.yields hleads

/-- A receive of HSM Task finds Task A. -/
theorem Duel.recvPlan_eq {k : Kernel} (hv : Duel (view k) 4 (· = 0)) (hshape : (view k).BootShape)
    (bufAddr : Word) :
    ∃ p, recvPlan k 0 0#32 bufAddr 1#32 = some p ∧ p.src = 0#32 ∧ p.len = 1#32 := by
  have hgrant : granted k 0 0#32 recvRight = .ok (some 2#8) := by
    have hstatic : ((k.scheds 0).taskTable 4).map static = bootStatic hsmTask :=
      congrFun hshape.static hsmTask
    obtain ⟨tcb, htcb, hcaps⟩ := Option.map_eq_some_iff.mp hstatic
    have hcap : tcb.capabilities = cList hsmSpec.capabilities := congrArg Static.capabilities hcaps
    have hcurrent : k.current 0 = 4 := hv.current
    rw [granted, dif_pos (by decide), hcurrent]
    simp only [htcb, hcap]
    rfl
  have hf : findPartner (waitingSender 2#8) k = some (0, 1, 0#32, 1#32) := by
    have hwatchdog : k.stateOf 0 0 = some .ready := (hv.ready 0).mpr rfl
    have hsender : k.stateOf 0 1 = some (.blockedOnIpcSend 2#8 0#32 1#32) := hv.sender
    rw [findPartner, show slots = (0, 0) :: (0, 1) :: slots.drop 2 from rfl, List.findSome?_cons,
      List.findSome?_cons, hwatchdog, hsender]
    rfl
  simp only [recvPlan, hgrant, hf, Option.map_some]
  exact ⟨_, rfl, rfl, rfl⟩

/-- The receive of HSM Task faults: the message lies where nothing is mapped. One hold of `SCHED_LOCK`
is left behind, and the Watchdog runs. -/
theorem Duel.leak_step {t : Trap} {m : Memory} (hnull : P.mapped 0#32 = false) (hs : SysInv s)
    (hd : d ≠ 0#32) (hl : s.kernel.schedLock.lock 0 = some ⟨some 0, d⟩)
    (hv : Duel (view s.kernel) 4 (· = 0)) (hecall : t.mcause = ECALL_UMODE)
    (hid : (s.kernel.setMem m).readFrame t.userSp 13 = 7#32)
    (hcap : (s.kernel.setMem m).readFrame t.userSp 6 = 0#32)
    (hmax : (s.kernel.setMem m).readFrame t.userSp 8 = 1#32) :
    ∃ ev s', Step P s ev s' ∧ s'.inPass = s.inPass ∧ s'.kernel.schedLock = ⟨some 0, d⟩ ∧
      Duel (view s'.kernel) 0 (fun _ => False) ∧ (view s'.kernel).state hsmTask = some .terminated := by
  have hk := hs.sound m
  have hno : ¬ PlanPermitted P (s.kernel.setMem m) 0 (transferPlan (s.kernel.setMem m) 0 t) := by
    obtain ⟨p, hp, hsrc, hlen⟩ := Duel.recvPlan_eq (k := s.kernel.setMem m) hv hs.shape
      ((s.kernel.setMem m).readFrame t.userSp 7)
    have hplan : transferPlan (s.kernel.setMem m) 0 t = some p := by
      rw [transferPlan, if_pos hecall, hid, hcap, hmax]
      exact hp
    intro hperm
    have hread := (hperm p hplan 0 (by rw [hlen]; decide)).1
    rw [hsrc] at hread
    simp [hnull] at hread
  obtain ⟨cause, kf, hf⟩ := copyFault_of_plan hk hl hno
  obtain ⟨-, -, -, hlf, -⟩ := of_copyFault hk hf
  obtain ⟨hkf, hcause, hview, -⟩ := hs.nested hf m
  have hkl : kf.schedLock = ⟨some 0, d⟩ := Option.some.inj (hlf.symm.trans hl)
  -- the trap of the fault terminates HSM Task
  have hcompletes : Completes P 0 ⟨cause, t.userSp, 0⟩ (kf.setMem m) := by
    refine (completes_iff hkf).1.mpr ⟨?_, ?_, fun _ => Or.inr (congrArg Spinlock.owner hkl), ?_⟩
    · rcases hcause with rfl | rfl
      · exact (by decide : HandledCause 5#32)
      · exact (by decide : HandledCause 7#32)
    · intro he
      rcases hcause with rfl | rfl <;> cases he
    · rw [transferPlan_of_fault hcause]
      exact fun p hp => by cases hp
  obtain ⟨⟨sp, k'⟩, hok⟩ := hcompletes
  obtain ⟨l, hl', hafter⟩ := schedLock_of_ok hkf (takesLock_of_fault hcause) hok
  refine ⟨_, _, step_of_copyFault hf rfl hok, rfl, ?_, ?_⟩
  · rw [hafter]
    refine relock_held hd ?_
    rw [← hkl]
    exact hl'
  · have hleads := (effectStep_of_ok hkf hok).1.leads
    have hcurrent : (kf.setMem m).current 0 = 4 :=
      (congrFun (congrArg View.current hview) 0).trans hv.current
    rw [effect_of_fault hcause, hcurrent, hview] at hleads
    exact hv.dies hs.shape (hleads.resched_of_kill (by rw [View.running, hv.current]))

theorem watchdogLock_step (hruns : watchdogRuns s.kernel) (hpass : s.inPass = false)
    (hl : s.kernel.schedLock = ⟨some 0, d⟩) :
    ∃ s', Step P s .watchdogLock s' ∧ s'.inPass = true ∧ s'.kernel.schedLock = ⟨some 0, d + 1#32⟩ ∧
      view s'.kernel = view s.kernel := by
  have hlock : s.kernel.schedLock.lock 0 = some ⟨some 0, d + 1#32⟩ := by
    rw [hl, Spinlock.lock, if_pos rfl]
  refine ⟨⟨{ s.kernel with schedLock := ⟨some 0, d + 1#32⟩ }, true⟩, ?_, rfl, rfl, rfl⟩
  unfold Step System.next
  dsimp only
  rw [if_pos ⟨hruns, hpass⟩, hlock]
  rfl

theorem watchdogRestartHsm_step (hruns : watchdogRuns s.kernel) (hpass : s.inPass = true)
    (hterm : (view s.kernel).state hsmTask = some .terminated) :
    ∃ s', Step P s .watchdogRestartHsm s' ∧ s'.inPass = true ∧ s'.kernel.schedLock = s.kernel.schedLock ∧
      view s'.kernel = (view s.kernel).setState hsmTask .ready := by
  have hrestart : restartHsm P s.kernel = restart P .hsm 0 4 s.kernel := if_pos hterm
  refine ⟨{ s with kernel := restartHsm P s.kernel }, if_pos ⟨hruns, hpass⟩, hpass,
    (restartHsm_step P s.kernel).2.1.1, ?_⟩
  dsimp only
  rw [hrestart]
  exact view_restart P .hsm 0 4 s.kernel

theorem watchdogUnlock_step (hruns : watchdogRuns s.kernel) (hpass : s.inPass = true) (hd : d ≠ 0#32)
    (hl : s.kernel.schedLock = ⟨some 0, d + 1#32⟩) :
    ∃ s', Step P s .watchdogUnlock s' ∧ s'.inPass = false ∧ s'.kernel.schedLock = ⟨some 0, d⟩ ∧
      view s'.kernel = view s.kernel := by
  refine ⟨⟨{ s.kernel with schedLock := s.kernel.schedLock.unlock }, false⟩, if_pos ⟨hruns, hpass⟩, rfl,
    ?_, rfl⟩
  dsimp only
  rw [hl]
  exact relock_held hd (if_pos rfl)

/-- The Watchdog restarts HSM Task in a pass and yields to it; the holds left behind stay. -/
theorem Duel.restart_run (hs : SysInv s) (hd : d ≠ 0#32) (hl : s.kernel.schedLock = ⟨some 0, d⟩)
    (hpass : s.inPass = false) (hv : Duel (view s.kernel) 0 (fun _ => False))
    (hterm : (view s.kernel).state hsmTask = some .terminated) :
    ∃ es s', Run (Step P) s es s' ∧ s'.inPass = false ∧ s'.kernel.schedLock = ⟨some 0, d⟩ ∧
      Duel (view s'.kernel) 4 (· = 0) := by
  obtain ⟨s1, hstep1, hpass1, hl1, hv1⟩ := watchdogLock_step (P := P) hv.current hpass hl
  have hduel1 : Duel (view s1.kernel) 0 (fun _ => False) := hv1 ▸ hv
  obtain ⟨s2, hstep2, hpass2, hl2, hv2⟩ := watchdogRestartHsm_step (P := P) hduel1.current hpass1
    (hv1 ▸ hterm)
  have hduel2 : Duel (view s2.kernel) 0 (· = 4) := by
    rw [hv2]
    exact hduel1.restarted (hv1 ▸ hterm)
  obtain ⟨s3, hstep3, hpass3, hl3, hv3⟩ := watchdogUnlock_step (P := P) hduel2.current hpass2 hd
    (hl2.trans hl1)
  have hduel3 : Duel (view s3.kernel) 0 (· = 4) := hv3 ▸ hduel2
  have hinv := sysInv_step _ _ _ (sysInv_step _ _ _ (sysInv_step _ _ _ hs hstep1) hstep2) hstep3
  obtain ⟨s4, hstep4, hpass4, hl4, hv4⟩ := Duel.yield_step (P := P)
    (t := ⟨ECALL_UMODE, 0x3FC82400, 0⟩) (m := syscallFrame 0x3FC82400 1 0 0 0) hinv hd hl3 hduel3 rfl (by
      show (syscallFrame 0x3FC82400 1 0 0 0).readWord _ = _
      decide +kernel)
  refine ⟨[.watchdogLock, .watchdogRestartHsm, .watchdogUnlock, syscall 0 1 0 0 0], s4, ?_,
    hpass4.trans hpass3, hl4, hv4⟩
  exact ⟨s1, hstep1, s2, hstep2, s3, hstep3, s4, hstep4, rfl⟩

end Steps

/-! ## Every hold count -/

/-- The Watchdog yields to Task A, which terminates the idle task and sends to HSM Task. -/
def duelBegins : List Event := [syscall 0 1 0 0 0, syscall 0 8 31 0 0, syscall 0 6 2 0 1]

theorem duelBegins_run :
    ∃ s, Run (Step packedPlatform) bootSystem duelBegins s ∧ s.inPass = false ∧
      s.kernel.schedLock = Spinlock.new ∧ Duel (view s.kernel) 4 (· = 0) := by
  obtain ⟨s, hrun, hf⟩ := run_of_eval packedPlatform bootSystem duelBegins
    (fun s => decide (s.inPass = false ∧ s.kernel.schedLock = Spinlock.new ∧ s.kernel.current 0 = 4 ∧
      s.kernel.stateOf 0 4 = some .running ∧ (∀ n, s.kernel.stateOf 0 n = some .ready ↔ n = 0) ∧
      s.kernel.stateOf 0 1 = some (.blockedOnIpcSend 2#8 0#32 1#32))) true (by decide +kernel)
  obtain ⟨hpass, hl, hcurrent, hrunning, hready, hsender⟩ := of_decide_eq_true hf
  exact ⟨s, hrun, hpass, hl, hcurrent, hrunning, hready, hsender⟩

theorem ofNat_ne_zero {n : ℕ} (hpos : 0 < n) (hn : n < 2 ^ 32) : BitVec.ofNat 32 n ≠ 0#32 := by
  intro he
  have hval := congrArg BitVec.toNat he
  rw [BitVec.toNat_ofNat, Nat.mod_eq_of_lt hn, BitVec.toNat_zero] at hval
  omega

/-- The fault of a run in which HSM Task is about to receive. -/
theorem leak_run {es : List Event} {s : System} {d : Word}
    (hrun : Run (Step packedPlatform) bootSystem es s) (hpass : s.inPass = false)
    (hv : Duel (view s.kernel) 4 (· = 0)) (hd : d ≠ 0#32)
    (hl : s.kernel.schedLock.lock 0 = some ⟨some 0, d⟩) :
    ∃ es' s', Run (Step packedPlatform) bootSystem es' s' ∧ s'.inPass = false ∧
      s'.kernel.schedLock = ⟨some 0, d⟩ ∧ Duel (view s'.kernel) 0 (fun _ => False) ∧
      (view s'.kernel).state hsmTask = some .terminated := by
  have hreads : (syscallFrame 0x3FC82400 7 0 0 1).readWord (slot 0x3FC82400 13) = 7#32 ∧
      (syscallFrame 0x3FC82400 7 0 0 1).readWord (slot 0x3FC82400 6) = 0#32 ∧
      (syscallFrame 0x3FC82400 7 0 0 1).readWord (slot 0x3FC82400 8) = 1#32 := by
    decide +kernel
  obtain ⟨ev, s', hstep, hpass', hl', hv', hterm⟩ := Duel.leak_step (P := packedPlatform)
    (t := ⟨ECALL_UMODE, 0x3FC82400, 0⟩) (m := syscallFrame 0x3FC82400 7 0 0 1) (by decide)
    (sysInv_run bootSystem_initial hrun) hd hl hv rfl hreads.1 hreads.2.1 hreads.2.2
  exact ⟨es ++ [ev], s', hrun.append (.single hstep), hpass'.trans hpass, hl', hv', hterm⟩

/-- After `n + 1` rounds hart 0 holds `SCHED_LOCK` `n + 1` times, and the Watchdog finds HSM Task
terminated. -/
theorem holds_reached (n : ℕ) (hn : n + 1 < 2 ^ 32) :
    ∃ es s, Run (Step packedPlatform) bootSystem es s ∧ s.inPass = false ∧
      s.kernel.schedLock = ⟨some 0, BitVec.ofNat 32 (n + 1)⟩ ∧
      Duel (view s.kernel) 0 (fun _ => False) ∧ (view s.kernel).state hsmTask = some .terminated := by
  induction n with
  | zero =>
    obtain ⟨s, hrun, hpass, hl, hv⟩ := duelBegins_run
    refine leak_run hrun hpass hv (by decide) ?_
    rw [hl]
    rfl
  | succ n ih =>
    obtain ⟨es, s, hrun, hpass, hl, hv, hterm⟩ := ih (by omega)
    have hd : BitVec.ofNat 32 (n + 1) ≠ 0#32 := ofNat_ne_zero (by omega) (by omega)
    obtain ⟨es', s', hrun', hpass', hl', hv'⟩ := Duel.restart_run
      (sysInv_run bootSystem_initial hrun) hd hl hpass hv hterm
    refine leak_run (hrun.append hrun') hpass' hv' (ofNat_ne_zero (by omega) hn) ?_
    rw [hl', Spinlock.lock, if_pos rfl, BitVec.ofNat_add (n + 1) 1]

end Cerberus.Containment
