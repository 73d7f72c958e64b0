import Cerberus.Kernel.Footprint

/-! # Endpoints and the tasks that wait on them

Who may send and receive on an endpoint, which rendezvous a trap performs, and the invariant of the
recorded IPC states: a task waits on an endpoint only with the right to, and no endpoint has a waiting
sender and a waiting receiver at once. A task comes to wait in one way only, by a send or a receive
that found no partner. -/
namespace Cerberus.Ipc
open Kernel Scheduler Sync Transition
set_option autoImplicit false

/-! ## Rights -/

section Rights
variable (v : View) (x : TaskId)

/-- The C-list of `x` contains `Ipc { endpoint_idx: e, can_send: true, .. }`. -/
def MaySend (e : Byte) : Prop :=
  ∃ st c canRecv, v.static x = some st ∧ st.capabilities c = .ipc e true canRecv

/-- The C-list of `x` contains `Ipc { endpoint_idx: e, can_recv: true, .. }`. -/
def MayRecv (e : Byte) : Prop :=
  ∃ st c canSend, v.static x = some st ∧ st.capabilities c = .ipc e canSend true

/-- The C-list of `x` contains `Mutex { mutex_idx: i, can_lock: true, .. }`. -/
def MayLock (i : Fin 8) : Prop :=
  ∃ st c canUnlock, v.static x = some st ∧
    st.capabilities c = .mutex (BitVec.ofNat 8 i.val) true canUnlock

end Rights

theorem sendRight_eq_some {c : Capability} {e : Byte} :
    sendRight c = some e ↔ ∃ canRecv, c = .ipc e true canRecv := by
  cases c with
  | ipc e' canSend canRecv => cases canSend <;> simp [sendRight]
  | _ => simp [sendRight]

theorem recvRight_eq_some {c : Capability} {e : Byte} :
    recvRight c = some e ↔ ∃ canSend, c = .ipc e canSend true := by
  cases c with
  | ipc e' canSend canRecv => cases canRecv <;> simp [recvRight]
  | _ => simp [recvRight]

section Granted
variable {k : Kernel} {h : Hart} {capIdx : Word} {e : Byte}

theorem maySend_of_granted (hk : Sound k) (hg : granted k h capIdx sendRight = .ok (some e)) :
    MaySend (view k) ((view k).running h) e := by
  obtain ⟨r, hr, hright⟩ := granted_eq hk h capIdx sendRight
  rw [hg] at hr
  obtain ⟨st, c, hst, hc⟩ := hright e (Except.ok.inj hr).symm
  obtain ⟨canRecv, hcap⟩ := sendRight_eq_some.mp hc
  exact ⟨st, c, canRecv, hst, hcap⟩

theorem mayRecv_of_granted (hk : Sound k) (hg : granted k h capIdx recvRight = .ok (some e)) :
    MayRecv (view k) ((view k).running h) e := by
  obtain ⟨r, hr, hright⟩ := granted_eq hk h capIdx recvRight
  rw [hg] at hr
  obtain ⟨st, c, hst, hc⟩ := hright e (Except.ok.inj hr).symm
  obtain ⟨canSend, hcap⟩ := recvRight_eq_some.mp hc
  exact ⟨st, c, canSend, hst, hcap⟩

end Granted

/-! ## The rendezvous of a trap -/

/-- The two sides of a rendezvous on `e`: the caller and the task `y` recorded as blocked on the
opposite side, with the recorded address. -/
inductive Opposite (v : View) (caller : TaskId) (e : Byte) (p : Plan) (y : TaskId) : Prop where
  | sends {maxLen : Word} (hsender : p.sender = caller) (hreceiver : p.receiver = y)
      (hmay : MaySend v caller e) (hy : v.state y = some (.blockedOnIpcRecv e p.dst maxLen))
  | receives {msgLen : Word} (hsender : p.sender = y) (hreceiver : p.receiver = caller)
      (hmay : MayRecv v caller e) (hy : v.state y = some (.blockedOnIpcSend e p.src msgLen))

theorem waitingReceiver_eq_some {e : Byte} {st : TaskState} {a : Word × Word} :
    waitingReceiver e st = some a ↔ st = .blockedOnIpcRecv e a.1 a.2 := by
  obtain ⟨bufAddr, maxLen⟩ := a
  cases st with
  | blockedOnIpcRecv e' b n =>
    by_cases he : e' = e
    · simp [waitingReceiver, he]
    · simp [waitingReceiver, he]
  | _ => simp [waitingReceiver]

theorem waitingSender_eq_some {e : Byte} {st : TaskState} {a : Word × Word} :
    waitingSender e st = some a ↔ st = .blockedOnIpcSend e a.1 a.2 := by
  obtain ⟨msgAddr, msgLen⟩ := a
  cases st with
  | blockedOnIpcSend e' b n =>
    by_cases he : e' = e
    · simp [waitingSender, he]
    · simp [waitingSender, he]
  | _ => simp [waitingSender]

theorem mem_slots (x : TaskId) : x ∈ slots := by
  obtain ⟨h, i⟩ := x
  simp only [slots, List.mem_flatMap, List.mem_map, List.mem_finRange, true_and]
  refine ⟨h, ?_, i, rfl⟩
  fin_cases h <;> simp

/-- No partner is found only if no slot of either core has one. -/
theorem findPartner_eq_none {α : Type} {want : TaskState → Option α} {k : Kernel}
    (hf : findPartner want k = none) {x : TaskId} {st : TaskState}
    (hx : (view k).state x = some st) : want st = none := by
  have hnone := List.findSome?_eq_none_iff.mp hf x (mem_slots x)
  have hx' : k.stateOf x.1 x.2 = some st := hx
  simpa [hx'] using hnone

/-- A rendezvous on `e` with both ranges of bytes: the caller names its own by `a1` and `a2`, that of
the waiting side is recorded in its state. -/
inductive Meeting (k : Kernel) (h : Hart) (t : Trap) (e : Byte) (p : Plan) : TaskId → Prop where
  | sends {maxLen : Word} (hid : (k.readFrame t.userSp 13).toNat = 6)
      (hsender : p.sender = (view k).running h) (hmay : MaySend (view k) ((view k).running h) e)
      (hsrc : p.src = k.readFrame t.userSp 7) (hlen : p.len.toNat ≤ (k.readFrame t.userSp 8).toNat)
      (hy : (view k).state p.receiver = some (.blockedOnIpcRecv e p.dst maxLen))
      (hmax : p.len.toNat ≤ maxLen.toNat) : Meeting k h t e p p.receiver
  | receives {msgLen : Word} (hid : (k.readFrame t.userSp 13).toNat = 7)
      (hreceiver : p.receiver = (view k).running h) (hmay : MayRecv (view k) ((view k).running h) e)
      (hdst : p.dst = k.readFrame t.userSp 7) (hmax : p.len.toNat ≤ (k.readFrame t.userSp 8).toNat)
      (hy : (view k).state p.sender = some (.blockedOnIpcSend e p.src msgLen))
      (hlen : p.len.toNat ≤ msgLen.toNat) : Meeting k h t e p p.sender

theorem transferLen_le (msgLen maxLen : Word) :
    (transferLen msgLen maxLen).toNat ≤ msgLen.toNat ∧
      (transferLen msgLen maxLen).toNat ≤ maxLen.toNat := by
  unfold transferLen
  split
  · rename_i hle
    rw [BitVec.le_def] at hle
    exact ⟨le_rfl, hle⟩
  · rename_i hle
    rw [BitVec.le_def] at hle
    exact ⟨by omega, le_rfl⟩

theorem transferPlan_meeting {k : Kernel} (hk : Sound k) {h : Hart} {t : Trap} {p : Plan}
    (hp : transferPlan k h t = some p) :
    ∃ e y, t.mcause = ECALL_UMODE ∧ transferEndpoint k h t = some e ∧ effect k h t = .transfer y ∧
      Meeting k h t e p y := by
  unfold transferPlan at hp
  split at hp
  · rename_i hecall
    rw [effect_of_ecall hecall, transferEndpoint, if_pos hecall]
    unfold ecallEffect
    dsimp only
    split at hp
    · rename_i hid
      simp only [hid]
      unfold sendPlan at hp
      split at hp
      · rename_i e hg
        obtain ⟨⟨ph, pi, bufAddr, maxLen⟩, hf, rfl⟩ := Option.map_eq_some_iff.mp hp
        obtain ⟨st, hst, hwant⟩ := findPartner_state hf
        rw [waitingReceiver_eq_some.mp hwant] at hst
        obtain ⟨hlen, hmax⟩ := transferLen_le (k.readFrame t.userSp 8) maxLen
        refine ⟨e, (ph, pi), hecall, by rw [hg]; rfl, by simp only [ipcEffect, hg, hf], ?_⟩
        exact .sends hid rfl (maySend_of_granted hk hg) rfl hlen hst hmax
      · cases hp
    · rename_i hid
      simp only [hid]
      unfold recvPlan at hp
      split at hp
      · rename_i e hg
        obtain ⟨⟨ph, pi, msgAddr, msgLen⟩, hf, rfl⟩ := Option.map_eq_some_iff.mp hp
        obtain ⟨st, hst, hwant⟩ := findPartner_state hf
        rw [waitingSender_eq_some.mp hwant] at hst
        obtain ⟨hlen, hmax⟩ := transferLen_le msgLen (k.readFrame t.userSp 8)
        refine ⟨e, (ph, pi), hecall, by rw [hg]; rfl, by simp only [ipcEffect, hg, hf], ?_⟩
        exact .receives hid rfl (mayRecv_of_granted hk hg) rfl hmax hst hlen
      · cases hp
    · cases hp
  · cases hp

theorem transferPlan_spec {k : Kernel} (hk : Sound k) {h : Hart} {t : Trap} {p : Plan}
    (hp : transferPlan k h t = some p) :
    ∃ e y, transferEndpoint k h t = some e ∧ effect k h t = .transfer y ∧
      Opposite (view k) ((view k).running h) e p y := by
  obtain ⟨e, y, -, he, heff, hmeet⟩ := transferPlan_meeting hk hp
  refine ⟨e, y, he, heff, ?_⟩
  cases hmeet with
  | sends _ hsender hmay _ _ hy _ => exact .sends hsender rfl hmay hy
  | receives _ hreceiver hmay _ _ hy _ => exact .receives rfl hreceiver hmay hy

/-! ## How a task comes to wait -/

def IsBlocked : TaskState → Prop
  | .blocked _ => True
  | .blockedOnMutex _ => True
  | .blockedOnIpcSend _ _ _ => True
  | .blockedOnIpcRecv _ _ _ => True
  | _ => False

theorem isBlocked_of_waits {st : TaskState} (hw : WaitsForPartner st) : IsBlocked st := by
  cases st <;> first | exact hw.elim | trivial

section Waits
variable {v v' : View} {h : Hart} {x : TaskId} {st : TaskState}

theorem IsBlocked.ne_ready (hw : IsBlocked st) : st ≠ .ready := by
  rintro rfl
  exact hw

theorem IsBlocked.ne_running (hw : IsBlocked st) : st ≠ .running := by
  rintro rfl
  exact hw

theorem IsBlocked.ne_terminated (hw : IsBlocked st) : st ≠ .terminated := by
  rintro rfl
  exact hw

theorem state_of_apply {e : Effect} (hvalid : e.Valid h v) (hw : IsBlocked st)
    (hx : (e.apply h v).state x = some st) :
    v.state x = some st ∨ (x = v.running h ∧
      (e = .block st ∨ ∃ i, e = .wait i ∧ st = .blockedOnMutex (BitVec.ofNat 8 i.val))) := by
  cases e with
  | none => exact Or.inl hx
  | tick now =>
    exact Or.inl (View.state_of_wake hw.ne_ready hx)
  | resched => exact Or.inl hx
  | block st' =>
    simp only [Effect.apply] at hx
    rw [View.state_setState] at hx
    split at hx
    · rename_i hxr
      obtain ⟨_, -, rfl⟩ := Option.map_eq_some_iff.mp hx
      exact Or.inr ⟨hxr, Or.inl rfl⟩
    · exact Or.inl hx
  | grant i =>
    obtain ⟨⟨m, hm, -⟩, -⟩ := hvalid
    simp only [Effect.apply, hm] at hx
    exact Or.inl hx
  | wait i =>
    obtain ⟨⟨m, hm, -⟩, -⟩ := hvalid
    simp only [Effect.apply, hm] at hx
    have hset : (v.setState (v.running h) (.blockedOnMutex (BitVec.ofNat 8 i.val))).state x =
        some st := hx
    rw [View.state_setState] at hset
    split at hset
    · rename_i hxr
      obtain ⟨_, -, rfl⟩ := Option.map_eq_some_iff.mp hset
      exact Or.inr ⟨hxr, Or.inr ⟨i, rfl, rfl⟩⟩
    · exact Or.inl hset
  | release i => exact Or.inl (View.state_of_release hw.ne_ready hx)
  | transfer y => exact Or.inl (View.state_of_setState hw.ne_ready.symm hx)
  | kill y =>
    have hkeep : ((v.setState y .terminated).recoverAll y.2).state x = some st →
        v.state x = some st :=
      View.recoverAll_induction (I := fun u => u.state x = some st → v.state x = some st)
        (fun u i hu _ hr => hu (View.state_of_release hw.ne_ready hr))
        fun hset => View.state_of_setState hw.ne_terminated.symm hset
    exact Or.inl (hkeep hx)

/-- A task that is blocked after a trap was blocked before it, or the trap blocked it. -/
theorem blocked_of_effectStep {e : Effect} (hstep : EffectStep h e v v') (hw : IsBlocked st)
    (hx : v'.state x = some st) : v.state x = some st ∨ (x = v.running h ∧
      (e = .block st ∨ ∃ i, e = .wait i ∧ st = .blockedOnMutex (BitVec.ofNat 8 i.val))) := by
  refine state_of_apply hstep.valid hw ?_
  rcases hstep.leads.cases with rfl | ⟨_, -, hr⟩
  · exact hx
  · exact (hr.state_iff hw.ne_ready hw.ne_running).mp hx

theorem blocked_of_step {k : Kernel} {ev : Event} (hstep : StepView k ev v') (hw : IsBlocked st)
    (hx : v'.state x = some st) : (view k).state x = some st ∨
      ∃ h e, ev.effect k = some (h, e) ∧ x = (view k).running h ∧
        (e = .block st ∨ ∃ i, e = .wait i ∧ st = .blockedOnMutex (BitVec.ofNat 8 i.val)) := by
  cases hstep with
  | @effect h e hev hstep =>
    rcases blocked_of_effectStep hstep hw hx with hold | ⟨hrun, he⟩
    · exact Or.inl hold
    · exact Or.inr ⟨h, e, hev, hrun, he⟩
  | restart _ _ _ hv =>
    rw [hv] at hx
    exact Or.inl (View.state_of_setState hw.ne_ready.symm hx)
  | skip _ _ hv =>
    rw [hv] at hx
    exact Or.inl hx

theorem waits_of_step {k : Kernel} {ev : Event} (hstep : StepView k ev v')
    (hw : WaitsForPartner st) (hx : v'.state x = some st) :
    (view k).state x = some st ∨
      ∃ h, ev.effect k = some (h, .block st) ∧ x = (view k).running h := by
  rcases blocked_of_step hstep (isBlocked_of_waits hw) hx with
    hold | ⟨h, e, hev, hrun, rfl | ⟨i, -, rfl⟩⟩
  · exact Or.inl hold
  · exact Or.inr ⟨h, hev, hrun⟩
  · exact hw.elim

end Waits

section Blocks
variable {k : Kernel} {h : Hart} {t : Trap} {e : Byte} {a l : Word}

/-- What an environment call can do, with the checks it has passed. -/
inductive EcallEffect (k : Kernel) (h : Hart) (t : Trap) : Effect → Prop where
  | none : EcallEffect k h t .none
  | resched : EcallEffect k h t .resched
  | sleep (wakeTick : Word) : EcallEffect k h t (.block (.blocked wakeTick))
  | grant (i : Fin 8) : EcallEffect k h t (.grant i)
  | wait (i : Fin 8) : EcallEffect k h t (.wait i)
  | release (i : Fin 8) : EcallEffect k h t (.release i)
  | blockSend {e : Byte} {capIdx : Word} (a l : Word)
      (hg : granted k h capIdx sendRight = .ok (some e))
      (hf : findPartner (waitingReceiver e) k = Option.none) :
      EcallEffect k h t (.block (.blockedOnIpcSend e a l))
  | blockRecv {e : Byte} {capIdx : Word} (a l : Word)
      (hg : granted k h capIdx recvRight = .ok (some e))
      (hf : findPartner (waitingSender e) k = Option.none) :
      EcallEffect k h t (.block (.blockedOnIpcRecv e a l))
  | transfer {y : TaskId} {p : Plan} (hp : transferPlan k h t = some p) :
      EcallEffect k h t (.transfer y)
  | kill {x : TaskId} (hid : (k.readFrame t.userSp 13).toNat = 8)
      (hf : findTask k (k.readFrame t.userSp 6) = some x) : EcallEffect k h t (.kill x)

theorem lockEffect_cases (capIdx : Word) : EcallEffect k h t (lockEffect k h capIdx) := by
  unfold lockEffect
  split
  · split
    · exact .grant _
    · exact .wait _
  · exact .none

theorem unlockEffect_cases (capIdx : Word) : EcallEffect k h t (unlockEffect k h capIdx) := by
  unfold unlockEffect
  split
  · exact .release _
  · exact .none

theorem ecall_cases (hecall : t.mcause = ECALL_UMODE) : EcallEffect k h t (effect k h t) := by
  have hplan : ∀ p? : Option Plan, transferPlan k h t = p? → p?.isSome → ∀ y,
      EcallEffect k h t (.transfer y) := by
    intro p? hp hsome y
    obtain ⟨p, rfl⟩ := Option.isSome_iff_exists.mp hsome
    exact .transfer hp
  rw [effect_of_ecall hecall]
  unfold ecallEffect
  unfold transferPlan at hplan
  rw [if_pos hecall] at hplan
  dsimp only
  split
  · exact .resched
  · exact .sleep _
  · exact lockEffect_cases _
  · exact unlockEffect_cases _
  · rename_i hid
    unfold ipcEffect
    split
    · rename_i e hg
      split
      · rename_i hf
        refine hplan _ rfl ?_ _
        simp only [hid, sendPlan, hg, hf]
        rfl
      · rename_i hf
        exact .blockSend _ _ hg hf
    · exact .none
  · rename_i hid
    unfold ipcEffect
    split
    · rename_i e hg
      split
      · rename_i hf
        refine hplan _ rfl ?_ _
        simp only [hid, recvPlan, hg, hf]
        rfl
      · rename_i hf
        exact .blockRecv _ _ hg hf
    · exact .none
  · rename_i hid
    split
    · rename_i hf
      exact .kill hid hf
    · exact .none
  · exact .none

theorem ecall_of_block {st : TaskState} (heff : effect k h t = .block st) :
    t.mcause = ECALL_UMODE := by
  by_contra hne
  unfold effect at heff
  rw [if_neg hne] at heff
  split at heff
  · cases heff
  · split at heff
    · cases heff
    · split at heff <;> cases heff

theorem lockEffect_ne_block (capIdx : Word) (st : TaskState) : lockEffect k h capIdx ≠ .block st := by
  unfold lockEffect
  split
  · split <;> exact fun he => by cases he
  · exact fun he => by cases he

theorem unlockEffect_ne_block (capIdx : Word) (st : TaskState) :
    unlockEffect k h capIdx ≠ .block st := by
  unfold unlockEffect
  split <;> exact fun he => by cases he

theorem block_of_ipcEffect {α : Type} {capIdx : Word} {right : Capability → Option Byte}
    {want : Byte → TaskState → Option α} {st : Byte → TaskState} {st' : TaskState}
    (heff : ipcEffect k h capIdx right want st = .block st') : ∃ e, st' = st e := by
  unfold ipcEffect at heff
  split at heff
  · split at heff
    · cases heff
    · exact ⟨_, (Effect.block.inj heff).symm⟩
  · cases heff

/-- A caller comes to wait for a partner by a send or a receive that is granted and finds none. -/
theorem block_cases {st : TaskState} (hw : WaitsForPartner st) (heff : effect k h t = .block st) :
    (∃ e a l capIdx, st = .blockedOnIpcSend e a l ∧ granted k h capIdx sendRight = .ok (some e) ∧
      findPartner (waitingReceiver e) k = none) ∨
    (∃ e a l capIdx, st = .blockedOnIpcRecv e a l ∧ granted k h capIdx recvRight = .ok (some e) ∧
      findPartner (waitingSender e) k = none) := by
  have hcases := ecall_cases (k := k) (h := h) (ecall_of_block heff)
  rw [heff] at hcases
  cases hcases with
  | sleep => exact hw.elim
  | blockSend a l hg hf => exact Or.inl ⟨_, a, l, _, rfl, hg, hf⟩
  | blockRecv a l hg hf => exact Or.inr ⟨_, a, l, _, rfl, hg, hf⟩

/-- The call that blocks, with the range of bytes it records. -/
theorem block_call {st : TaskState} (hw : WaitsForPartner st) (heff : effect k h t = .block st) :
    t.mcause = ECALL_UMODE ∧
      (((k.readFrame t.userSp 13).toNat = 6 ∧ ∃ e, st = .blockedOnIpcSend e (k.readFrame t.userSp 7)
        (k.readFrame t.userSp 8)) ∨
      ((k.readFrame t.userSp 13).toNat = 7 ∧ ∃ e, st = .blockedOnIpcRecv e (k.readFrame t.userSp 7)
        (k.readFrame t.userSp 8))) := by
  have hecall := ecall_of_block heff
  refine ⟨hecall, ?_⟩
  rw [effect_of_ecall hecall] at heff
  unfold ecallEffect at heff
  dsimp only at heff
  split at heff
  · cases heff
  · rw [← Effect.block.inj heff] at hw
    exact hw.elim
  · exact absurd heff (lockEffect_ne_block _ _)
  · exact absurd heff (unlockEffect_ne_block _ _)
  · rename_i hid
    obtain ⟨e, rfl⟩ := block_of_ipcEffect heff
    exact Or.inl ⟨hid, e, rfl⟩
  · rename_i hid
    obtain ⟨e, rfl⟩ := block_of_ipcEffect heff
    exact Or.inr ⟨hid, e, rfl⟩
  · split at heff <;> cases heff
  · cases heff

/-- What a send has checked when it blocks: the right to send, and that nobody waits to receive. -/
theorem block_send (hk : Sound k) (heff : effect k h t = .block (.blockedOnIpcSend e a l)) :
    MaySend (view k) ((view k).running h) e ∧
      ∀ x b n, (view k).state x ≠ some (.blockedOnIpcRecv e b n) := by
  have hw : WaitsForPartner (.blockedOnIpcSend e a l) := trivial
  rcases block_cases hw heff with ⟨_, _, _, capIdx, hst, hg, hf⟩ | ⟨_, _, _, _, hst, -, -⟩
  · cases hst
    refine ⟨maySend_of_granted hk hg, fun x b n hx => ?_⟩
    have hnone := findPartner_eq_none hf hx
    simp [waitingReceiver] at hnone
  · cases hst

theorem block_recv (hk : Sound k) (heff : effect k h t = .block (.blockedOnIpcRecv e a l)) :
    MayRecv (view k) ((view k).running h) e ∧
      ∀ x b n, (view k).state x ≠ some (.blockedOnIpcSend e b n) := by
  have hw : WaitsForPartner (.blockedOnIpcRecv e a l) := trivial
  rcases block_cases hw heff with ⟨_, _, _, _, hst, -, -⟩ | ⟨_, _, _, capIdx, hst, hg, hf⟩
  · cases hst
  · cases hst
    refine ⟨mayRecv_of_granted hk hg, fun x b n hx => ?_⟩
    have hnone := findPartner_eq_none hf hx
    simp [waitingSender] at hnone

end Blocks

/-! ## The invariant -/

/-- The recorded IPC states: a task waits only where its C-list lets it, and no endpoint has waiting
tasks on both sides. -/
structure IpcInv (v : View) : Prop where
  senders : ∀ x e a l, v.state x = some (.blockedOnIpcSend e a l) → MaySend v x e
  receivers : ∀ x e a l, v.state x = some (.blockedOnIpcRecv e a l) → MayRecv v x e
  unpaired : ∀ x y e a l b n, v.state x = some (.blockedOnIpcSend e a l) →
    v.state y ≠ some (.blockedOnIpcRecv e b n)

theorem StepView.static {k : Kernel} {ev : Event} {v' : View} (hstep : StepView k ev v') :
    v'.static = (view k).static := by
  cases hstep with
  | effect _ hstep => exact hstep.leads.static
  | restart _ _ _ hv =>
    rw [hv]
    rfl
  | skip _ _ hv => rw [hv]

theorem ipcInv_boot : IpcInv bootView := by
  have hno : ∀ x st, bootView.state x = some st → ¬ WaitsForPartner st := by
    intro x st hx
    obtain ⟨_, -, hst⟩ := Option.map_eq_some_iff.mp hx
    split at hst <;> (rw [← hst]; exact id)
  exact ⟨fun x _ _ _ hx => (hno x _ hx trivial).elim, fun x _ _ _ hx => (hno x _ hx trivial).elim,
    fun x _ _ _ _ _ _ hx => (hno x _ hx trivial).elim⟩

/-- A blocked caller is blocked by a trap, whose handler found the memory `m`. -/
theorem trap_of_block {k : Kernel} {ev : Event} {h : Hart} {st : TaskState}
    (hev : ev.effect k = some (h, .block st)) :
    ∃ t m, effect (k.setMem m) h t = .block st := by
  cases ev with
  | trap h' t m =>
    obtain ⟨rfl, heff⟩ := Prod.mk.inj (Option.some.inj hev)
    exact ⟨t, m, heff⟩
  | nestedTrap h' t m t' m' => cases (Prod.mk.inj (Option.some.inj hev)).2
  | _ => cases hev

theorem ipcInv_step (s : System) (ev : Event) (v' : View) (hs : SysInv s)
    (hv : IpcInv (view s.kernel)) (hstep : StepView s.kernel ev v') : IpcInv v' := by
  have hk := hs.sound
  have hstatic := StepView.static hstep
  have hsend : ∀ x e a l, v'.state x = some (.blockedOnIpcSend e a l) →
      (view s.kernel).state x = some (.blockedOnIpcSend e a l) ∨
        (∃ h, ev.effect s.kernel = some (h, .block (.blockedOnIpcSend e a l))) ∧
          MaySend (view s.kernel) x e ∧
          ∀ y b n, (view s.kernel).state y ≠ some (.blockedOnIpcRecv e b n) := by
    intro x e a l hx
    have hw : WaitsForPartner (.blockedOnIpcSend e a l) := trivial
    rcases waits_of_step hstep hw hx with hold | ⟨h, hev, rfl⟩
    · exact Or.inl hold
    · obtain ⟨t, m, heff⟩ := trap_of_block hev
      have hblock := block_send (hk m) heff
      exact Or.inr ⟨⟨h, hev⟩, hblock⟩
  have hrecv : ∀ x e a l, v'.state x = some (.blockedOnIpcRecv e a l) →
      (view s.kernel).state x = some (.blockedOnIpcRecv e a l) ∨
        (∃ h, ev.effect s.kernel = some (h, .block (.blockedOnIpcRecv e a l))) ∧
          MayRecv (view s.kernel) x e ∧
          ∀ y b n, (view s.kernel).state y ≠ some (.blockedOnIpcSend e b n) := by
    intro x e a l hx
    have hw : WaitsForPartner (.blockedOnIpcRecv e a l) := trivial
    rcases waits_of_step hstep hw hx with hold | ⟨h, hev, rfl⟩
    · exact Or.inl hold
    · obtain ⟨t, m, heff⟩ := trap_of_block hev
      have hblock := block_recv (hk m) heff
      exact Or.inr ⟨⟨h, hev⟩, hblock⟩
  refine ⟨fun x e a l hx => ?_, fun x e a l hx => ?_, fun x y e a l b n hx hy => ?_⟩
  · unfold MaySend
    rw [hstatic]
    rcases hsend x e a l hx with hold | ⟨-, hmay, -⟩
    · exact hv.senders x e a l hold
    · exact hmay
  · unfold MayRecv
    rw [hstatic]
    rcases hrecv x e a l hx with hold | ⟨-, hmay, -⟩
    · exact hv.receivers x e a l hold
    · exact hmay
  · rcases hsend x e a l hx with hxold | ⟨⟨h, hev⟩, -, hnone⟩
    · rcases hrecv y e b n hy with hyold | ⟨-, -, hnone⟩
      · exact hv.unpaired x y e a l b n hxold hyold
      · exact hnone x a l hxold
    · rcases hrecv y e b n hy with hyold | ⟨⟨h', hev'⟩, -, -⟩
      · exact hnone y b n hyold
      · rw [hev] at hev'
        cases hev'

theorem ipcInv_run {P : Platform} {s s' : System} {es : List Event} (hs : Initial P s)
    (hrun : Run (Step P) s es s') : IpcInv (view s'.kernel) :=
  view_invariant ipcInv_boot ipcInv_step hs hrun

end Cerberus.Ipc
