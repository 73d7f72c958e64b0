import Cerberus.Ipc.Endpoint

/-! # Rendezvous on the two-hart system

Every completed transfer appends one IPC event to the telemetry stream, so the steps that transfer
are read off the stream. Each is between the caller and one task recorded on the opposite side of the
endpoint, and touches the state of no other task. -/
namespace Cerberus.Ipc
open Kernel Scheduler Sync Transition
set_option autoImplicit false

/-- With the boot registration nobody may both send and receive on an endpoint. -/
theorem bootStatic_one_side (x : TaskId) (c c' : Fin 8) :
    (bootStatic x).bind (fun s => sendRight (s.capabilities c)) =
      (bootStatic x).bind (fun s => recvRight (s.capabilities c')) →
    (bootStatic x).bind (fun s => sendRight (s.capabilities c)) = none := by
  obtain ⟨h, i⟩ := x
  revert h i c c'
  decide +kernel

theorem not_mayRecv_of_maySend {v : View} (hv : v.BootShape) {x : TaskId} {e : Byte}
    (hsend : MaySend v x e) : ¬ MayRecv v x e := by
  rintro ⟨st', c', canSend, hst', hcap'⟩
  obtain ⟨st, c, canRecv, hst, hcap⟩ := hsend
  rw [hst] at hst'
  obtain rfl := Option.some.inj hst'
  rw [hv.static] at hst
  have hs : (bootStatic x).bind (fun s => sendRight (s.capabilities c)) = some e := by
    rw [hst]
    exact sendRight_eq_some.mpr ⟨canRecv, hcap⟩
  have hr : (bootStatic x).bind (fun s => recvRight (s.capabilities c')) = some e := by
    rw [hst]
    exact recvRight_eq_some.mpr ⟨canSend, hcap'⟩
  have hnone := bootStatic_one_side x c c' (hs.trans hr.symm)
  rw [hs] at hnone
  cases hnone

/-- The waiting side of a rendezvous is not the caller itself. -/
theorem Opposite.ne_caller {v : View} (hshape : v.BootShape) (hv : IpcInv v) {caller y : TaskId}
    {e : Byte} {p : Plan} (hopp : Opposite v caller e p y) : y ≠ caller := by
  rintro rfl
  cases hopp with
  | sends _ _ hmay hy => exact not_mayRecv_of_maySend hshape hmay (hv.receivers _ _ _ _ hy)
  | receives _ _ hmay hy => exact not_mayRecv_of_maySend hshape (hv.senders _ _ _ _ hy) hmay

/-- One step of the system and the IPC events it logs: none, or one of a rendezvous that a trap has
completed. -/
theorem step_transfers {P : Platform} {s s' : System} {ev : Event} (hs : SysInv s)
    (hstep : Step P s ev s') :
    transfers s'.kernel.trace = transfers s.kernel.trace ∨
      ∃ h t m p e, ev = .trap h t m ∧ transferPlan (s.kernel.setMem m) h t = some p ∧
        transferEndpoint (s.kernel.setMem m) h t = some e ∧
        transfers s'.kernel.trace = transfers s.kernel.trace ++ [(e, p.len.setWidth 8)] := by
  have hcases := stepKernel_of_step hstep
  generalize s'.kernel = k' at hcases
  cases hcases with
  | @trap h t m _ _ hok =>
    have hlog := (hs.trap_leaves hok).1.transfers
    rw [(clocked_untouched _ _ _).2.2.1] at hlog
    cases hp : transferPlan (s.kernel.setMem m) h t with
    | none =>
      rw [hp, planLog_none] at hlog
      exact Or.inl (hlog.trans (List.append_nil _))
    | some p =>
      cases he : transferEndpoint (s.kernel.setMem m) h t with
      | none =>
        rw [hp, he] at hlog
        exact Or.inl (hlog.trans (List.append_nil _))
      | some e =>
        rw [hp, he] at hlog
        exact Or.inr ⟨h, t, m, p, e, rfl, hp, he, hlog⟩
  | @nested h t t' m m' kf _ _ hf hok =>
    obtain ⟨hkf, hcause, -, -⟩ := hs.nested hf m'
    have hfault := trap_leaves (P := P) (h := h) (t := t) (hs.sound m)
    rw [hf] at hfault
    have hkill := trap_leaves (P := P) (h := h) (t := t') hkf
    rw [hok, transferPlan_of_fault hcause, planLog_none] at hkill
    have hlog := hfault.transfers
    have hlog' := hkill.1.transfers
    rw [(clocked_untouched _ _ _).2.2.1, List.append_nil] at hlog hlog'
    exact Or.inl (hlog'.trans hlog)
  | lock _ => exact Or.inl rfl
  | restartTaskC _ =>
    rw [restartTaskC]
    split <;> exact Or.inl rfl
  | restartHsm _ =>
    rw [restartHsm]
    split <;> exact Or.inl rfl
  | unlock _ => exact Or.inl rfl

/-- A completed rendezvous, seen from the view: the waiting side becomes `Ready`, and nobody else's
state changes. -/
theorem transfer_state {P : Platform} {s s' : System} {h : Hart} {t : Trap} {m : Memory} {y : TaskId}
    (hs : SysInv s) (hstep : Step P s (.trap h t m) s')
    (heff : effect (s.kernel.setMem m) h t = .transfer y) :
    (view s'.kernel).state = Function.update (view s.kernel).state y (some .ready) := by
  obtain ⟨hview, -, -⟩ := step_cases hs hstep
  cases hview with
  | @effect h' e hev hstep' =>
    obtain ⟨rfl, rfl⟩ := Prod.mk.inj (Option.some.inj hev)
    have hleads := hstep'.leads
    rw [heff] at hleads
    obtain ⟨st, hst, -⟩ : ∃ st, (view s.kernel).state y = some st ∧ WaitsForPartner st := by
      have hvalid := hstep'.valid
      rw [heff] at hvalid
      exact hvalid
    have hv : view s'.kernel = (view s.kernel).setState y .ready := hleads
    rw [hv, View.setState, hst]
    rfl
  | restart hev => cases hev
  | skip hev => cases hev

/-- HSM Task waits for a message of twelve bytes, and Task A is about to run. -/
def hsmListens : List Event :=
  [syscall 0 1 0 0 0, syscall 0 1 0 0 0, syscall 0 7 0 0x3FC81000 12, syscall 0 1 0 0 0]

end Cerberus.Ipc
