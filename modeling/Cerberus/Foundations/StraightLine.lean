import Mathlib.Data.List.Nodup

/-! # Straight-line programs among other parties

A program is a list of steps without repetition. Each step establishes an assertion that nobody takes
back, so that at any moment the assertions of the steps done so far hold, whatever runs in between.
`Marked post prog todo s` says so in state `s`, where `todo` is left of `prog`. -/
namespace Cerberus.StraightLine
set_option autoImplicit false

variable {α σ : Type*} {post : α → σ → Prop} {prog todo : List α} {s s' : σ} {x : α}

def Marked (post : α → σ → Prop) (prog todo : List α) (s : σ) : Prop :=
  ∃ done, prog = done ++ todo ∧ ∀ x ∈ done, post x s

theorem Marked.start (post : α → σ → Prop) (prog : List α) (s : σ) : Marked post prog prog s :=
  ⟨[], rfl, fun _ hx => by cases hx⟩

/-- What is done stays marked while others run. -/
theorem Marked.frame (h : Marked post prog todo s)
    (hstable : ∀ x ∈ prog, x ∉ todo → post x s → post x s') (hnd : prog.Nodup) :
    Marked post prog todo s' := by
  obtain ⟨done, rfl, hdone⟩ := h
  refine ⟨done, rfl, fun x hx => ?_⟩
  have hnot : x ∉ todo := List.disjoint_of_nodup_append hnd hx
  exact hstable x (List.mem_append_left _ hx) hnot (hdone x hx)

/-- One step of the program itself. -/
theorem Marked.step (h : Marked post prog (x :: todo) s)
    (hstable : ∀ y ∈ prog, y ∉ x :: todo → post y s → post y s') (hx : post x s') (hnd : prog.Nodup) :
    Marked post prog todo s' := by
  obtain ⟨done, hprog, hdone⟩ := h.frame hstable hnd
  refine ⟨done ++ [x], by rw [hprog, List.append_assoc]; rfl, fun y hy => ?_⟩
  rcases List.mem_append.mp hy with hy | hy
  · exact hdone y hy
  · rw [List.mem_singleton.mp hy]
    exact hx

theorem Marked.of_done (h : Marked post prog todo s) (hx : x ∈ prog) (hnot : x ∉ todo) : post x s := by
  obtain ⟨done, rfl, hdone⟩ := h
  exact hdone x ((List.mem_append.mp hx).resolve_right hnot)

theorem Marked.mem (h : Marked post prog todo s) (hx : x ∈ todo) : x ∈ prog := by
  obtain ⟨done, rfl, -⟩ := h
  exact List.mem_append_right _ hx

theorem Marked.nodup (h : Marked post prog todo s) (hnd : prog.Nodup) : todo.Nodup := by
  obtain ⟨done, rfl, -⟩ := h
  exact hnd.of_append_right

theorem Marked.suffix (h : Marked post prog todo s) : todo <:+ prog := by
  obtain ⟨done, rfl, -⟩ := h
  exact List.suffix_append _ _

/-- What is left at a known step is what follows it in the program. -/
theorem Marked.at_step {pre rest : List α} (h : Marked post (pre ++ x :: rest) (x :: todo) s)
    (hnd : (pre ++ x :: rest).Nodup) : todo = rest := by
  obtain ⟨done, hprog, -⟩ := h
  have hpre : x ∉ pre := fun hx => List.disjoint_of_nodup_append hnd hx List.mem_cons_self
  have hdone : x ∉ done := fun hx =>
    List.disjoint_of_nodup_append (hprog ▸ hnd) hx List.mem_cons_self
  rw [List.append_eq_append_iff] at hprog
  obtain ⟨l, hl, hr⟩ | ⟨l, hl, hr⟩ := hprog
  · cases l with
    | nil => exact (List.cons.inj hr).2.symm
    | cons y l =>
      obtain ⟨rfl, -⟩ := List.cons.inj hr
      exact absurd (hl ▸ List.mem_append_right _ List.mem_cons_self) hdone
  · cases l with
    | nil => exact (List.cons.inj hr).2
    | cons y l =>
      obtain ⟨rfl, -⟩ := List.cons.inj hr
      exact absurd (hl ▸ List.mem_append_right _ List.mem_cons_self) hpre

/-- Where the program stands at a known step, all before it is done. -/
theorem Marked.before {pre rest : List α} {y : α} (h : Marked post (pre ++ x :: rest) (x :: todo) s)
    (hnd : (pre ++ x :: rest).Nodup) (hy : y ∈ pre) : post y s := by
  have htodo := h.at_step hnd
  subst htodo
  exact h.of_done (List.mem_append_left _ hy) fun hmem => List.disjoint_of_nodup_append hnd hy hmem

/-- Once a known step is done, so is all before it. -/
theorem Marked.not_mem {pre rest : List α} {y : α} (h : Marked post (pre ++ x :: rest) todo s)
    (hnd : (pre ++ x :: rest).Nodup) (hx : x ∉ todo) (hy : y ∈ pre) : y ∉ todo := by
  obtain ⟨done, hprog, -⟩ := h
  obtain ⟨l, hl, -⟩ | ⟨l, -, hr⟩ := List.append_eq_append_iff.mp hprog
  · exact List.disjoint_of_nodup_append (hprog ▸ hnd) (hl ▸ List.mem_append_left _ hy)
  · exact absurd (hr ▸ List.mem_append_right _ List.mem_cons_self) hx

theorem Marked.before_done {pre rest : List α} {y : α} (h : Marked post (pre ++ x :: rest) todo s)
    (hnd : (pre ++ x :: rest).Nodup) (hx : x ∉ todo) (hy : y ∈ pre) : post y s :=
  h.of_done (List.mem_append_left _ hy) (h.not_mem hnd hx hy)

end Cerberus.StraightLine
