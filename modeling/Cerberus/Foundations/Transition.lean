import Mathlib.Data.List.Basic

/-! # Runs of labelled transition systems

The system is a relation `step s e t` on an arbitrary state type, with the label `e` naming the
event. A run is a list of labels; a condition on the steps of a run is a guard on the pair of the
state before the step and its label, so that "every step of the run meets the condition" is a run
of the guarded relation. -/
namespace Cerberus.Transition
set_option autoImplicit false

variable {σ ε : Type*}

/-- `Run step s es t`: the labels `es`, taken in order, lead from `s` to `t`. -/
def Run (step : σ → ε → σ → Prop) : σ → List ε → σ → Prop
  | s, [], t => s = t
  | s, e :: es, t => ∃ u, step s e u ∧ Run step u es t

/-- The steps of `step` whose source state and label meet `g`. -/
def Guarded (step : σ → ε → σ → Prop) (g : σ → ε → Prop) (s : σ) (e : ε) (t : σ) : Prop :=
  step s e t ∧ g s e

variable {step : σ → ε → σ → Prop}

theorem Run.single {s t : σ} {e : ε} (h : step s e t) : Run step s [e] t := ⟨t, h, rfl⟩

theorem Run.split {s u : σ} {es fs : List ε} (h : Run step s (es ++ fs) u) :
    ∃ t, Run step s es t ∧ Run step t fs u := by
  induction es generalizing s with
  | nil => exact ⟨s, rfl, h⟩
  | cons e es ih =>
    obtain ⟨v, hv, hr⟩ := h
    obtain ⟨t, h1, h2⟩ := ih hr
    exact ⟨t, ⟨v, hv, h1⟩, h2⟩

theorem Run.append {s t u : σ} {es fs : List ε} (h1 : Run step s es t) (h2 : Run step t fs u) :
    Run step s (es ++ fs) u := by
  induction es generalizing s with
  | nil =>
    have hst : s = t := h1
    exact hst ▸ h2
  | cons e es ih =>
    obtain ⟨v, hv, hr⟩ := h1
    exact ⟨v, hv, ih hr⟩

/-- What every step preserves, every run preserves. -/
theorem Run.invariant {I : σ → Prop} (hstep : ∀ s e t, I s → step s e t → I t)
    {s t : σ} {es : List ε} (h : Run step s es t) (hs : I s) : I t := by
  induction es generalizing s with
  | nil =>
    have hst : s = t := h
    exact hst ▸ hs
  | cons e es ih =>
    obtain ⟨v, hv, hr⟩ := h
    exact ih hr (hstep s e v hs hv)

/-- What holds of the label of every step from a state in `I`, holds of every label of a run. -/
theorem Run.forall_label {I : σ → Prop} {Q : ε → Prop} (hinv : ∀ s e t, I s → step s e t → I t)
    (hlabel : ∀ s e t, I s → step s e t → Q e) {s t : σ} {es : List ε} (h : Run step s es t) (hs : I s) :
    ∀ e ∈ es, Q e := by
  induction es generalizing s with
  | nil => exact fun _ he => by cases he
  | cons e es ih =>
    obtain ⟨v, hv, hr⟩ := h
    intro e' he'
    rcases List.mem_cons.mp he' with rfl | he'
    · exact hlabel s e' v hs hv
    · exact ih hr (hinv s e v hs hv) e' he'

/-- A reflexive and transitive relation that the steps from the states in `I` respect relates the ends
of a run, `I` being preserved. -/
theorem Run.rel {I : σ → Prop} {R : σ → σ → Prop} (hrefl : ∀ s, R s s)
    (htrans : ∀ s t u, R s t → R t u → R s u) (hinv : ∀ s e t, I s → step s e t → I t)
    (hstep : ∀ s e t, I s → step s e t → R s t) {s t : σ} {es : List ε} (h : Run step s es t)
    (hs : I s) : R s t := by
  induction es generalizing s with
  | nil =>
    have hst : s = t := h
    exact hst ▸ hrefl s
  | cons e es ih =>
    obtain ⟨v, hv, hr⟩ := h
    exact htrans s v t (hstep s e v hs hv) (ih hr (hinv s e v hs hv))

/-- Forward simulation: a step with a label that `lab` drops is matched by no step, every other one by
one step. -/
theorem Run.simulated {τ δ : Type*} {step' : τ → δ → τ → Prop} {R : σ → τ → Prop} {lab : ε → Option δ}
    (hdrop : ∀ s e t a, R s a → step s e t → lab e = none → R t a)
    (hkeep : ∀ s e t a d, R s a → step s e t → lab e = some d → ∃ b, R t b ∧ step' a d b)
    {s t : σ} {es : List ε} {a : τ} (h : Run step s es t) (hR : R s a) :
    ∃ b, R t b ∧ Run step' a (es.filterMap lab) b := by
  induction es generalizing s a with
  | nil =>
    have hst : s = t := h
    exact ⟨a, hst ▸ hR, rfl⟩
  | cons e es ih =>
    obtain ⟨u, hu, hr⟩ := h
    cases hlab : lab e with
    | none =>
      rw [List.filterMap_cons_none hlab]
      exact ih hr (hdrop s e u a hR hu hlab)
    | some d =>
      obtain ⟨b, hb, hab⟩ := hkeep s e u a d hR hu hlab
      obtain ⟨c, hc, hbc⟩ := ih hr hb
      rw [List.filterMap_cons_some hlab]
      exact ⟨c, hc, b, hab, hbc⟩

theorem Run.mono {step' : σ → ε → σ → Prop} (hstep : ∀ s e t, step s e t → step' s e t)
    {s t : σ} {es : List ε} (h : Run step s es t) : Run step' s es t := by
  induction es generalizing s with
  | nil => exact h
  | cons e es ih =>
    obtain ⟨v, hv, hr⟩ := h
    exact ⟨v, hstep s e v hv, ih hr⟩

theorem Run.unguard {g : σ → ε → Prop} {s t : σ} {es : List ε}
    (h : Run (Guarded step g) s es t) : Run step s es t :=
  h.mono fun _ _ _ hg => hg.1

/-- Where the steps are determined, so is the end of a run. -/
theorem Run.unique (hstep : ∀ s e t t', step s e t → step s e t' → t = t') {s t t' : σ} {es : List ε}
    (h : Run step s es t) (h' : Run step s es t') : t = t' := by
  induction es generalizing s with
  | nil => exact (show s = t from h).symm.trans h'
  | cons e es ih =>
    obtain ⟨u, hu, hr⟩ := h
    obtain ⟨u', hu', hr'⟩ := h'
    obtain rfl := hstep s e u u' hu hu'
    exact ih hr hr'

/-- Where the steps are a partial function, a word is run by folding it. -/
theorem Run.of_foldlM {next : σ → ε → Option σ} {s t : σ} {es : List ε}
    (h : es.foldlM next s = some t) : Run (fun s e t => next s e = some t) s es t := by
  induction es generalizing s with
  | nil => exact Option.some.inj h
  | cons e es ih =>
    rw [List.foldlM_cons] at h
    obtain ⟨u, hu, hr⟩ := Option.bind_eq_some_iff.mp h
    exact ⟨u, hu, ih hr⟩

theorem Run.of_foldlM_guarded {next : σ → ε → Option σ} (g : σ → ε → Prop) [∀ s e, Decidable (g s e)]
    {s t : σ} {es : List ε} (h : es.foldlM (fun s e => if g s e then next s e else none) s = some t) :
    Run (Guarded (fun s e t => next s e = some t) g) s es t := by
  refine (Run.of_foldlM h).mono fun u e u' hu => ?_
  split at hu
  · exact ⟨hu, ‹_›⟩
  · cases hu

/-- A reflexive and transitive relation that every round of a fallible loop respects relates the start
of the loop to its end. -/
theorem foldlM_rel {α β ε : Type*} {f : β → α → Except ε β} {R : β → β → Prop} (hrefl : ∀ b, R b b)
    (htrans : ∀ b c d, R b c → R c d → R b d) (hstep : ∀ b a c, f b a = .ok c → R b c) {l : List α}
    {b c : β} (h : l.foldlM f b = .ok c) : R b c := by
  induction l generalizing b with
  | nil =>
    have hbc : b = c := Except.ok.inj h
    exact hbc ▸ hrefl b
  | cons a l ih =>
    rw [List.foldlM_cons] at h
    cases ha : f b a with
    | error e =>
      rw [ha] at h
      cases h
    | ok d =>
      rw [ha] at h
      exact htrans b d c (hstep b a d ha) (ih h)

/-- A map that commutes with every round of a fallible loop from the states in `C` commutes with the
loop. -/
theorem foldlM_commutes {α β ε : Type*} {f : β → α → Except ε β} {φ : β → β} {C : β → Prop}
    (hC : ∀ b a b', C b → f b a = .ok b' → C b') (hf : ∀ b a, C b → f (φ b) a = (f b a).map φ)
    {l : List α} {b : β} (hb : C b) : l.foldlM f (φ b) = (l.foldlM f b).map φ := by
  induction l generalizing b with
  | nil => rfl
  | cons a l ih =>
    rw [List.foldlM_cons, List.foldlM_cons, hf b a hb]
    cases hr : f b a with
    | error e => rfl
    | ok b' => exact ih (hC b a b' hb hr)

/-- A fallible map that commutes with every round of a loop commutes with the loop. -/
theorem foldlM_bind_comm {α β : Type*} {f : β → α → Option β} {g : β → Option β} {l : List α}
    (hfg : ∀ a ∈ l, ∀ b, (f b a).bind g = (g b).bind fun b' => f b' a) (b : β) :
    (l.foldlM f b).bind g = (g b).bind fun b' => l.foldlM f b' := by
  induction l generalizing b with
  | nil =>
    show (some b).bind g = (g b).bind some
    rw [Option.bind_some, Option.bind_fun_some]
  | cons a l ih =>
    have hrest := ih fun a' ha' => hfg a' (List.mem_cons_of_mem a ha')
    simp only [List.foldlM_cons, Option.bind_eq_bind]
    calc ((f b a).bind fun b' => l.foldlM f b').bind g
        = (f b a).bind fun b' => (l.foldlM f b').bind g := Option.bind_assoc _ _ _
      _ = (f b a).bind fun b' => (g b').bind fun b'' => l.foldlM f b'' := by simp only [hrest]
      _ = ((f b a).bind g).bind fun b'' => l.foldlM f b'' := (Option.bind_assoc _ _ _).symm
      _ = ((g b).bind fun b' => f b' a).bind fun b'' => l.foldlM f b'' := by
        rw [hfg a List.mem_cons_self]
      _ = (g b).bind fun b' => (f b' a).bind fun b'' => l.foldlM f b'' := Option.bind_assoc _ _ _

end Cerberus.Transition
