import Mathlib.Data.List.Basic

/-!
# Runs of a labelled step relation

A system is a relation `step s a t`: action `a` can take state `s` to state `t`. A run is recorded as the list of its
transitions `(s, a, t)`, so that a statement about a run can speak of every state it passes through and of every step it
takes. Two rules carry the developments that use this: `Run.invariant` (an invariant kept by every step that meets a guard
holds of every state of a run whose steps all meet it) and `Run.all_iff` (when the steps that meet the guard are exactly
the ones that do right from a state of the invariant, a run does right throughout if and only if all its steps meet it).
-/

namespace CodeFactory

universe u v

variable {σ : Type u} {α : Type v}

/-- What one action can turn a state into. -/
abbrev Step (σ : Type u) (α : Type v) := σ → α → σ → Prop

/-- One step of a run: the state before, the action, the state after. -/
abbrev Transition (σ : Type u) (α : Type v) := σ × α × σ

/-- The step relation of a partial step function: no result is no step. -/
def Step.ofOption (f : σ → α → Option σ) : Step σ α := fun s a t => f s a = some t

@[simp] theorem Step.ofOption_iff (f : σ → α → Option σ) (s : σ) (a : α) (t : σ) :
    Step.ofOption f s a t ↔ f s a = some t := Iff.rfl

/-- `Run step s₀ tr s`: the transitions `tr`, one after the other, lead from `s₀` to `s`. -/
inductive Run (step : Step σ α) (s₀ : σ) : List (Transition σ α) → σ → Prop where
  | nil : Run step s₀ [] s₀
  | snoc {tr : List (Transition σ α)} {s t : σ} {a : α} :
      Run step s₀ tr s → step s a t → Run step s₀ (tr ++ [(s, a, t)]) t

/-- Every step of the run meets the condition `C` on the state before it and its action. -/
def Meets (C : σ → α → Prop) (tr : List (Transition σ α)) : Prop := ∀ x ∈ tr, C x.1 x.2.1

/-- Every transition of the run has the property `P`. -/
def Always (P : σ → α → σ → Prop) (tr : List (Transition σ α)) : Prop := ∀ x ∈ tr, P x.1 x.2.1 x.2.2

instance (C : σ → α → Prop) [∀ s a, Decidable (C s a)] (tr : List (Transition σ α)) : Decidable (Meets C tr) :=
  inferInstanceAs (Decidable (∀ x ∈ tr, C x.1 x.2.1))

instance (P : σ → α → σ → Prop) [∀ s a t, Decidable (P s a t)] (tr : List (Transition σ α)) : Decidable (Always P tr) :=
  inferInstanceAs (Decidable (∀ x ∈ tr, P x.1 x.2.1 x.2.2))

@[simp] theorem meets_nil (C : σ → α → Prop) : Meets C [] := by simp [Meets]

@[simp] theorem always_nil (P : σ → α → σ → Prop) : Always P [] := by simp [Always]

@[simp] theorem meets_snoc {C : σ → α → Prop} {tr : List (Transition σ α)} {s t : σ} {a : α} :
    Meets C (tr ++ [(s, a, t)]) ↔ Meets C tr ∧ C s a := by
  rw [Meets, List.forall_mem_append, List.forall_mem_singleton, Meets]

@[simp] theorem always_snoc {P : σ → α → σ → Prop} {tr : List (Transition σ α)} {s t : σ} {a : α} :
    Always P (tr ++ [(s, a, t)]) ↔ Always P tr ∧ P s a t := by
  rw [Always, List.forall_mem_append, List.forall_mem_singleton, Always]

namespace Run

variable {step : Step σ α} {s₀ s t : σ} {tr : List (Transition σ α)}

theorem single {a : α} (h : step s a t) : Run step s [(s, a, t)] t := Run.snoc Run.nil h

/-- Runs compose. -/
theorem append {tr' : List (Transition σ α)} (h : Run step s₀ tr s) (h' : Run step s tr' t) :
    Run step s₀ (tr ++ tr') t := by
  induction h' with
  | nil => simpa using h
  | snoc _ hs ih =>
    rw [← List.append_assoc]
    exact Run.snoc ih hs

theorem cons {a : α} (h : step s₀ a s) (h' : Run step s tr t) : Run step s₀ ((s₀, a, s) :: tr) t :=
  (single h).append h'

theorem mono {step' : Step σ α} (hstep : ∀ s a t, step s a t → step' s a t) (hr : Run step s₀ tr s) : Run step' s₀ tr s := by
  induction hr with
  | nil => exact Run.nil
  | snoc _ hs ih => exact Run.snoc ih (hstep _ _ _ hs)

theorem restrict {C : σ → α → Prop} (hr : Run step s₀ tr s) (hC : Meets C tr) :
    Run (fun s a t => step s a t ∧ C s a) s₀ tr s := by
  induction hr with
  | nil => exact Run.nil
  | snoc _ hs ih =>
    obtain ⟨hC, hc⟩ := meets_snoc.1 hC
    exact Run.snoc (ih hC) ⟨hs, hc⟩

/-- **The invariant rule.** What holds at the start and is kept by every step that meets the guard holds at the end of every
run whose steps all meet it. -/
theorem invariant {I : σ → Prop} {C : σ → α → Prop} (h0 : I s₀)
    (hstep : ∀ s a t, I s → C s a → step s a t → I t) (hr : Run step s₀ tr s) (hC : Meets C tr) : I s := by
  induction hr with
  | nil => exact h0
  | snoc _ hs ih =>
    obtain ⟨hC, hc⟩ := meets_snoc.1 hC
    exact hstep _ _ _ (ih hC) hc hs

/-- The invariant rule for what the transitions do: along a guarded run every transition starts in the invariant, so what a
guarded step from the invariant does, every transition does. -/
theorem always {I : σ → Prop} {C : σ → α → Prop} {P : σ → α → σ → Prop} (h0 : I s₀)
    (hstep : ∀ s a t, I s → C s a → step s a t → I t ∧ P s a t) (hr : Run step s₀ tr s) (hC : Meets C tr) :
    Always P tr := by
  induction hr with
  | nil => exact always_nil P
  | snoc hr hs ih =>
    obtain ⟨hC, hc⟩ := meets_snoc.1 hC
    have hi := invariant h0 (fun s a t hi hc hs => (hstep s a t hi hc hs).1) hr hC
    exact always_snoc.2 ⟨ih hC, (hstep _ _ _ hi hc hs).2⟩

/-- **The exactness rule.** From a state of the invariant a step does right when it meets the guard and does wrong when it
does not. Then a run does right throughout exactly when all its steps meet the guard: the first step that does not is
preceded by a guarded run, so it starts in the invariant and does wrong. -/
theorem all_iff {I : σ → Prop} {C : σ → α → Prop} {P : σ → α → σ → Prop} (h0 : I s₀)
    (hkeep : ∀ s a t, I s → C s a → step s a t → I t ∧ P s a t)
    (hbreak : ∀ s a t, I s → ¬C s a → step s a t → ¬P s a t) (hr : Run step s₀ tr s) :
    Always P tr ↔ Meets C tr := by
  refine ⟨fun hP => ?_, always h0 hkeep hr⟩
  induction hr with
  | nil => exact meets_nil C
  | @snoc tr s t a hr hs ih =>
    obtain ⟨hP, hp⟩ := always_snoc.1 hP
    have hC := ih hP
    have hi := invariant h0 (fun s a t hi hc hs => (hkeep s a t hi hc hs).1) hr hC
    refine meets_snoc.2 ⟨hC, ?_⟩
    by_contra hc
    exact hbreak s a t hi hc hs hp

end Run

/-- Play a list of actions with a partial step function: the transitions taken and the state reached. The first action that
is not possible ends the run. -/
def play (f : σ → α → Option σ) (s : σ) : List α → List (Transition σ α) × σ
  | [] => ([], s)
  | a :: as =>
    match f s a with
    | none => ([], s)
    | some t => ((s, a, t) :: (play f t as).1, (play f t as).2)

theorem Run.ofPlay (f : σ → α → Option σ) (s : σ) (as : List α) :
    Run (Step.ofOption f) s (play f s as).1 (play f s as).2 := by
  induction as generalizing s with
  | nil => exact Run.nil
  | cons a as ih =>
    unfold play
    split
    · exact Run.nil
    · rename_i t h
      exact Run.cons h (ih t)

/-- What is played takes actions of the list only. -/
theorem mem_of_mem_play {f : σ → α → Option σ} {s : σ} {as : List α} {x : Transition σ α} (h : x ∈ (play f s as).1) :
    x.2.1 ∈ as := by
  induction as generalizing s with
  | nil => cases h
  | cons a as ih =>
    unfold play at h
    split at h
    · cases h
    · rcases List.mem_cons.1 h with rfl | h
      · exact List.mem_cons_self
      · exact List.mem_cons_of_mem _ (ih h)

theorem meets_play {f : σ → α → Option σ} {s : σ} {as : List α} {C : α → Prop} (h : ∀ a ∈ as, C a) :
    Meets (fun _ a => C a) (play f s as).1 :=
  fun _ hx => h _ (mem_of_mem_play hx)

end CodeFactory
