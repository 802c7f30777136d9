/-
# Runs of a system that moves on actions and shows events

A system is a step function on states; a step is taken on an action and shows a finite
list of events, in order.  The runs of a system are described twice: as an inductive
relation, which is what an invariant is proved along, and as the iterates of the step
function on a list of actions, which is what a concrete run is computed with.
-/
import Mathlib.Tactic.Common

namespace Runs

variable {σ α ε : Type*}

/-- A system with an initial state that is moved by actions; every step shows a list of
events, and `none` says that the action is not possible in that state. -/
structure Machine (σ α ε : Type*) where
  /-- The state in which every run begins. -/
  init : σ
  /-- The step on an action, with the events it shows. -/
  step : σ → α → Option (σ × List ε)

namespace Machine

variable (M : Machine σ α ε)

/-- `M.Run C tr s`: some run of `M`, all of whose steps meet the condition `C`, shows the
events `tr` and ends in the state `s`. -/
inductive Run (C : σ → α → Prop) : List ε → σ → Prop
  | init : Run C [] M.init
  | step {tr es : List ε} {s s' : σ} {a : α} : Run C tr s → C s a →
      M.step s a = some (s', es) → Run C (tr ++ es) s'

/-- `M.Reach tr s`: some run of `M` shows the events `tr` and ends in the state `s`. -/
abbrev Reach : List ε → σ → Prop := M.Run fun _ _ => True

variable {M} {C : σ → α → Prop}

/-- **The invariant rule.**  What holds of the empty history in the initial state, and is
kept by every step that meets the condition, holds at the end of every run. -/
theorem Run.invariant {I : List ε → σ → Prop} (hinit : I [] M.init)
    (hstep : ∀ (tr : List ε) (s : σ) (a : α) (s' : σ) (es : List ε), I tr s → C s a →
      M.step s a = some (s', es) → I (tr ++ es) s')
    {tr : List ε} {s : σ} (hr : M.Run C tr s) : I tr s := by
  induction hr with
  | init => exact hinit
  | step _ hC hs ih => exact hstep _ _ _ _ _ ih hC hs

/-! ## Computing a run -/

section Exec

variable (M) (C) [∀ s a, Decidable (C s a)]

/-- The run of `M` on a list of actions from a given state, if every action is possible and
meets the condition. -/
def exec : σ → List α → Option (σ × List ε)
  | s, [] => some (s, [])
  | s, a :: as =>
    if C s a then
      match M.step s a with
      | none => none
      | some (s₁, es) =>
        match exec s₁ as with
        | none => none
        | some (s₂, fs) => some (s₂, es ++ fs)
    else none

variable {M} {C}

/-- A computed run continues a run. -/
lemma Run.exec {as : List α} {tr es : List ε} {s s' : σ} (hr : M.Run C tr s)
    (h : M.exec C s as = some (s', es)) : M.Run C (tr ++ es) s' := by
  induction as generalizing tr es s with
  | nil =>
    simp only [Machine.exec, Option.some.injEq, Prod.mk.injEq] at h
    obtain ⟨rfl, rfl⟩ := h
    simpa using hr
  | cons a as ih =>
    by_cases hC : C s a
    · rcases h₁ : M.step s a with _ | ⟨s₁, es₁⟩
      · simp [Machine.exec, hC, h₁] at h
      · rcases h₂ : M.exec C s₁ as with _ | ⟨s₂, es₂⟩
        · simp [Machine.exec, hC, h₁, h₂] at h
        · simp only [Machine.exec, hC, h₁, h₂, if_true, Option.some.injEq, Prod.mk.injEq] at h
          obtain ⟨rfl, rfl⟩ := h
          have := ih (.step hr hC h₁) h₂
          rwa [List.append_assoc] at this
    · simp [Machine.exec, hC] at h

/-- What a computed run from the initial state ends with is the end of a run. -/
lemma run_of_exec (as : List α) {P : List ε → σ → Prop}
    (h : ∃ x, M.exec C M.init as = some x ∧ P x.2 x.1) : ∃ tr s, M.Run C tr s ∧ P tr s := by
  obtain ⟨⟨s, tr⟩, hx, hP⟩ := h
  exact ⟨tr, s, by simpa using Run.exec .init hx, hP⟩

/-- The same for what can be decided of the end. -/
lemma run_of_exec_any (as : List α) {P : List ε → σ → Prop} [∀ tr s, Decidable (P tr s)]
    (h : ((M.exec C M.init as).any fun x => decide (P x.2 x.1)) = true) :
    ∃ tr s, M.Run C tr s ∧ P tr s := by
  obtain ⟨x, hx, hP⟩ := (Option.any_eq_true _ _).mp h
  exact run_of_exec as ⟨x, hx, of_decide_eq_true hP⟩

end Exec

end Machine

/-! ## Each event in its past -/

/-- Every entry of a history has the property, given what came before it. -/
def EachAfter (P : List ε → ε → Prop) (tr : List ε) : Prop :=
  ∀ past e rest, tr = past ++ e :: rest → P past e

variable {P : List ε → ε → Prop}

@[simp] lemma eachAfter_nil : EachAfter P [] := by
  intro past e rest h
  simp at h

/-- One more entry. -/
lemma eachAfter_snoc {tr : List ε} {e : ε} :
    EachAfter P (tr ++ [e]) ↔ EachAfter P tr ∧ P tr e := by
  constructor
  · intro h
    refine ⟨fun past d rest htr => h past d (rest ++ [e]) ?_, h tr e [] rfl⟩
    rw [htr, List.append_assoc, List.cons_append]
  · rintro ⟨hall, hlast⟩ past d rest htr
    rcases List.eq_nil_or_concat rest with rfl | ⟨rest, x, rfl⟩
    · obtain ⟨rfl, hed⟩ := List.append_inj' htr rfl
      exact List.singleton_inj.mp hed ▸ hlast
    · have hsnoc : tr ++ [e] = (past ++ d :: rest) ++ [x] := by simpa using htr
      exact hall past d rest (List.append_inj' hsnoc rfl).1

end Runs
