import Mathlib.Data.Finset.Basic
import Mathlib.Data.List.Forall2
import Mathlib.Tactic.Common

/-!
# Gossip

Members hold values and pull from one another: a member answers with the value it holds, and some
time later the one that asked merges the answer with its own value. Answers may be late, overtake
one another, get lost and arrive again. The members that a member has heard of are found by the
same steps over sets of members.
-/

namespace Gossip

variable {ι V W : Type*} [DecidableEq ι]

structure State (ι V : Type*) where
  value : ι → V
  /-- Every answer given so far, and who asked for it. -/
  answers : List (ι × V)

inductive Step (ι : Type*) where
  | answer (asker responder : ι)
  /-- The answer with a number arrives. -/
  | receive (number : ℕ)

section Runs

variable (merge : V → V → V)

def State.next (s : State ι V) : Step ι → State ι V
  | .answer asker responder => { s with answers := s.answers ++ [(asker, s.value responder)] }
  | .receive number =>
    match s.answers[number]? with
    | none => s
    | some (asker, answer) =>
      { s with value := Function.update s.value asker (merge (s.value asker) answer) }

def run (init : ι → V) (steps : List (Step ι)) : State ι V :=
  steps.foldl (State.next merge) ⟨init, []⟩

end Runs

section Related

variable (R : V → W → Prop)

/-- Members hold related values, and related answers were given. -/
structure Related (s : State ι V) (t : State ι W) : Prop where
  value : ∀ i, R (s.value i) (t.value i)
  answers : List.Forall₂ (fun a b => a.1 = b.1 ∧ R a.2 b.2) s.answers t.answers

variable {R} {merge : V → V → V} {merge' : W → W → W} {s : State ι V} {t : State ι W}

theorem Related.next (h : Related R s t)
    (hmerge : ∀ v v' w w', R v w → R v' w' → R (merge v v') (merge' w w')) (step : Step ι) :
    Related R (s.next merge step) (t.next merge' step) := by
  cases step with
  | answer asker responder =>
    exact ⟨h.value, List.rel_append h.answers (.cons ⟨rfl, h.value responder⟩ .nil)⟩
  | receive number =>
    rw [State.next, State.next]
    by_cases hnumber : number < s.answers.length
    · have hnumber' : number < t.answers.length := h.answers.length_eq ▸ hnumber
      obtain ⟨hasker, hanswer⟩ := List.Forall₂.get h.answers hnumber hnumber'
      rw [List.getElem?_eq_getElem hnumber, List.getElem?_eq_getElem hnumber']
      refine ⟨fun i => ?_, h.answers⟩
      rw [List.get_eq_getElem, List.get_eq_getElem] at hasker hanswer
      dsimp only
      rw [hasker]
      by_cases hi : i = (t.answers[number]).1
      · rw [hi, Function.update_self, Function.update_self]
        exact hmerge _ _ _ _ (h.value _) hanswer
      · rw [Function.update_of_ne hi, Function.update_of_ne hi]
        exact h.value i
    · have hnumber' : t.answers.length ≤ number := h.answers.length_eq ▸ Nat.le_of_not_lt hnumber
      rw [List.getElem?_eq_none (Nat.le_of_not_lt hnumber), List.getElem?_eq_none hnumber']
      exact h

end Related

/-! ## Hearing of members -/

section Heard

variable {s : State ι (Finset ι)} {before after early between late first second : List (Step ι)}
  {asker responder hub i j : ι}

end Heard

end Gossip
