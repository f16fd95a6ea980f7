import Mathlib.Data.List.Induction
import Mathlib.Logic.Relation
import Mathlib.Tactic.Common

/-!
# Transition systems

Labelled transition systems over arbitrary states, their runs with the labels of the
steps taken, and the rules that carry a property of single steps to whole runs.
-/

/-- A labelled transition system. -/
structure TransitionSystem (State Label : Type*) where
  /-- The states a run may start in. -/
  init : State → Prop
  /-- The steps. -/
  step : State → Label → State → Prop

namespace TransitionSystem

variable {State Label : Type*}

/-- A run from an initial state, with the labels of its steps in order. -/
inductive Run (S : TransitionSystem State Label) : List Label → State → Prop
  | start {s : State} : S.init s → Run S [] s
  | next {labels : List Label} {s t : State} {label : Label} :
      Run S labels s → S.step s label t → Run S (labels ++ [label]) t

/-- A state some run ends in. -/
def Reachable (S : TransitionSystem State Label) (s : State) : Prop := ∃ labels, S.Run labels s

/-- The second state is reached from the first. -/
def Leads (S : TransitionSystem State Label) : State → State → Prop :=
  Relation.ReflTransGen fun s t => ∃ label, S.step s label t

/-- The system that starts in one state and takes the steps of a function. -/
def ofFunction (init : State) (next : State → Label → State) :
    TransitionSystem State Label where
  init s := s = init
  step s label t := t = next s label

/-- The steps of a system that meet a condition on the state before them. -/
def restrict (S : TransitionSystem State Label) (guard : State → Label → Prop) :
    TransitionSystem State Label where
  init := S.init
  step s label t := guard s label ∧ S.step s label t

variable {S : TransitionSystem State Label} {labels : List Label} {s t : State} {label : Label}

/-- A relation between the labels so far and the state holds at the end of every run. -/
theorem Run.induct {P : List Label → State → Prop} (hrun : S.Run labels s)
    (hinit : ∀ s, S.init s → P [] s)
    (hstep : ∀ labels s label t, S.Run labels s → P labels s → S.step s label t →
      P (labels ++ [label]) t) : P labels s := by
  induction hrun with
  | start h => exact hinit _ h
  | next hrun h ih => exact hstep _ _ _ _ hrun ih h

/-- **Invariants.** What holds initially and is preserved by every step holds in every
reachable state. -/
theorem Reachable.invariant {I : State → Prop} (hs : S.Reachable s) (hinit : ∀ s, S.init s → I s)
    (hstep : ∀ s label t, I s → S.step s label t → I t) : I s := by
  obtain ⟨labels, hrun⟩ := hs
  exact hrun.induct (P := fun _ s => I s) hinit fun _ s label t _ => hstep s label t

/-- The last step of a run. -/
theorem Run.of_concat (hrun : S.Run (labels ++ [label]) t) :
    ∃ s, S.Run labels s ∧ S.step s label t := by
  generalize hlabels : labels ++ [label] = all at hrun
  cases hrun with
  | start => simp at hlabels
  | next hbefore hstep =>
    obtain ⟨rfl, hlast⟩ := List.append_inj' hlabels rfl
    cases hlast
    exact ⟨_, hbefore, hstep⟩

/-- A step within a run, and what it establishes and all later steps preserve. -/
theorem Run.induct_after {I : State → Prop} {before after : List Label}
    (hrun : S.Run (before ++ label :: after) t)
    (hstart : ∀ u v, S.Run before u → S.step u label v → I v)
    (hstep : ∀ labels u label v, S.Run labels u → I u → S.step u label v → I v) : I t := by
  induction after using List.reverseRecOn generalizing t with
  | nil =>
    obtain ⟨u, hbefore, hlabel⟩ := hrun.of_concat
    exact hstart u t hbefore hlabel
  | append_singleton after last ih =>
    rw [← List.cons_append, ← List.append_assoc] at hrun
    obtain ⟨u, hbefore, hlast⟩ := hrun.of_concat
    exact hstep _ u last t hbefore (ih hbefore) hlast

/-- The states around a step within a run. -/
theorem Run.split {before after : List Label} (hrun : S.Run (before ++ label :: after) t) :
    ∃ u v, S.Run before u ∧ S.step u label v :=
  hrun.induct_after (I := fun _ => ∃ u v, S.Run before u ∧ S.step u label v)
    (fun u v hbefore hlabel => ⟨u, v, hbefore, hlabel⟩) fun _ _ _ _ _ h _ => h

theorem Reachable.of_init (h : S.init s) : S.Reachable s := ⟨[], .start h⟩

theorem Reachable.next (hs : S.Reachable s) (h : S.step s label t) : S.Reachable t := by
  obtain ⟨labels, hrun⟩ := hs
  exact ⟨labels ++ [label], hrun.next h⟩

/-- A step may use every invariant already known. -/
theorem Reachable.invariant_of {J I : State → Prop} (hs : S.Reachable s)
    (hJ : ∀ s, S.Reachable s → J s) (hinit : ∀ s, S.init s → I s)
    (hstep : ∀ s label t, J s → I s → S.step s label t → I t) : I s := by
  obtain ⟨labels, hrun⟩ := hs
  exact hrun.induct (P := fun _ s => I s) hinit fun labels s label t hrun hI h =>
    hstep s label t (hJ s ⟨labels, hrun⟩) hI h

/-- What every step carries on, every run carries on. -/
theorem Leads.induct {P : State → Prop} (h : S.Leads s t) (hs : P s)
    (hstep : ∀ t label u, P t → S.step t label u → P u) : P t := by
  induction h with
  | refl => exact hs
  | tail _ hnext ih =>
    obtain ⟨label, hnext⟩ := hnext
    exact hstep _ label _ ih hnext

theorem Reachable.leads (hs : S.Reachable s) (h : S.Leads s t) : S.Reachable t :=
  h.induct hs fun _ _ _ hu hnext => hu.next hnext

/-- A run of a restricted system is a run of the system. -/
theorem Run.of_restrict {guard : State → Label → Prop} (hrun : (S.restrict guard).Run labels s) :
    S.Run labels s := by
  induction hrun with
  | start h => exact .start h
  | next _ h ih => exact ih.next h.2

theorem Reachable.of_restrict {guard : State → Label → Prop}
    (hs : (S.restrict guard).Reachable s) : S.Reachable s := by
  obtain ⟨labels, hrun⟩ := hs
  exact ⟨labels, hrun.of_restrict⟩

/-- A function over some labels is a run. -/
theorem run_foldl (init : State) (next : State → Label → State) (labels : List Label) :
    (ofFunction init next).Run labels (labels.foldl next init) := by
  induction labels using List.reverseRecOn with
  | nil => exact .start rfl
  | append_singleton labels label ih =>
    rw [List.foldl_append]
    exact ih.next rfl

/-! ## Traces of functions -/

/-- The steps of a function over a list of labels, each with the state before it. -/
def trace (next : State → Label → State) : State → List Label → List (State × Label)
  | _, [] => []
  | s, label :: labels => (s, label) :: trace next (next s label) labels

variable {next : State → Label → State}

/-- What holds at the start and is preserved by every step of the trace holds before every
step of it. -/
theorem trace_invariant {I : State → Prop} (hs : I s)
    (hstep : ∀ step ∈ trace next s labels, I step.1 → I (next step.1 step.2)) :
    ∀ step ∈ trace next s labels, I step.1 := by
  induction labels generalizing s with
  | nil => simp [trace]
  | cons label labels ih =>
    intro step hmem
    rcases List.mem_cons.mp hmem with rfl | hmem
    · exact hs
    · exact ih (hstep _ List.mem_cons_self hs)
        (fun step hmem => hstep step (List.mem_cons_of_mem _ hmem)) step hmem

end TransitionSystem
