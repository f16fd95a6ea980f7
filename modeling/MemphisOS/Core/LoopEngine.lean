import MemphisOS.Ecma.Strings
import Mathlib.Algebra.BigOperators.Group.List.Basic
import Mathlib.Algebra.GroupWithZero.Nat
import Mathlib.Algebra.Order.Monoid.Prod

/-!
# The loop engine

The state machine that meters a loop: it counts steps, tool calls, waits and errors with
saturating counters and halts at the first limit that is exceeded.
-/

namespace MemphisCore

open Ecma

inductive LoopAction where
  | toolCall (tool : Text)
  | wait (durationMs : UInt64)
  | complete (summary : Text)
  | error (recoverable : Bool) (message : Text)
  deriving DecidableEq

structure LoopLimits where
  maxSteps : UInt32 := 32
  maxToolCalls : UInt32 := 16
  maxWaitMs : UInt64 := 120000
  maxErrors : UInt32 := 4
  deriving DecidableEq

structure LoopState where
  steps : UInt32
  toolCalls : UInt32
  waitMs : UInt64
  errors : UInt32
  completed : Bool
  haltReason : Option Text
  deriving DecidableEq

/-- `u32::saturating_add`. -/
def saturatingAdd32 (a b : UInt32) : UInt32 :=
  if a.toNat + b.toNat < 2 ^ 32 then a + b else UInt32.ofNat (2 ^ 32 - 1)

/-- `u64::saturating_add`. -/
def saturatingAdd64 (a b : UInt64) : UInt64 :=
  if a.toNat + b.toNat < 2 ^ 64 then a + b else UInt64.ofNat (2 ^ 64 - 1)

def LoopState.new : LoopState := ⟨0, 0, 0, 0, false, none⟩

def LoopState.shouldHalt (state : LoopState) : Bool := state.completed || state.haltReason.isSome

/-- The state after an action, and the result. -/
abbrev LoopOutcome := LoopState × Except Text Unit

/-- Halt for a reason and return it as the error. -/
def LoopState.halt (state : LoopState) (reason : String) : LoopOutcome :=
  ({ state with haltReason := some reason.toList }, .error reason.toList)

def LoopState.apply (state : LoopState) (action : LoopAction) (limits : LoopLimits) : LoopOutcome :=
  if state.shouldHalt then (state, .error "loop_already_halted".toList)
  else
    let state := { state with steps := saturatingAdd32 state.steps 1 }
    if state.steps > limits.maxSteps then state.halt "max_steps_exceeded"
    else
      match action with
      | .toolCall _ =>
        let state := { state with toolCalls := saturatingAdd32 state.toolCalls 1 }
        if state.toolCalls > limits.maxToolCalls then state.halt "max_tool_calls_exceeded"
        else (state, .ok ())
      | .wait durationMs =>
        let state := { state with waitMs := saturatingAdd64 state.waitMs durationMs }
        if state.waitMs > limits.maxWaitMs then state.halt "max_wait_exceeded"
        else (state, .ok ())
      | .error recoverable _ =>
        let state := { state with errors := saturatingAdd32 state.errors 1 }
        if state.errors > limits.maxErrors then state.halt "max_errors_exceeded"
        else if recoverable then (state, .ok ())
        else ({ state with
          completed := true
          haltReason := some "non_recoverable_error".toList }, .ok ())
      | .complete _ => ({ state with completed := true }, .ok ())

/-- The actions applied one after another, each with its result. -/
def LoopState.run (limits : LoopLimits) :
    LoopState → List LoopAction → LoopState × List (LoopAction × Except Text Unit)
  | state, [] => (state, [])
  | state, action :: actions =>
    let outcome := state.apply action limits
    let rest := outcome.1.run limits actions
    (rest.1, (action, outcome.2) :: rest.2)

/-! ## What is used up -/

/-- Steps, tool calls, milliseconds of waiting and errors, as unbounded numbers. -/
abbrev Usage := ℕ × ℕ × ℕ × ℕ

def LoopAction.usage : LoopAction → Usage
  | .toolCall _ => (1, 1, 0, 0)
  | .wait durationMs => (1, 0, durationMs.toNat, 0)
  | .complete _ => (1, 0, 0, 0)
  | .error _ _ => (1, 0, 0, 1)

def LoopState.usage (state : LoopState) : Usage :=
  (state.steps.toNat, state.toolCalls.toNat, state.waitMs.toNat, state.errors.toNat)

def LoopLimits.usage (limits : LoopLimits) : Usage :=
  (limits.maxSteps.toNat, limits.maxToolCalls.toNat, limits.maxWaitMs.toNat, limits.maxErrors.toNat)

/-- Every limit is below the maximum of its type. -/
structure LoopLimits.BelowMax (limits : LoopLimits) : Prop where
  steps : limits.maxSteps.toNat < 2 ^ 32 - 1
  toolCalls : limits.maxToolCalls.toNat < 2 ^ 32 - 1
  waitMs : limits.maxWaitMs.toNat < 2 ^ 64 - 1
  errors : limits.maxErrors.toNat < 2 ^ 32 - 1

/-- A counter that has not passed a limit below the maximum has not saturated. -/
theorem toNat_saturatingAdd32 {a b limit : UInt32} (hlimit : limit.toNat < 2 ^ 32 - 1)
    (h : ¬saturatingAdd32 a b > limit) :
    (saturatingAdd32 a b).toNat = a.toNat + b.toNat ∧ a.toNat + b.toNat ≤ limit.toNat := by
  rw [gt_iff_lt, UInt32.lt_iff_toNat_lt] at h
  by_cases hsum : a.toNat + b.toNat < 2 ^ 32
  · have hadd : (saturatingAdd32 a b).toNat = a.toNat + b.toNat := by
      rw [saturatingAdd32, if_pos hsum, UInt32.toNat_add]
      omega
    exact ⟨hadd, by omega⟩
  · rw [saturatingAdd32, if_neg hsum, UInt32.toNat_ofNat'] at h
    omega

theorem toNat_saturatingAdd64 {a b limit : UInt64} (hlimit : limit.toNat < 2 ^ 64 - 1)
    (h : ¬saturatingAdd64 a b > limit) :
    (saturatingAdd64 a b).toNat = a.toNat + b.toNat ∧ a.toNat + b.toNat ≤ limit.toNat := by
  rw [gt_iff_lt, UInt64.lt_iff_toNat_lt] at h
  by_cases hsum : a.toNat + b.toNat < 2 ^ 64
  · have hadd : (saturatingAdd64 a b).toNat = a.toNat + b.toNat := by
      rw [saturatingAdd64, if_pos hsum, UInt64.toNat_add]
      omega
    exact ⟨hadd, by omega⟩
  · rw [saturatingAdd64, if_neg hsum, UInt64.toNat_ofNat'] at h
    omega

/-! ## One action -/

/-- An action after which nothing more is applied. -/
def LoopAction.Final : LoopAction → Prop
  | .complete _ => True
  | .error recoverable _ => recoverable = false
  | _ => False

variable {state : LoopState} {action : LoopAction} {limits : LoopLimits}

/-- A halted state answers every action with an error and does not change. -/
theorem apply_of_shouldHalt (h : state.shouldHalt = true) :
    state.apply action limits = (state, .error "loop_already_halted".toList) := by
  rw [LoopState.apply, if_pos h]

theorem shouldHalt_halt (state : LoopState) (reason : String) :
    (state.halt reason).1.shouldHalt = true := by
  simp [LoopState.halt, LoopState.shouldHalt]

/-- **One action.** An error halts. An accepted action is exactly accounted for within the limits,
and halts when it is a final one. -/
theorem apply_spec (hlimits : limits.BelowMax) (hstate : state.usage ≤ limits.usage)
    (action : LoopAction) :
    match (state.apply action limits).2 with
    | .error _ => (state.apply action limits).1.shouldHalt = true
    | .ok () => (state.apply action limits).1.usage = state.usage + action.usage ∧
        state.usage + action.usage ≤ limits.usage ∧
        (action.Final → (state.apply action limits).1.shouldHalt = true) := by
  obtain ⟨hsteps, htools, hwait, herrors⟩ : state.steps.toNat ≤ limits.maxSteps.toNat ∧
      state.toolCalls.toNat ≤ limits.maxToolCalls.toNat ∧
      state.waitMs.toNat ≤ limits.maxWaitMs.toNat ∧
      state.errors.toNat ≤ limits.maxErrors.toNat := hstate
  by_cases hhalt : state.shouldHalt = true
  · rw [apply_of_shouldHalt hhalt]
    exact hhalt
  · by_cases hstep : saturatingAdd32 state.steps 1 > limits.maxSteps
    · have happly : state.apply action limits =
          { state with steps := saturatingAdd32 state.steps 1 }.halt "max_steps_exceeded" := by
        rw [LoopState.apply, if_neg hhalt]
        exact if_pos hstep
      rw [happly]
      exact shouldHalt_halt _ _
    · obtain ⟨hstepAdd, hstepLe⟩ := toNat_saturatingAdd32 hlimits.steps hstep
      rw [LoopState.apply, if_neg hhalt]
      simp only [if_neg hstep]
      cases action with
      | toolCall tool =>
        by_cases htool : saturatingAdd32 state.toolCalls 1 > limits.maxToolCalls
        · simp only [if_pos htool]
          exact shouldHalt_halt _ _
        · obtain ⟨htoolAdd, htoolLe⟩ := toNat_saturatingAdd32 hlimits.toolCalls htool
          simp only [if_neg htool]
          refine ⟨?_, ⟨hstepLe, htoolLe, hwait, herrors⟩, False.elim⟩
          simp only [LoopState.usage, LoopAction.usage, hstepAdd, htoolAdd]
          rfl
      | wait durationMs =>
        by_cases hover : saturatingAdd64 state.waitMs durationMs > limits.maxWaitMs
        · simp only [if_pos hover]
          exact shouldHalt_halt _ _
        · obtain ⟨hwaitAdd, hwaitLe⟩ := toNat_saturatingAdd64 hlimits.waitMs hover
          simp only [if_neg hover]
          refine ⟨?_, ⟨hstepLe, htools, hwaitLe, herrors⟩, False.elim⟩
          simp only [LoopState.usage, LoopAction.usage, hstepAdd, hwaitAdd]
          rfl
      | error recoverable message =>
        by_cases herror : saturatingAdd32 state.errors 1 > limits.maxErrors
        · simp only [if_pos herror]
          exact shouldHalt_halt _ _
        · obtain ⟨herrorAdd, herrorLe⟩ := toNat_saturatingAdd32 hlimits.errors herror
          simp only [if_neg herror]
          cases recoverable with
          | true =>
            refine ⟨?_, ⟨hstepLe, htools, hwait, herrorLe⟩, fun hfinal => Bool.noConfusion hfinal⟩
            simp only [if_true, LoopState.usage, LoopAction.usage, hstepAdd, herrorAdd]
            rfl
          | false =>
            refine ⟨?_, ⟨hstepLe, htools, hwait, herrorLe⟩, fun _ => rfl⟩
            simp only [Bool.false_eq_true, if_false, LoopState.usage, LoopAction.usage, hstepAdd,
              herrorAdd]
            rfl
      | complete summary =>
        refine ⟨?_, ⟨hstepLe, htools, hwait, herrors⟩, fun _ => rfl⟩
        simp only [LoopState.usage, LoopAction.usage, hstepAdd]
        rfl

/-! ## Runs -/

/-- The actions of a run that were accepted. -/
def accepted (log : List (LoopAction × Except Text Unit)) : List LoopAction :=
  (log.filter fun entry => entry.2.isOk).map Prod.fst

/-- A halted state stays as it is and accepts nothing. -/
theorem run_of_shouldHalt (h : state.shouldHalt = true) (actions : List LoopAction) :
    state.run limits actions =
      (state, actions.map fun action => (action, .error "loop_already_halted".toList)) := by
  induction actions with
  | nil => rfl
  | cons action actions ih =>
    rw [LoopState.run, apply_of_shouldHalt h]
    simp only [ih, List.map_cons]

/-- A run accepts no more than what is left of the limits. -/
theorem usage_accepted_le (hlimits : limits.BelowMax) (hstate : state.usage ≤ limits.usage)
    (actions : List LoopAction) :
    state.usage + ((accepted (state.run limits actions).2).map LoopAction.usage).sum ≤
      limits.usage := by
  induction actions generalizing state with
  | nil =>
    rw [LoopState.run, accepted, List.filter_nil, List.map_nil, List.map_nil, List.sum_nil, add_zero]
    exact hstate
  | cons action actions ih =>
    have hspec := apply_spec hlimits hstate action
    rw [LoopState.run]
    cases hresult : (state.apply action limits).2 with
    | error reason =>
      rw [hresult] at hspec
      have hnone : accepted ((action, .error reason) ::
          ((state.apply action limits).1.run limits actions).2) = [] := by
        rw [run_of_shouldHalt hspec]
        simp [accepted, Except.isOk, Except.toBool]
      simp only [hnone, List.map_nil, List.sum_nil, add_zero]
      exact hstate
    | ok u =>
      rw [hresult] at hspec
      obtain ⟨husage, hle, -⟩ := hspec
      have hnext : (state.apply action limits).1.usage ≤ limits.usage := husage ▸ hle
      have hrest := ih hnext
      rw [husage, add_assoc] at hrest
      exact hrest

/-- A state that a run reaches has halted or is within the limits. -/
theorem run_within (hlimits : limits.BelowMax)
    (hstate : state.shouldHalt = true ∨ state.usage ≤ limits.usage) (actions : List LoopAction) :
    (state.run limits actions).1.shouldHalt = true ∨
      (state.run limits actions).1.usage ≤ limits.usage := by
  induction actions generalizing state with
  | nil => exact hstate
  | cons action actions ih =>
    refine ih ?_
    rcases hstate with hhalt | hle
    · rw [apply_of_shouldHalt hhalt]
      exact .inl hhalt
    · have hspec := apply_spec hlimits hle action
      split at hspec
      · exact .inl hspec
      · rw [hspec.1]
        exact .inr hspec.2.1

/-- An error or a final action leaves a halted state. -/
theorem shouldHalt_apply (hlimits : limits.BelowMax)
    (hstate : state.shouldHalt = true ∨ state.usage ≤ limits.usage)
    (h : (state.apply action limits).2 ≠ .ok () ∨ action.Final) :
    (state.apply action limits).1.shouldHalt = true := by
  rcases hstate with hhalt | hle
  · rw [apply_of_shouldHalt hhalt]
    exact hhalt
  · have hspec := apply_spec hlimits hle action
    split at hspec
    · exact hspec
    · next hok => exact hspec.2.2 (h.resolve_left fun hne => hne hok)

def LoopAction.isToolCall : LoopAction → Bool
  | .toolCall _ => true
  | _ => false

def LoopAction.isError : LoopAction → Bool
  | .error _ _ => true
  | _ => false

/-- The milliseconds an action waits. -/
def LoopAction.waits : LoopAction → ℕ
  | .wait durationMs => durationMs.toNat
  | _ => 0

/-- The usage of actions, counted one by one. -/
theorem sum_usage (actions : List LoopAction) : (actions.map LoopAction.usage).sum =
    (actions.length, actions.countP LoopAction.isToolCall, (actions.map LoopAction.waits).sum,
      actions.countP LoopAction.isError) := by
  induction actions with
  | nil => rfl
  | cons action actions ih =>
    rw [List.map_cons, List.sum_cons, ih, List.length_cons, List.countP_cons, List.countP_cons,
      List.map_cons, List.sum_cons]
    cases action <;>
      simp [LoopAction.usage, LoopAction.isToolCall, LoopAction.isError, LoopAction.waits, add_comm]

/-- **Loop limits.** Over any run from a new state the accepted actions stay within the limits, and
nothing is accepted or changed after an error, a `Complete` or a non-recoverable `Error`. -/
theorem loop_limits_hold (hlimits : limits.BelowMax) (actions : List LoopAction) :
    let admitted := accepted (LoopState.new.run limits actions).2
    admitted.length ≤ limits.maxSteps.toNat ∧
      admitted.countP LoopAction.isToolCall ≤ limits.maxToolCalls.toNat ∧
      admitted.countP LoopAction.isError ≤ limits.maxErrors.toNat ∧
      (admitted.map LoopAction.waits).sum ≤ limits.maxWaitMs.toNat ∧
      ∀ before action after,
        let outcome := (LoopState.new.run limits before).1.apply action limits
        outcome.2 ≠ .ok () ∨ action.Final →
          outcome.1.shouldHalt = true ∧ outcome.1.run limits after =
            (outcome.1, after.map fun action => (action, .error "loop_already_halted".toList)) := by
  have hnew : LoopState.new.usage ≤ limits.usage := ⟨Nat.zero_le _, Nat.zero_le _, Nat.zero_le _,
    Nat.zero_le _⟩
  have husage := usage_accepted_le hlimits hnew actions
  have hzero : LoopState.new.usage = 0 := rfl
  rw [hzero, zero_add, sum_usage] at husage
  obtain ⟨hsteps, htools, hwaits, herrors⟩ := husage
  refine ⟨hsteps, htools, herrors, hwaits, ?_⟩
  intro before action after outcome hfinal
  have hhalt : outcome.1.shouldHalt = true :=
    shouldHalt_apply hlimits (run_within hlimits (.inr hnew) before) hfinal
  exact ⟨hhalt, run_of_shouldHalt hhalt after⟩

/-- Two tool calls under a limit of one. -/
theorem loop_limits_hold_sample :
    (accepted (LoopState.new.run ⟨10, 1, 1000, 1⟩ [.toolCall "web_search".toList,
      .toolCall "bash".toList]).2).countP LoopAction.isToolCall ≤ 1 :=
  (loop_limits_hold ⟨by decide, by decide, by decide, by decide⟩ [.toolCall "web_search".toList,
    .toolCall "bash".toList]).2.1

end MemphisCore
