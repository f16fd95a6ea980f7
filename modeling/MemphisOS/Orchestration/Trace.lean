import MemphisOS.Orchestration.Service

/-!
# The trace of a call

The trace lists the invocations a call makes. The loop over the attempts of one provider is
described first; a call makes at most two of them, for different providers.
-/

namespace MemphisOS.Orchestration

open Ecma
open TaskExecutor (GenerateResult)

/-! ## The invocations of one provider -/

def Invocation.Failed (invocation : Invocation) : Prop :=
  ∃ error, invocation.outcome = .error error

/-- The invocation failed with an error after which the provider may be asked again. -/
def Invocation.Retryable (invocation : Invocation) : Prop :=
  ∃ error, invocation.outcome = .error error ∧ isRetryable error = true

/-- The trace of some invocations: each is listed with its number among those of its provider. -/
def traceOf (earlier : List Invocation) : List Invocation → List ProviderTraceAttempt
  | [] => []
  | invocation :: later =>
    traceAttempt (earlier.countP (·.provider = invocation.provider) + 1) invocation ::
      traceOf (earlier ++ [invocation]) later

/-- The result is the outcome of the last invocation and its only success, or an error after
failures only. -/
def EndsWith (result : Outcome) (invocations : List Invocation) : Prop :=
  (∀ out, result = .ok out → ∃ failed last, invocations = failed ++ [last] ∧
    last.outcome = .ok out ∧ ∀ invocation ∈ failed, invocation.Failed) ∧
  ∀ error, result = .error error → ∀ invocation ∈ invocations, invocation.Failed

/-- All attempts have been made, or the last failed with an error that is not retryable. -/
def Over (limit : ℕ) (invocations : List Invocation) : Prop :=
  invocations.length = limit ∨
    ∃ failed last, invocations = failed ++ [last] ∧ last.Failed ∧ ¬last.Retryable

/-- What asking one provider does. -/
structure Attempted (provider : ProviderName) (viaFallback : Bool) (limit : ℕ) (s : CallState)
    (run : Outcome × CallState) (made : List Invocation) : Prop where
  invocations : run.2.invocations = s.invocations ++ made
  traced : run.2.attempts = traceOf [] run.2.invocations
  length : made.length ≤ limit
  provider : ∀ invocation ∈ made,
    invocation.provider = provider ∧ invocation.viaFallback = viaFallback
  retried : made.IsChain fun earlier _ => earlier.Retryable
  ended : EndsWith run.1 made
  spent : ∀ error, run.1 = .error error → Over limit made

variable {deps : OrchestratorDeps} {world : World} {provider : ProviderName} {viaFallback : Bool}
  {s : CallState}

theorem endsWith_ok {failed : List Invocation} {last : Invocation} {out : GenerateResult}
    (hlast : last.outcome = .ok out) (hall : ∀ invocation ∈ failed, invocation.Failed) :
    EndsWith (.ok out) (failed ++ [last]) := by
  refine ⟨fun out' hout => ?_, nofun⟩
  obtain rfl := Except.ok.inj hout
  exact ⟨failed, last, rfl, hlast, hall⟩

theorem endsWith_error {error : Thrown} {invocations : List Invocation}
    (hall : ∀ invocation ∈ invocations, invocation.Failed) : EndsWith (.error error) invocations :=
  ⟨nofun, fun _ _ => hall⟩

/-- A failure before the others does not change how they end. -/
theorem EndsWith.cons {result : Outcome} {invocations : List Invocation} {first : Invocation}
    (h : EndsWith result invocations) (hfirst : first.Failed) :
    EndsWith result (first :: invocations) := by
  refine ⟨fun out hout => ?_, fun error herror invocation hmem => ?_⟩
  · obtain ⟨failed, last, rfl, hlast, hall⟩ := h.1 out hout
    refine ⟨first :: failed, last, rfl, hlast, fun invocation hmem => ?_⟩
    rcases List.mem_cons.mp hmem with rfl | hmem
    · exact hfirst
    · exact hall invocation hmem
  · rcases List.mem_cons.mp hmem with rfl | hmem
    · exact hfirst
    · exact h.2 error herror invocation hmem

theorem traceOf_append (earlier first second : List Invocation) :
    traceOf earlier (first ++ second) = traceOf earlier first ++ traceOf (earlier ++ first) second := by
  induction first generalizing earlier with
  | nil => rw [traceOf, List.append_nil, List.nil_append, List.nil_append]
  | cons invocation first ih =>
    rw [List.cons_append, traceOf, traceOf, ih, List.cons_append, List.append_assoc,
      List.singleton_append]

/-- Appending a numbered attempt keeps the trace. -/
theorem traceOf_snoc {attempt : ℕ} {invocation : Invocation}
    (htraced : s.attempts = traceOf [] s.invocations)
    (hattempt : s.invocations.countP (·.provider = invocation.provider) = attempt) :
    s.attempts ++ [traceAttempt (attempt + 1) invocation] =
      traceOf [] (s.invocations ++ [invocation]) := by
  rw [traceOf_append, traceOf, traceOf, List.nil_append, ← htraced, hattempt]

theorem countP_snoc (log : List Invocation) (invocation : Invocation) :
    (log ++ [invocation]).countP (·.provider = invocation.provider) =
      log.countP (·.provider = invocation.provider) + 1 := by
  rw [List.countP_append, List.countP_singleton, if_pos (decide_eq_true rfl)]

/-- **The attempts of one provider**, from any of them on: the induction is on those that are
left. -/
theorem attempted_retryLoop (remaining attempt : ℕ) (lastError : Option Thrown)
    (htraced : s.attempts = traceOf [] s.invocations)
    (hattempt : s.invocations.countP (·.provider = provider) = attempt)
    (hlimit : ((attempt + remaining : ℕ) : ℤ) = deps.retries + 1 ∨ remaining = 0) :
    ∃ made, Attempted provider viaFallback remaining s
      (retryLoop deps world provider viaFallback remaining attempt lastError s) made := by
  induction remaining generalizing attempt lastError s with
  | zero =>
    rw [retryLoop]
    exact ⟨[], (List.append_nil _).symm, htraced, le_rfl, List.forall_mem_nil _, .nil,
      endsWith_error (List.forall_mem_nil _), fun _ _ => .inl rfl⟩
  | succ remaining ih =>
    have hlimit : ((attempt + (remaining + 1) : ℕ) : ℤ) = deps.retries + 1 :=
      hlimit.resolve_right (Nat.succ_ne_zero remaining)
    rw [retryLoop]
    dsimp only
    have hsnoc := @traceOf_snoc s attempt (invoke world provider viaFallback s) htraced hattempt
    have hprovider : ∀ invocation ∈ [invoke world provider viaFallback s],
        invocation.provider = provider ∧ invocation.viaFallback = viaFallback :=
      List.forall_mem_singleton.mpr ⟨rfl, rfl⟩
    have hcount := (countP_snoc s.invocations (invoke world provider viaFallback s)).trans
      (congrArg (· + 1) hattempt)
    generalize invoke world provider viaFallback s = invocation at hsnoc hprovider hcount ⊢
    cases houtcome : invocation.outcome with
    | ok out =>
      dsimp only
      exact ⟨[invocation], rfl, hsnoc, Nat.le_add_left _ _, hprovider, .singleton _,
        endsWith_ok houtcome (List.forall_mem_nil _), nofun⟩
    | error error =>
      have hfailed : invocation.Failed := ⟨error, houtcome⟩
      dsimp only
      split
      · next hstop =>
        refine ⟨[invocation], rfl, hsnoc, Nat.le_add_left _ _, hprovider, .singleton _,
          endsWith_error (List.forall_mem_singleton.mpr hfailed), fun _ _ => ?_⟩
        rw [Bool.or_eq_true, Bool.not_eq_true', decide_eq_true_eq] at hstop
        rcases hstop with hnot | hlast
        · refine .inr ⟨[], invocation, rfl, hfailed, ?_⟩
          rintro ⟨error', herror', hretryable⟩
          obtain rfl := Except.error.inj (houtcome.symm.trans herror')
          exact Bool.false_ne_true (hnot.symm.trans hretryable)
        · refine .inl ?_
          rw [List.length_singleton]
          omega
      · next hcontinue =>
        rw [Bool.or_eq_true, not_or, Bool.not_eq_true', Bool.not_eq_false, decide_eq_true_eq]
          at hcontinue
        have hretryable : invocation.Retryable := ⟨error, houtcome, hcontinue.1⟩
        have hcount' : (s.fail deps world (attempt + 1) invocation).invocations.countP
            (·.provider = provider) = attempt + 1 := by
          rw [← (hprovider invocation List.mem_cons_self).1]
          exact hcount
        obtain ⟨made, hmade⟩ := @ih (s.fail deps world (attempt + 1) invocation) (attempt + 1)
          (some error) hsnoc hcount' (.inl (by omega))
        refine ⟨invocation :: made, ?_, hmade.traced, Nat.succ_le_succ hmade.length, ?_,
          List.isChain_cons.mpr ⟨fun _ _ => hretryable, hmade.retried⟩, hmade.ended.cons hfailed,
          fun e he => ?_⟩
        · rw [hmade.invocations, CallState.fail, List.append_assoc, List.singleton_append]
        · exact List.forall_mem_cons.mpr ⟨hprovider invocation List.mem_cons_self, hmade.provider⟩
        · rcases hmade.spent e he with hlength | ⟨failed, last, rfl, hlast⟩
          · exact .inl (congrArg (· + 1) hlength)
          · exact .inr ⟨invocation :: failed, last, rfl, hlast⟩

/-- A provider that has not been invoked is asked at most `maxRetries + 1` times. -/
theorem attempted_tryGenerateWithRetry (deps : OrchestratorDeps) (world : World)
    (viaFallback : Bool) (htraced : s.attempts = traceOf [] s.invocations)
    (hfresh : ∀ invocation ∈ s.invocations, invocation.provider ≠ provider) :
    ∃ made, Attempted provider viaFallback (deps.retries + 1).toNat s
      (tryGenerateWithRetry deps world provider viaFallback s) made := by
  refine attempted_retryLoop _ 0 none htraced ?_ (by omega)
  exact List.countP_eq_zero.mpr fun invocation hmem => by simpa using hfresh invocation hmem

/-! ## Calls -/

/-- What the trace of a call promises. -/
structure Faithful (deps : OrchestratorDeps) (request : Request) (run : Outcome × CallState) :
    Prop where
  bounded : ∀ name, (run.2.invocations.countP (·.provider = name) : ℤ) ≤ max 0 (deps.retries + 1)
  /-- No invocation of the primary follows one of the fallback, which is another provider and
  is invoked when the attempts of the primary are over. -/
  fallbackLast : ∃ primary fallback, run.2.invocations = primary ++ fallback ∧
    (∀ invocation ∈ primary, invocation.viaFallback = false) ∧
    (∀ invocation ∈ fallback, invocation.viaFallback = true) ∧
    (∀ a ∈ primary, ∀ b ∈ fallback, a.provider ≠ b.provider) ∧
    (fallback ≠ [] → primary = [] ∨ Over (deps.retries + 1).toNat primary)
  traced : run.2.attempts = traceOf [] run.2.invocations
  retried : run.2.invocations.IsChain fun earlier later =>
    earlier.provider = later.provider → earlier.Retryable
  returned : ∀ out, run.1 = .ok out → ∃ failed last result, run.2.invocations = failed ++ [last] ∧
    last.outcome = .ok result ∧
    out = { result with trace := some (traceMembers request run.2.attempts) } ∧
    ∀ invocation ∈ failed, invocation.Failed
  thrown : ∀ error, run.1 = .error error → ∀ invocation ∈ run.2.invocations, invocation.Failed

variable {request : Request} {primary fallback : List Invocation} {name : ProviderName}
  {error : Thrown}

/-- All invocations of one provider are counted under its name only. -/
theorem countP_of_provider (hall : ∀ invocation ∈ primary, invocation.provider = provider) :
    primary.countP (·.provider = name) = if provider = name then primary.length else 0 := by
  split
  · next heq =>
    exact List.countP_eq_length.mpr fun invocation hmem => decide_eq_true ((hall _ hmem).trans heq)
  · next hne =>
    refine List.countP_eq_zero.mpr fun invocation hmem => ?_
    rw [hall _ hmem, decide_eq_true_eq]
    exact hne

/-- A call whose invocations are those of one loop. -/
theorem faithful_of_attempted {run : Outcome × CallState} {made : List Invocation}
    (hs : s.invocations = []) (hmade : Attempted provider viaFallback (deps.retries + 1).toNat s
      (tryGenerateWithRetry deps world provider viaFallback s) made)
    (hstate : run.2 = (tryGenerateWithRetry deps world provider viaFallback s).2)
    (hended : ∀ error, run.1 = .error error →
      ∃ error', (tryGenerateWithRetry deps world provider viaFallback s).1 = .error error')
    (hreturned : ∀ out, run.1 = .ok out → ∃ result,
      (tryGenerateWithRetry deps world provider viaFallback s).1 = .ok result ∧
        out = { result with trace := some (traceMembers request run.2.attempts) }) :
    Faithful deps request run := by
  have hlog : run.2.invocations = made := by
    rw [hstate, hmade.invocations, hs, List.nil_append]
  refine ⟨?_, ?_, ?_, ?_, ?_, ?_⟩
  · intro name
    rw [hlog, countP_of_provider fun invocation hmem => (hmade.provider invocation hmem).1]
    have hlength := hmade.length
    split
    · omega
    · omega
  · rw [hlog]
    cases viaFallback with
    | false =>
      exact ⟨made, [], (List.append_nil made).symm, fun _ hmem => (hmade.provider _ hmem).2,
        List.forall_mem_nil _, fun _ _ => List.forall_mem_nil _, fun hne => absurd rfl hne⟩
    | true =>
      exact ⟨[], made, rfl, List.forall_mem_nil _, fun _ hmem => (hmade.provider _ hmem).2,
        List.forall_mem_nil _, fun _ => .inl rfl⟩
  · rw [hstate]
    exact hmade.traced
  · rw [hlog]
    exact hmade.retried.imp fun _ _ h _ => h
  · intro out hout
    obtain ⟨result, hresult, heq⟩ := hreturned out hout
    obtain ⟨failed, last, hsplit, hlast, hall⟩ := hmade.ended.1 result hresult
    exact ⟨failed, last, result, hlog.trans hsplit, hlast, heq, hall⟩
  · intro error herror
    obtain ⟨error', herror'⟩ := hended error herror
    rw [hlog]
    exact hmade.ended.2 error' herror'

/-- A call that has asked no provider. -/
theorem faithful_nothing (deps : OrchestratorDeps) (request : Request) {error : Thrown}
    (hinvocations : s.invocations = []) (hattempts : s.attempts = []) :
    Faithful deps request (.error error, s) := by
  refine ⟨fun name => ?_, ⟨[], [], hinvocations, List.forall_mem_nil _, List.forall_mem_nil _,
    List.forall_mem_nil _, fun _ => .inl rfl⟩, ?_, ?_, nofun, fun _ _ => ?_⟩
  · rw [hinvocations, List.countP_nil]
    exact le_max_left _ _
  · rw [hattempts, hinvocations, traceOf]
  · rw [hinvocations]
    exact .nil
  · rw [hinvocations]
    exact List.forall_mem_nil _

/-- A call whose primary has failed and which goes on to the fallback. -/
theorem faithful_fallback {result : Outcome} {p f : ProviderName} {s' s'' : CallState}
    (hprimary : Attempted p false (deps.retries + 1).toNat s (.error error, s') primary)
    (hs : s.invocations = []) (hne : p ≠ f)
    (hfallback : Attempted f true (deps.retries + 1).toNat s' (result, s'') fallback)
    {run : Outcome × CallState} (hstate : run.2 = s'')
    (hended : ∀ error, run.1 = .error error → ∃ error', result = .error error')
    (hreturned : ∀ out, run.1 = .ok out → ∃ result', result = .ok result' ∧
      out = { result' with trace := some (traceMembers request run.2.attempts) }) :
    Faithful deps request run := by
  have hlog : run.2.invocations = primary ++ fallback := by
    rw [hstate, hfallback.invocations, hprimary.invocations, hs, List.nil_append]
  have hfailed := hprimary.ended.2 error rfl
  have hproviders : ∀ a ∈ primary, ∀ b ∈ fallback, a.provider ≠ b.provider := by
    intro a ha b hb heq
    exact hne ((hprimary.provider a ha).1.symm.trans (heq.trans (hfallback.provider b hb).1))
  refine ⟨?_, ?_, ?_, ?_, ?_, ?_⟩
  · intro name
    have hp := hprimary.length
    have hf := hfallback.length
    rw [hlog, List.countP_append,
      countP_of_provider fun invocation hmem => (hprimary.provider invocation hmem).1,
      countP_of_provider fun invocation hmem => (hfallback.provider invocation hmem).1]
    by_cases hpn : p = name
    · rw [if_pos hpn, if_neg fun hfn => hne (hpn.trans hfn.symm)]
      omega
    · rw [if_neg hpn]
      split
      · omega
      · omega
  · exact ⟨primary, fallback, hlog, fun _ hmem => (hprimary.provider _ hmem).2,
      fun _ hmem => (hfallback.provider _ hmem).2, hproviders,
      fun _ => .inr (hprimary.spent error rfl)⟩
  · rw [hstate]
    exact hfallback.traced
  · rw [hlog, List.isChain_append]
    refine ⟨hprimary.retried.imp fun _ _ h _ => h, hfallback.retried.imp fun _ _ h _ => h, ?_⟩
    intro a ha b hb heq
    exact absurd heq (hproviders a (List.mem_of_getLast? ha) b (List.mem_of_head? hb))
  · intro out hout
    obtain ⟨result', hresult, heq⟩ := hreturned out hout
    obtain ⟨failed, last, rfl, hlast, hall⟩ := hfallback.ended.1 result' hresult
    refine ⟨primary ++ failed, last, result', ?_, hlast, heq, ?_⟩
    · rw [hlog, List.append_assoc]
    · exact List.forall_mem_append.mpr ⟨hfailed, hall⟩
  · intro e he
    obtain ⟨error', herror'⟩ := hended e he
    rw [hlog]
    exact List.forall_mem_append.mpr ⟨hfailed, hfallback.ended.2 error' herror'⟩

/-! ## Every call -/

/-- Attaching the trace keeps what the call did. -/
theorem withTrace_snd (request : Request) (asked : Outcome × CallState) :
    (withTrace request asked).2 = asked.2 := by
  obtain ⟨result | result, s⟩ := asked <;> rfl

theorem withTrace_error {asked : Outcome × CallState}
    (h : (withTrace request asked).1 = .error error) : asked.1 = .error error := by
  obtain ⟨result | result, s⟩ := asked
  · exact h
  · cases h

theorem withTrace_ok {asked : Outcome × CallState} {out : GenerateResult}
    (h : (withTrace request asked).1 = .ok out) : ∃ result, asked.1 = .ok result ∧
      out = { result with
        trace := some (traceMembers request (withTrace request asked).2.attempts) } := by
  obtain ⟨result | result, s⟩ := asked
  · cases h
  · exact ⟨result, rfl, (Except.ok.inj h).symm⟩

/-- **The trace of every call is faithful**, whichever providers are configured, requested and in
cooldown, and whatever they return or throw. -/
theorem trace_faithful (deps : OrchestratorDeps) (world : World) (request : Request)
    (cooldownUntil : Cooldowns) :
    Faithful deps request (generateWithProviders deps world request cooldownUntil) := by
  have hasks := asks_generateWithProviders deps world request cooldownUntil
  generalize generateWithProviders deps world request cooldownUntil = run at hasks ⊢
  cases hasks with
  | nobody => exact faithful_nothing deps request rfl rfl
  | @fallback error readings name =>
    obtain ⟨made, hmade⟩ := @attempted_tryGenerateWithRetry name (.opened cooldownUntil readings)
      deps world true rfl (List.forall_mem_nil _)
    exact faithful_of_attempted rfl hmade (withTrace_snd request _)
      (fun _ h => ⟨_, withTrace_error h⟩) fun _ h => withTrace_ok h
  | @primary primary readings out s _ hasked =>
    obtain ⟨made, hmade⟩ := @attempted_tryGenerateWithRetry primary
      (.opened cooldownUntil readings) deps world false rfl (List.forall_mem_nil _)
    rw [← hasked]
    exact faithful_of_attempted rfl hmade (withTrace_snd request _)
      (fun _ h => ⟨_, withTrace_error h⟩) fun _ h => withTrace_ok h
  | @primaryFails primary readings error s _ hasked =>
    obtain ⟨made, hmade⟩ := @attempted_tryGenerateWithRetry primary
      (.opened cooldownUntil readings) deps world false rfl (List.forall_mem_nil _)
    exact faithful_of_attempted rfl hmade (by rw [hasked]) (fun _ _ => ⟨error, by rw [hasked]⟩) nofun
  | @both primary name readings error s _ hasked _ _ hne =>
    obtain ⟨made, hmade⟩ := @attempted_tryGenerateWithRetry primary
      (.opened cooldownUntil readings) deps world false rfl (List.forall_mem_nil _)
    rw [hasked] at hmade
    have hfresh : ∀ invocation ∈ s.invocations, invocation.provider ≠ name := by
      intro invocation hmem heq
      rw [hmade.invocations] at hmem
      exact hne ((hmade.provider invocation hmem).1.symm.trans heq)
    obtain ⟨made', hmade'⟩ := @attempted_tryGenerateWithRetry name s deps world true hmade.traced
      hfresh
    exact faithful_fallback hmade rfl hne hmade' (withTrace_snd request _)
      (fun _ h => ⟨_, withTrace_error h⟩) fun _ h => withTrace_ok h

end MemphisOS.Orchestration
