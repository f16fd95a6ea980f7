import MemphisOS.Orchestration.Trace

/-!
# Cooldowns of providers

The primary of a call must not be in cooldown. The fallback is asked in any case, also while it
is in a cooldown from before the call.
-/

namespace MemphisOS.Orchestration

open Ecma
open TaskExecutor (GenerateResult)

/-! ## The times of the attempts -/

/-- How many attempts fail until a provider is given up, from the `k`-th invocation of the call on;
none when an attempt succeeds. -/
def failedAttempts (outcome : ℕ → Outcome) : ℕ → ℕ → Option ℕ
  | 0, _ => some 0
  | remaining + 1, k =>
    match outcome k with
    | .ok _ => none
    | .error error =>
      if isRetryable error then (failedAttempts outcome remaining (k + 1)).map (· + 1) else some 1

/-- When the attempts of a provider are made. -/
structure Timed (world : World) (limit : ℕ) (s : CallState) (run : Outcome × CallState)
    (made : List Invocation) : Prop where
  invocations : run.2.invocations = s.invocations ++ made
  later : ∀ invocation ∈ made, ∃ i, s.readings ≤ i ∧ invocation.startedAt = world.clock.now i
  first : limit ≠ 0 → ∃ invocation ∈ made, invocation.startedAt = world.clock.now s.readings
  readings : s.readings ≤ run.2.readings
  failed : ∀ error, run.1 = .error error →
    failedAttempts world.outcome limit s.invocations.length = some made.length ∧
      run.2.readings = s.readings + 3 * made.length
  succeeded : ∀ out, run.1 = .ok out →
    failedAttempts world.outcome limit s.invocations.length = none ∧ made ≠ []

variable {deps : OrchestratorDeps} {world : World} {provider : ProviderName} {viaFallback : Bool}
  {s : CallState}

theorem timed_retryLoop (remaining attempt : ℕ) (lastError : Option Thrown)
    (hlimit : ((attempt + remaining : ℕ) : ℤ) = deps.retries + 1 ∨ remaining = 0) :
    ∃ made, Timed world remaining s
      (retryLoop deps world provider viaFallback remaining attempt lastError s) made := by
  induction remaining generalizing attempt lastError s with
  | zero =>
    rw [retryLoop]
    exact ⟨[], (List.append_nil _).symm, List.forall_mem_nil _, fun hne => absurd rfl hne, le_rfl,
      fun _ _ => ⟨rfl, rfl⟩, fun _ h => by cases h⟩
  | succ remaining ih =>
    have hlimit : ((attempt + (remaining + 1) : ℕ) : ℤ) = deps.retries + 1 :=
      hlimit.resolve_right (Nat.succ_ne_zero remaining)
    rw [retryLoop]
    dsimp only
    have hstarted : (invoke world provider viaFallback s).startedAt = world.clock.now s.readings :=
      rfl
    have hworld : (invoke world provider viaFallback s).outcome =
        world.outcome s.invocations.length := rfl
    generalize invoke world provider viaFallback s = invocation at hstarted hworld ⊢
    have hlater : ∀ made ∈ [invocation], ∃ i, s.readings ≤ i ∧
        made.startedAt = world.clock.now i :=
      List.forall_mem_singleton.mpr ⟨s.readings, le_rfl, hstarted⟩
    have hnext : (s.fail deps world (attempt + 1) invocation).invocations.length =
        s.invocations.length + 1 := List.length_append
    cases houtcome : invocation.outcome with
    | ok out =>
      dsimp only
      refine ⟨[invocation], rfl, hlater, fun _ => ⟨invocation, List.mem_cons_self, hstarted⟩,
        Nat.le_add_right _ _, (fun _ h => by cases h), fun _ _ => ⟨?_, List.cons_ne_nil _ _⟩⟩
      rw [failedAttempts, ← hworld, houtcome]
    | error error =>
      dsimp only
      split
      · next hstop =>
        refine ⟨[invocation], rfl, hlater, fun _ => ⟨invocation, List.mem_cons_self, hstarted⟩,
          Nat.le_add_right _ _, fun _ _ => ⟨?_, rfl⟩, fun _ h => by cases h⟩
        rw [failedAttempts, ← hworld, houtcome]
        dsimp only
        split
        · next hretryable =>
          -- The last attempt that is left.
          rw [hretryable, Bool.not_true, Bool.false_or, decide_eq_true_eq] at hstop
          obtain rfl : remaining = 0 := by omega
          rfl
        · rfl
      · next hcontinue =>
        rw [Bool.or_eq_true, not_or, Bool.not_eq_true', Bool.not_eq_false, decide_eq_true_eq]
          at hcontinue
        obtain ⟨made, hmade⟩ := @ih (s.fail deps world (attempt + 1) invocation) (attempt + 1)
          (some error) (.inl (by omega))
        have hspec : failedAttempts world.outcome (remaining + 1) s.invocations.length =
            (failedAttempts world.outcome remaining (s.invocations.length + 1)).map (· + 1) := by
          rw [failedAttempts, ← hworld, houtcome]
          exact if_pos hcontinue.1
        refine ⟨invocation :: made, ?_, ?_, fun _ => ⟨invocation, List.mem_cons_self, hstarted⟩,
          (Nat.le_add_right _ 3).trans hmade.readings, fun e he => ?_, fun out hout => ?_⟩
        · rw [hmade.invocations, CallState.fail, List.append_assoc, List.singleton_append]
        · intro other hmem
          rcases List.mem_cons.mp hmem with rfl | hmem
          · exact ⟨s.readings, le_rfl, hstarted⟩
          · obtain ⟨i, hi, hnow⟩ := hmade.later other hmem
            exact ⟨i, (Nat.le_add_right _ 3).trans hi, hnow⟩
        · obtain ⟨hfailed, hreadings⟩ := hmade.failed e he
          rw [hnext] at hfailed
          refine ⟨by rw [hspec, hfailed]; rfl, ?_⟩
          rw [hreadings, CallState.fail, List.length_cons]
          ring
        · obtain ⟨hfailed, -⟩ := hmade.succeeded out hout
          rw [hnext] at hfailed
          exact ⟨by rw [hspec, hfailed]; rfl, List.cons_ne_nil _ _⟩

theorem timed_tryGenerateWithRetry (deps : OrchestratorDeps) (world : World)
    (provider : ProviderName) (viaFallback : Bool) (s : CallState) :
    ∃ made, Timed world (deps.retries + 1).toNat s
      (tryGenerateWithRetry deps world provider viaFallback s) made :=
  timed_retryLoop _ 0 none (by omega)

/-- The invocations of one provider, with their times. -/
theorem asked_tryGenerateWithRetry (deps : OrchestratorDeps) (world : World) (viaFallback : Bool)
    (htraced : s.attempts = traceOf [] s.invocations)
    (hfresh : ∀ invocation ∈ s.invocations, invocation.provider ≠ provider) :
    ∃ made, Attempted provider viaFallback (deps.retries + 1).toNat s
        (tryGenerateWithRetry deps world provider viaFallback s) made ∧
      Timed world (deps.retries + 1).toNat s
        (tryGenerateWithRetry deps world provider viaFallback s) made := by
  obtain ⟨made, hmade⟩ := attempted_tryGenerateWithRetry deps world viaFallback htraced hfresh
  obtain ⟨made', hmade'⟩ := timed_tryGenerateWithRetry deps world provider viaFallback s
  have hsame := List.append_cancel_left (hmade.invocations.symm.trans hmade'.invocations)
  exact ⟨made, hmade, hsame ▸ hmade'⟩

/-! ## Which cooldowns a call respects -/

/-- A provider a call may ask: the requested one, or any for `'auto'`, and the fallback. -/
def Candidate (deps : OrchestratorDeps) (request : Request) (name : ProviderName) : Prop :=
  name ∈ deps.registered ∧ (deps.fallbackProvider = some name ∨
    ∀ requested, request.provider = some (some requested) → requested = name)

/-- No provider is asked in a cooldown from before the call, and a call whose candidates are all in
cooldown fails without asking one. -/
structure RespectsCooldowns (deps : OrchestratorDeps) (world : World) (request : Request)
    (cooldownUntil : Cooldowns) : Prop where
  invoked : ∀ invocation ∈ (generateWithProviders deps world request cooldownUntil).2.invocations,
    isInCooldown cooldownUntil invocation.provider invocation.startedAt = false
  cooling : (∀ name, Candidate deps request name → ∀ i,
      isInCooldown cooldownUntil name (world.clock.now i) = true) →
    (∃ error, (generateWithProviders deps world request cooldownUntil).1 = .error error) ∧
      (generateWithProviders deps world request cooldownUntil).2.invocations = []

/-- The reading of the clock at which the fallback would be asked: after the primary could not be
resolved, or after as many attempts as its outcomes make fail. -/
def fallbackStart (deps : OrchestratorDeps) (world : World) (request : Request)
    (cooldownUntil : Cooldowns) : Option ℕ :=
  match resolveProvider deps world request cooldownUntil with
  | (.error _, readings) => some readings
  | (.ok primary, readings) =>
    if deps.fallbackProvider = some primary then none
    else (failedAttempts world.outcome (deps.retries + 1).toNat 0).map (readings + 3 * ·)

/-- The fallback is not asked, or its cooldown from before the call is over by then. -/
def FallbackRested (deps : OrchestratorDeps) (world : World) (request : Request)
    (cooldownUntil : Cooldowns) : Prop :=
  ∀ name readings, deps.fallbackProvider = some name → name ∈ deps.registered →
    0 ≤ deps.retries → fallbackStart deps world request cooldownUntil = some readings →
    isInCooldown cooldownUntil name (world.clock.now readings) = false

variable {request : Request} {cooldownUntil : Cooldowns}

/-- A cooldown that is over stays over. -/
theorem isInCooldown_later {i j : ℕ} (hij : i ≤ j)
    (h : isInCooldown cooldownUntil provider (world.clock.now i) = false) :
    isInCooldown cooldownUntil provider (world.clock.now j) = false := by
  rw [isInCooldown, ← Bool.not_eq_true, JsNumber.lt_iff] at h ⊢
  have hle := JsNumber.le_iff.mp (world.clock.advances hij)
  rintro ⟨-, huntil, hlt⟩
  exact h ⟨hle.1, huntil, hle.2.2.trans_lt hlt⟩

/-- A resolved provider is configured, a candidate, and was not in cooldown at an earlier reading of
the clock. -/
theorem resolveProvider_ok {name : ProviderName} {readings : ℕ}
    (h : resolveProvider deps world request cooldownUntil = (.ok name, readings)) :
    Candidate deps request name ∧
      ∃ i ≤ readings, isInCooldown cooldownUntil name (world.clock.now i) = false := by
  have hname : ∀ requested, request.provider = some (some requested) →
      (pickProvider deps world request cooldownUntil).1 = requested := by
    intro requested hrequested
    rw [pickProvider, hrequested]
  rw [resolveProvider] at h
  generalize pickProvider deps world request cooldownUntil = picked at h hname
  obtain ⟨providerName, i⟩ := picked
  dsimp only at h hname
  split at h
  · cases h
  · next hregistered =>
    split at h
    · cases h
    · next hcooldown =>
      obtain ⟨hok, rfl⟩ := Prod.mk.inj h
      obtain rfl := Except.ok.inj hok
      exact ⟨⟨not_not.mp hregistered, .inr fun requested hrequested => (hname requested hrequested).symm⟩,
        i, Nat.le_succ i, eq_false_of_ne_true hcooldown⟩

/-- Where the invocations of a call come from. -/
theorem invocation_cases {run : Outcome × CallState} {invocation : Invocation}
    (h : Asks deps world request cooldownUntil run) (hmem : invocation ∈ run.2.invocations) :
    (∃ name readings i, resolveProvider deps world request cooldownUntil = (.ok name, readings) ∧
      invocation.provider = name ∧ readings ≤ i ∧ invocation.startedAt = world.clock.now i) ∨
    ∃ readings i, deps.fallbackProvider = some invocation.provider ∧
      invocation.provider ∈ deps.registered ∧ 0 ≤ deps.retries ∧
      fallbackStart deps world request cooldownUntil = some readings ∧ readings ≤ i ∧
      invocation.startedAt = world.clock.now i := by
  cases h with
  | nobody => exact absurd hmem List.not_mem_nil
  | @fallback error readings name hresolve hname hregistered =>
    obtain ⟨made, hmade, htimed⟩ := @asked_tryGenerateWithRetry name (.opened cooldownUntil readings)
      deps world true rfl (List.forall_mem_nil _)
    rw [withTrace_snd, hmade.invocations] at hmem
    have hmem : invocation ∈ made := hmem
    obtain ⟨i, hi, hnow⟩ := htimed.later invocation hmem
    obtain rfl := (hmade.provider invocation hmem).1
    have hlength := (List.length_pos_of_mem hmem).trans_le hmade.length
    exact .inr ⟨readings, i, hname, hregistered, by omega, by rw [fallbackStart, hresolve], hi, hnow⟩
  | @primary primary readings out s hresolve hasked =>
    obtain ⟨made, hmade, htimed⟩ := @asked_tryGenerateWithRetry primary
      (.opened cooldownUntil readings) deps world false rfl (List.forall_mem_nil _)
    rw [hasked] at hmade htimed
    rw [withTrace_snd, hmade.invocations] at hmem
    obtain ⟨i, hi, hnow⟩ := htimed.later invocation hmem
    exact .inl ⟨primary, readings, i, hresolve, (hmade.provider invocation hmem).1, hi, hnow⟩
  | @primaryFails primary readings error s hresolve hasked =>
    obtain ⟨made, hmade, htimed⟩ := @asked_tryGenerateWithRetry primary
      (.opened cooldownUntil readings) deps world false rfl (List.forall_mem_nil _)
    rw [hasked] at hmade htimed
    rw [hmade.invocations] at hmem
    obtain ⟨i, hi, hnow⟩ := htimed.later invocation hmem
    exact .inl ⟨primary, readings, i, hresolve, (hmade.provider invocation hmem).1, hi, hnow⟩
  | @both primary name readings error s hresolve hasked hname hregistered hne =>
    obtain ⟨made, hmade, htimed⟩ := @asked_tryGenerateWithRetry primary
      (.opened cooldownUntil readings) deps world false rfl (List.forall_mem_nil _)
    rw [hasked] at hmade htimed
    have hfresh : ∀ invocation ∈ s.invocations, invocation.provider ≠ name := by
      intro invocation hmem heq
      rw [hmade.invocations] at hmem
      exact hne ((hmade.provider invocation hmem).1.symm.trans heq)
    obtain ⟨made', hmade', htimed'⟩ := @asked_tryGenerateWithRetry name s deps world true
      hmade.traced hfresh
    rw [withTrace_snd, hmade'.invocations, hmade.invocations] at hmem
    rcases List.mem_append.mp hmem with hmem | hmem
    · obtain ⟨i, hi, hnow⟩ := htimed.later invocation hmem
      exact .inl ⟨primary, readings, i, hresolve, (hmade.provider invocation hmem).1, hi, hnow⟩
    · obtain ⟨i, hi, hnow⟩ := htimed'.later invocation hmem
      obtain ⟨hfailed, hreadings⟩ := htimed.failed error rfl
      obtain rfl := (hmade'.provider invocation hmem).1
      have hlength := (List.length_pos_of_mem hmem).trans_le hmade'.length
      refine .inr ⟨s.readings, i, hname, hregistered, by omega, ?_, hi, hnow⟩
      have hstart : failedAttempts world.outcome (deps.retries + 1).toNat 0 = some made.length :=
        hfailed
      rw [fallbackStart, hresolve]
      dsimp only
      rw [if_neg fun heq => hne (Option.some.inj (heq.symm.trans hname)), hstart, hreadings]
      rfl

/-- The fallback is asked at the reading of the clock that is expected. -/
theorem fallback_invoked {run : Outcome × CallState} {name : ProviderName} {readings : ℕ}
    (h : Asks deps world request cooldownUntil run) (hname : deps.fallbackProvider = some name)
    (hregistered : name ∈ deps.registered) (hretries : 0 ≤ deps.retries)
    (hstart : fallbackStart deps world request cooldownUntil = some readings) :
    ∃ invocation ∈ run.2.invocations, invocation.provider = name ∧
      invocation.startedAt = world.clock.now readings := by
  rw [fallbackStart] at hstart
  cases h with
  | nobody _ hnone => exact absurd hregistered (hnone name hname)
  | @fallback error readings' name' hresolve hname' =>
    obtain rfl := Option.some.inj (hname.symm.trans hname')
    rw [hresolve] at hstart
    obtain rfl := Option.some.inj hstart
    obtain ⟨made, hmade, htimed⟩ := @asked_tryGenerateWithRetry name (.opened cooldownUntil readings')
      deps world true rfl (List.forall_mem_nil _)
    obtain ⟨invocation, hmem, hnow⟩ := htimed.first (by omega)
    rw [withTrace_snd, hmade.invocations]
    exact ⟨invocation, hmem, (hmade.provider invocation hmem).1, hnow⟩
  | @primary primary readings' out s hresolve hasked =>
    obtain ⟨made, htimed⟩ := timed_tryGenerateWithRetry deps world primary false
      (.opened cooldownUntil readings')
    rw [hasked] at htimed
    have hnone : failedAttempts world.outcome (deps.retries + 1).toNat 0 = none :=
      (htimed.succeeded out rfl).1
    rw [hresolve] at hstart
    dsimp only at hstart
    rw [hnone, Option.map_none, ite_self] at hstart
    cases hstart
  | @primaryFails primary readings' error s hresolve hasked hsame =>
    rw [hresolve] at hstart
    dsimp only at hstart
    rw [hname, if_pos (congrArg some (hsame name hname hregistered).symm)] at hstart
    cases hstart
  | @both primary name' readings' error s hresolve hasked hname' _ hne =>
    obtain rfl := Option.some.inj (hname.symm.trans hname')
    obtain ⟨made, hmade, htimed⟩ := @asked_tryGenerateWithRetry primary
      (.opened cooldownUntil readings') deps world false rfl (List.forall_mem_nil _)
    rw [hasked] at hmade htimed
    have hfresh : ∀ invocation ∈ s.invocations, invocation.provider ≠ name := by
      intro invocation hmem heq
      rw [hmade.invocations] at hmem
      exact hne ((hmade.provider invocation hmem).1.symm.trans heq)
    obtain ⟨made', hmade', htimed'⟩ := @asked_tryGenerateWithRetry name s deps world true
      hmade.traced hfresh
    obtain ⟨hfailed, hreadings⟩ := htimed.failed error rfl
    have hfailed : failedAttempts world.outcome (deps.retries + 1).toNat 0 = some made.length :=
      hfailed
    rw [hresolve] at hstart
    dsimp only at hstart
    rw [if_neg fun heq => hne (Option.some.inj (heq.symm.trans hname)), hfailed,
      Option.map_some] at hstart
    obtain rfl := Option.some.inj hstart
    obtain ⟨invocation, hmem, hnow⟩ := htimed'.first (by omega)
    rw [hreadings] at hnow
    refine ⟨invocation, ?_, (hmade'.provider invocation hmem).1, hnow⟩
    rw [withTrace_snd, hmade'.invocations]
    exact List.mem_append_right _ hmem

/-- A call that returns has asked a provider. -/
theorem invocations_ne_nil {run : Outcome × CallState} {out : GenerateResult}
    (h : Asks deps world request cooldownUntil run) (hout : run.1 = .ok out) :
    run.2.invocations ≠ [] := by
  have hasked : ∀ (name : ProviderName) (viaFallback : Bool) (s : CallState) (out : GenerateResult),
      (tryGenerateWithRetry deps world name viaFallback s).1 = .ok out →
      (tryGenerateWithRetry deps world name viaFallback s).2.invocations ≠ [] := by
    intro name viaFallback s out hok hnil
    obtain ⟨made, htimed⟩ := timed_tryGenerateWithRetry deps world name viaFallback s
    rw [htimed.invocations] at hnil
    exact (htimed.succeeded out hok).2 (List.append_eq_nil_iff.mp hnil).2
  cases h with
  | nobody => cases hout
  | fallback =>
    obtain ⟨result, hresult, -⟩ := withTrace_ok hout
    rw [withTrace_snd]
    exact hasked _ _ _ _ hresult
  | @primary primary readings out' s _ hok =>
    have hne := hasked primary false (.opened cooldownUntil readings) out' (by rw [hok])
    rw [hok] at hne
    exact hne
  | primaryFails => cases hout
  | both =>
    obtain ⟨result, hresult, -⟩ := withTrace_ok hout
    rw [withTrace_snd]
    exact hasked _ _ _ _ hresult

/-- **A call respects the cooldowns from before it exactly when the fallback is not asked or has
rested.** -/
theorem respectsCooldowns_iff (deps : OrchestratorDeps) (world : World) (request : Request)
    (cooldownUntil : Cooldowns) : RespectsCooldowns deps world request cooldownUntil ↔
      FallbackRested deps world request cooldownUntil := by
  have hasks := asks_generateWithProviders deps world request cooldownUntil
  constructor
  · intro hrespects name readings hname hregistered hretries hstart
    obtain ⟨invocation, hmem, rfl, hnow⟩ :=
      fallback_invoked hasks hname hregistered hretries hstart
    rw [← hnow]
    exact hrespects.invoked invocation hmem
  · intro hrested
    have hinvoked : ∀ invocation ∈
        (generateWithProviders deps world request cooldownUntil).2.invocations,
        Candidate deps request invocation.provider ∧ ∃ i,
          invocation.startedAt = world.clock.now i ∧
            isInCooldown cooldownUntil invocation.provider (world.clock.now i) = false := by
      intro invocation hmem
      rcases invocation_cases hasks hmem with
        ⟨name, readings, i, hresolve, rfl, hi, hnow⟩ |
        ⟨readings, i, hname, hregistered, hretries, hstart, hi, hnow⟩
      · obtain ⟨hcandidate, j, hj, hrest⟩ := resolveProvider_ok hresolve
        exact ⟨hcandidate, i, hnow, isInCooldown_later (hj.trans hi) hrest⟩
      · exact ⟨⟨hregistered, .inl hname⟩, i, hnow, isInCooldown_later hi
          (hrested _ readings hname hregistered hretries hstart)⟩
    refine ⟨fun invocation hmem => ?_, fun hcooling => ?_⟩
    · obtain ⟨-, i, hnow, hrest⟩ := hinvoked invocation hmem
      rw [hnow]
      exact hrest
    · have hnil : (generateWithProviders deps world request cooldownUntil).2.invocations = [] := by
        refine List.eq_nil_iff_forall_not_mem.mpr fun invocation hmem => ?_
        obtain ⟨hcandidate, i, -, hrest⟩ := hinvoked invocation hmem
        exact Bool.false_ne_true (hrest.symm.trans (hcooling _ hcandidate i))
      refine ⟨?_, hnil⟩
      cases hresult : (generateWithProviders deps world request cooldownUntil).1 with
      | ok out => exact absurd hnil (invocations_ne_nil hasks hresult)
      | error error => exact ⟨error, rfl⟩

/-! ## A fallback in cooldown -/

theorem thousand_le : (JsNumber.ofNat 1000).le (.ofNat 1000) = true := by
  rw [JsNumber.le_ofNat (by norm_num) (by norm_num)]
  rfl

/-- Both providers have failed less than a cooldown ago. -/
def restingWorld : World :=
  { clock := ⟨fun _ => .ofNat 1000, fun _ => thousand_le⟩
    outcome := fun _ => .error (.app ⟨.providerTimeout, js "timeout", 504⟩)
    avgLatencyMs := fun _ => none }

def restingDeps : OrchestratorDeps :=
  ⟨.sharedLlm, [.sharedLlm, .localFallback], some .localFallback, some 0, none⟩

def restingCooldowns : Cooldowns := fun _ => some (.ofNat 16000)

theorem isInCooldown_resting (name : ProviderName) :
    isInCooldown restingCooldowns name (.ofNat 1000) = true := by
  rw [isInCooldown, restingCooldowns, Option.getD_some,
    JsNumber.lt_ofNat (by norm_num) (by norm_num)]
  rfl

/-- Every provider is in cooldown and the fallback is asked all the same. -/
theorem resting_fallback_invoked :
    ¬ RespectsCooldowns restingDeps restingWorld ⟨none, none⟩ restingCooldowns := by
  intro hrespects
  have hasks := asks_generateWithProviders restingDeps restingWorld ⟨none, none⟩ restingCooldowns
  have hpick : pickProvider restingDeps restingWorld ⟨none, none⟩ restingCooldowns =
      (.sharedLlm, 0) := rfl
  have hresolve : resolveProvider restingDeps restingWorld ⟨none, none⟩ restingCooldowns =
      (.error (inCooldown .sharedLlm), 2) := by
    rw [resolveProvider, hpick]
    dsimp only
    rw [if_neg (not_not.mpr (by decide))]
    exact if_pos (isInCooldown_resting .sharedLlm)
  obtain ⟨invocation, hmem, -, hnow⟩ := fallback_invoked hasks rfl (by decide) (by decide)
    (by rw [fallbackStart, hresolve])
  have hrest := hrespects.invoked invocation hmem
  rw [hnow] at hrest
  exact Bool.false_ne_true (hrest.symm.trans (isInCooldown_resting invocation.provider))

end MemphisOS.Orchestration
