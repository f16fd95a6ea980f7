import Mathlib.Algebra.BigOperators.Group.List.Lemmas
import Mathlib.Data.List.Dedup
import MemphisOS.Ecma.Maps
import MemphisOS.Ecma.NumberOrder
import MemphisOS.Ecma.NumeralLaws
import MemphisOS.Framing.Exposition

/-!
# Metrics

The counters and histograms a process keeps of its requests, and the text a monitoring system reads
them from.
-/

namespace MemphisOS.Runtime

open Ecma Exposition
open Sequences (firsts)

/-! ## What is recorded -/

structure HttpRequest where
  method : JsString
  route : JsString
  statusCode : ℕ
  durationMs : JsNumber

structure ProviderCall where
  provider : JsString
  ok : Bool
  latencyMs : JsNumber

structure SafeModeDenial where
  method : JsString
  route : JsString
  deriving DecidableEq

structure DualApprovalTransition where
  action : JsString
  toState : JsString
  deriving DecidableEq

/-- The calls of the recording methods. -/
inductive MetricEvent where
  | httpRequest (request : HttpRequest)
  | providerCall (call : ProviderCall)
  | queueOverload
  | safeModeDenial (denial : SafeModeDenial)
  | dualApprovalTransition (transition : DualApprovalTransition)
  | embedQuery
  | embedCacheHit
  | embedCacheMiss
  | chainSnapshot (blocksTotal sizeBytes : ℕ)

structure HttpMetric where
  method : JsString
  route : JsString
  statusClass : JsString
  count : ℕ
  errors : ℕ
  durationCount : ℕ
  durationSumSeconds : JsNumber
  durationBuckets : List ℕ

structure ProviderMetric where
  provider : JsString
  success : ℕ
  failure : ℕ
  totalLatencyMs : JsNumber
  calls : ℕ

structure AskLatency where
  count : ℕ
  sumSeconds : JsNumber

structure SafeModeDenialMetric where
  method : JsString
  route : JsString
  count : ℕ

structure DualApprovalTransitionMetric where
  action : JsString
  toState : JsString
  count : ℕ

/-- `HISTOGRAM_BUCKETS_SECONDS`. -/
def histogramBucketsSeconds : List JsNumber :=
  [5 / 1000, 1 / 100, 25 / 1000, 5 / 100, 1 / 10, 25 / 100, 5 / 10, 1, 25 / 10, 5, 10].map
    fun q : ℚ => .ofRat q false

def statusClass (code : ℕ) : JsString :=
  if 500 ≤ code then js "5xx"
  else if 400 ≤ code then js "4xx"
  else if 300 ≤ code then js "3xx"
  else if 200 ≤ code then js "2xx"
  else js "1xx"

/-- `Math.max(0, ms / 1000)`. -/
def toSeconds (ms : JsNumber) : JsNumber := (JsNumber.ofNat 0).max (ms.div (.ofNat 1000))

def HttpRequest.key (request : HttpRequest) : JsString :=
  request.method ++ js ":" ++ request.route ++ js ":" ++ statusClass request.statusCode

def HttpMetric.start (request : HttpRequest) : HttpMetric where
  method := request.method
  route := request.route
  statusClass := Runtime.statusClass request.statusCode
  count := 0
  errors := 0
  durationCount := 0
  durationSumSeconds := .ofNat 0
  durationBuckets := histogramBucketsSeconds.map fun _ => 0

def HttpMetric.add (prev : HttpMetric) (request : HttpRequest) : HttpMetric :=
  let dSec := toSeconds request.durationMs
  { prev with
    count := prev.count + 1
    errors := if 400 ≤ request.statusCode then prev.errors + 1 else prev.errors
    durationCount := prev.durationCount + 1
    durationSumSeconds := prev.durationSumSeconds.add dSec
    durationBuckets := List.zipWith (fun le n => if dSec.le le then n + 1 else n)
      histogramBucketsSeconds prev.durationBuckets }

def ProviderMetric.start (call : ProviderCall) : ProviderMetric :=
  ⟨call.provider, 0, 0, .ofNat 0, 0⟩

def ProviderMetric.add (prev : ProviderMetric) (call : ProviderCall) : ProviderMetric :=
  { prev with
    calls := prev.calls + 1
    totalLatencyMs := prev.totalLatencyMs.add call.latencyMs
    success := if call.ok then prev.success + 1 else prev.success
    failure := if call.ok then prev.failure else prev.failure + 1 }

def AskLatency.add (current : AskLatency) (call : ProviderCall) : AskLatency :=
  ⟨current.count + 1, current.sumSeconds.add (toSeconds call.latencyMs)⟩

def SafeModeDenial.key (denial : SafeModeDenial) : JsString :=
  denial.method ++ js ":" ++ denial.route

def DualApprovalTransition.key (transition : DualApprovalTransition) : JsString :=
  transition.action ++ js ":" ++ transition.toState

/-! ## The state -/

structure InMemoryMetrics where
  providerStats : List (JsString × ProviderMetric) := []
  httpStats : List (JsString × HttpMetric) := []
  safeModeDenialStats : List (JsString × SafeModeDenialMetric) := []
  dualApprovalTransitionStats : List (JsString × DualApprovalTransitionMetric) := []
  askRequestsTotal : ℕ := 0
  askRequestsByProvider : List (JsString × ℕ) := []
  askLatencyByProvider : List (JsString × AskLatency) := []
  embedQueriesTotal : ℕ := 0
  embedCacheHitsTotal : ℕ := 0
  embedCacheMissesTotal : ℕ := 0
  chainBlocksTotal : ℕ := 0
  chainSizeBytes : ℕ := 0
  queueOverloadTotal : ℕ := 0
  safeModeDenialsTotal : ℕ := 0
  dualApprovalTransitionsTotal : ℕ := 0

namespace InMemoryMetrics

def recordHttpRequest (metrics : InMemoryMetrics) (request : HttpRequest) : InMemoryMetrics :=
  { metrics with
    httpStats := recordEntry HttpRequest.key .start .add metrics.httpStats request }

def recordProviderCall (metrics : InMemoryMetrics) (call : ProviderCall) : InMemoryMetrics :=
  { metrics with
    providerStats := recordEntry ProviderCall.provider .start .add metrics.providerStats call
    askRequestsTotal := metrics.askRequestsTotal + 1
    askRequestsByProvider := recordEntry ProviderCall.provider (fun _ => 0) (fun n _ => n + 1)
      metrics.askRequestsByProvider call
    askLatencyByProvider := recordEntry ProviderCall.provider (fun _ => ⟨0, .ofNat 0⟩) .add
      metrics.askLatencyByProvider call }

def recordSafeModeDenial (metrics : InMemoryMetrics) (denial : SafeModeDenial) : InMemoryMetrics :=
  { metrics with
    safeModeDenialsTotal := metrics.safeModeDenialsTotal + 1
    safeModeDenialStats := recordEntry SafeModeDenial.key (fun d => ⟨d.method, d.route, 0⟩)
      (fun current _ => { current with count := current.count + 1 })
      metrics.safeModeDenialStats denial }

def recordDualApprovalTransition (metrics : InMemoryMetrics)
    (transition : DualApprovalTransition) : InMemoryMetrics :=
  { metrics with
    dualApprovalTransitionsTotal := metrics.dualApprovalTransitionsTotal + 1
    dualApprovalTransitionStats := recordEntry DualApprovalTransition.key
      (fun t => ⟨t.action, t.toState, 0⟩)
      (fun current _ => { current with count := current.count + 1 })
      metrics.dualApprovalTransitionStats transition }

/-- A call of one of the methods. -/
def record (metrics : InMemoryMetrics) : MetricEvent → InMemoryMetrics
  | .httpRequest request => metrics.recordHttpRequest request
  | .providerCall call => metrics.recordProviderCall call
  | .queueOverload => { metrics with queueOverloadTotal := metrics.queueOverloadTotal + 1 }
  | .safeModeDenial denial => metrics.recordSafeModeDenial denial
  | .dualApprovalTransition transition => metrics.recordDualApprovalTransition transition
  | .embedQuery => { metrics with embedQueriesTotal := metrics.embedQueriesTotal + 1 }
  | .embedCacheHit => { metrics with embedCacheHitsTotal := metrics.embedCacheHitsTotal + 1 }
  | .embedCacheMiss => { metrics with embedCacheMissesTotal := metrics.embedCacheMissesTotal + 1 }
  | .chainSnapshot blocksTotal sizeBytes =>
    { metrics with chainBlocksTotal := blocksTotal, chainSizeBytes := sizeBytes }

/-- The metrics of a process after some calls. -/
def recordAll (events : List MetricEvent) : InMemoryMetrics := events.foldl record {}

end InMemoryMetrics

/-! ## The text -/

/-- `replaceAll` of a one-character pattern. -/
def replaceUnit (u : UInt16) (replacement s : JsString) : JsString :=
  s.flatMap fun v => if v = u then replacement else [v]

/-- The text of labels in braces. -/
def labels (input : List (JsString × JsString)) : JsString :=
  let parts := input.map fun (key, raw) =>
    let value := replaceUnit 0x22 (js "\\\"") (replaceUnit 0x5C (js "\\\\") raw)
    key ++ js "=\"" ++ value ++ js "\""
  js "\x7b" ++ (js ",").intercalate parts ++ js "\x7d"

def countText (n : ℕ) : JsString := ofText (numberText (.ofNat n))

def HttpMetric.labels (m : HttpMetric) : List (JsString × JsString) :=
  [(js "method", m.method), (js "route", m.route), (js "status_class", m.statusClass)]

/-- A metric with its help text, its type and its samples. -/
structure Family where
  name : String
  help : String
  type : String
  samples : List Sample

/-- A metric with one sample that has no labels. -/
def Family.single (name help type : String) (value : ℕ) : Family :=
  ⟨name, help, type, [⟨js name, [], countText value⟩]⟩

/-- The line of a sample. -/
def sampleLine (sample : Sample) : JsString :=
  sample.name ++ (if sample.labels = [] then [] else labels sample.labels) ++
    (js " " ++ sample.value)

def Family.lines (family : Family) : List JsString :=
  [js "# HELP " ++ js family.name ++ js " " ++ js family.help,
    js "# TYPE " ++ js family.name ++ js " " ++ js family.type] ++
  family.samples.map sampleLine

def MetricEvent.httpRequest? : MetricEvent → Option HttpRequest
  | .httpRequest request => some request
  | _ => none

def MetricEvent.providerCall? : MetricEvent → Option ProviderCall
  | .providerCall call => some call
  | _ => none

def MetricEvent.safeModeDenial? : MetricEvent → Option SafeModeDenial
  | .safeModeDenial denial => some denial
  | _ => none

def MetricEvent.dualApprovalTransition? : MetricEvent → Option DualApprovalTransition
  | .dualApprovalTransition transition => some transition
  | _ => none

/-- Methods and actions without a colon, so that keys tell their parts apart. -/
def MetricEvent.Plain : MetricEvent → Prop
  | .httpRequest request => 0x3A ∉ request.method
  | .safeModeDenial denial => 0x3A ∉ denial.method
  | .dualApprovalTransition transition => 0x3A ∉ transition.action
  | _ => True

/-- The method, the route and the class of the status. -/
def HttpRequest.series (request : HttpRequest) : JsString × JsString × JsString :=
  (request.method, request.route, statusClass request.statusCode)

/-- What the requests of one series come to. -/
def HttpMetric.ofRequests (series : JsString × JsString × JsString) (requests : List HttpRequest) :
    HttpMetric where
  method := series.1
  route := series.2.1
  statusClass := series.2.2
  count := requests.length
  errors := requests.countP fun request => 400 ≤ request.statusCode
  durationCount := requests.length
  durationSumSeconds :=
    requests.foldl (fun sum request => sum.add (toSeconds request.durationMs)) (.ofNat 0)
  durationBuckets := histogramBucketsSeconds.map fun le =>
    requests.countP fun request => (toSeconds request.durationMs).le le

/-- What the calls of one provider come to. -/
def ProviderMetric.ofCalls (provider : JsString) (calls : List ProviderCall) : ProviderMetric where
  provider := provider
  success := calls.countP fun call => call.ok
  failure := calls.countP fun call => !call.ok
  totalLatencyMs := calls.foldl (fun sum call => sum.add call.latencyMs) (.ofNat 0)
  calls := calls.length

/-- The latencies of the calls of one provider. -/
def AskLatency.ofCalls (calls : List ProviderCall) : AskLatency where
  count := calls.length
  sumSeconds := calls.foldl (fun sum call => sum.add (toSeconds call.latencyMs)) (.ofNat 0)

/-- The metrics are those of these calls: a series for each combination of labels that occurs, in
the order of the first occurrences, with what the calls of the series come to. -/
structure Tallied (events : List MetricEvent) (metrics : InMemoryMetrics) : Prop where
  http : metrics.httpStats.map Prod.snd =
    let requests := events.filterMap MetricEvent.httpRequest?
    (firsts HttpRequest.series [] requests).map fun first =>
      .ofRequests first.series (requests.filter fun request => request.series = first.series)
  providers : metrics.providerStats.map Prod.snd =
    let calls := events.filterMap MetricEvent.providerCall?
    (firsts ProviderCall.provider [] calls).map fun first =>
      .ofCalls first.provider (calls.filter fun call => call.provider = first.provider)
  asks : metrics.askRequestsByProvider =
    let calls := events.filterMap MetricEvent.providerCall?
    (firsts ProviderCall.provider [] calls).map fun first =>
      (first.provider, calls.countP fun call => call.provider = first.provider)
  latencies : metrics.askLatencyByProvider =
    let calls := events.filterMap MetricEvent.providerCall?
    (firsts ProviderCall.provider [] calls).map fun first =>
      (first.provider, .ofCalls (calls.filter fun call => call.provider = first.provider))
  denials : metrics.safeModeDenialStats.map Prod.snd =
    let denials := events.filterMap MetricEvent.safeModeDenial?
    (firsts id [] denials).map fun first => ⟨first.method, first.route, denials.count first⟩
  transitions : metrics.dualApprovalTransitionStats.map Prod.snd =
    let transitions := events.filterMap MetricEvent.dualApprovalTransition?
    (firsts id [] transitions).map fun first =>
      ⟨first.action, first.toState, transitions.count first⟩
  cumulative : ∀ m ∈ metrics.httpStats.map Prod.snd,
    m.durationBuckets.Pairwise (· ≤ ·) ∧ ∀ n ∈ m.durationBuckets, n ≤ m.durationCount
  totals : metrics.askRequestsTotal = (metrics.askRequestsByProvider.map Prod.snd).sum ∧
    metrics.safeModeDenialsTotal = (metrics.safeModeDenialStats.map (·.2.count)).sum ∧
    metrics.dualApprovalTransitionsTotal =
      (metrics.dualApprovalTransitionStats.map (·.2.count)).sum

/-! ### One series -/

theorem foldl_httpMetric (requests : List HttpRequest) (first : HttpRequest) :
    requests.foldl HttpMetric.add (.start first) = .ofRequests first.series requests := by
  induction requests using List.reverseRecOn with
  | nil => rfl
  | append_singleton requests request ih =>
    rw [List.foldl_append, ih, List.foldl_cons, List.foldl_nil]
    have hbuckets : List.zipWith
        (fun le n => if (toSeconds request.durationMs).le le then n + 1 else n)
        histogramBucketsSeconds (histogramBucketsSeconds.map fun le =>
          requests.countP fun request => (toSeconds request.durationMs).le le) =
        histogramBucketsSeconds.map fun le =>
          (requests ++ [request]).countP fun request => (toSeconds request.durationMs).le le := by
      rw [List.zipWith_map_right, List.zipWith_self]
      refine List.map_congr_left fun le _ => ?_
      rw [List.countP_append, List.countP_singleton]
      split <;> rfl
    simp only [HttpMetric.add, HttpMetric.ofRequests, hbuckets, List.length_append,
      List.length_singleton, List.countP_append, List.countP_singleton, List.foldl_append,
      List.foldl_cons, List.foldl_nil, HttpMetric.mk.injEq, true_and, and_true]
    split <;> simp_all

theorem histogramBucketsSeconds_sorted :
    histogramBucketsSeconds.Pairwise fun a b => a.le b = true := by decide +kernel

/-- A bucket has all requests of the smaller ones. -/
theorem ofRequests_cumulative (series : JsString × JsString × JsString)
    (requests : List HttpRequest) :
    (HttpMetric.ofRequests series requests).durationBuckets.Pairwise (· ≤ ·) ∧
      ∀ n ∈ (HttpMetric.ofRequests series requests).durationBuckets,
        n ≤ (HttpMetric.ofRequests series requests).durationCount := by
  constructor
  · refine List.pairwise_map.mpr (histogramBucketsSeconds_sorted.imp fun {a b} hab => ?_)
    refine List.countP_mono_left fun request _ ha => ?_
    rw [JsNumber.le_iff] at ha hab ⊢
    exact ⟨ha.1, hab.2.1, ha.2.2.trans hab.2.2⟩
  · intro n hn
    obtain ⟨le, -, rfl⟩ := List.mem_map.mp hn
    exact List.countP_le_length

theorem foldl_providerMetric (calls : List ProviderCall) (first : ProviderCall) :
    calls.foldl ProviderMetric.add (.start first) = .ofCalls first.provider calls := by
  induction calls using List.reverseRecOn with
  | nil => rfl
  | append_singleton calls call ih =>
    rw [List.foldl_append, ih, List.foldl_cons, List.foldl_nil]
    simp only [ProviderMetric.add, ProviderMetric.ofCalls, List.length_append,
      List.length_singleton, List.countP_append, List.countP_singleton, List.foldl_append,
      List.foldl_cons, List.foldl_nil, ProviderMetric.mk.injEq, true_and, and_true]
    cases call.ok <;> simp

theorem foldl_askLatency (calls : List ProviderCall) :
    calls.foldl AskLatency.add ⟨0, .ofNat 0⟩ = .ofCalls calls := by
  induction calls using List.reverseRecOn with
  | nil => rfl
  | append_singleton calls call ih =>
    rw [List.foldl_append, ih, List.foldl_cons, List.foldl_nil]
    simp only [AskLatency.add, AskLatency.ofCalls, List.length_append, List.length_singleton,
      List.foldl_append, List.foldl_cons, List.foldl_nil]

/-! ### Keys -/

/-- What stands before the first colon is the part before it. -/
theorem colon_inj {a b s t : JsString} (ha : 0x3A ∉ a) (hb : 0x3A ∉ b)
    (h : a ++ js ":" ++ s = b ++ js ":" ++ t) : a = b ∧ s = t := by
  have htake : ∀ {a : JsString}, 0x3A ∉ a → ∀ s : JsString,
      (a ++ js ":" ++ s).takeWhile (· ≠ 0x3A) = a := fun {a} ha s => by
    rw [List.append_assoc, List.takeWhile_append_of_pos]
    · exact List.append_nil a
    · exact fun u hu => decide_eq_true fun heq => ha (heq ▸ hu)
  have hab := htake ha s
  rw [h, htake hb t] at hab
  subst hab
  exact ⟨rfl, List.append_cancel_left h⟩

theorem statusClass_length (code : ℕ) : (statusClass code).length = 3 := by
  unfold statusClass
  split_ifs <;> rfl

theorem HttpRequest.key_eq_iff {a b : HttpRequest} (ha : 0x3A ∉ a.method) (hb : 0x3A ∉ b.method) :
    a.key = b.key ↔ a.series = b.series := by
  constructor
  · intro h
    rw [key, key, List.append_assoc, List.append_assoc (b.method ++ _ ++ _),
      List.append_assoc (a.method ++ _), List.append_assoc (b.method ++ _)] at h
    obtain ⟨hmethod, hrest⟩ := colon_inj ha hb h
    have hlength : (js ":" ++ statusClass a.statusCode).length =
        (js ":" ++ statusClass b.statusCode).length := by
      rw [List.length_append, List.length_append, statusClass_length, statusClass_length]
    obtain ⟨hroute, hclass⟩ := List.append_inj' hrest hlength
    rw [series, series, hmethod, hroute, List.append_cancel_left hclass]
  · intro h
    simp only [series, Prod.mk.injEq] at h
    rw [key, key, h.1, h.2.1, h.2.2]

theorem SafeModeDenial.key_eq_iff {a b : SafeModeDenial} (ha : 0x3A ∉ a.method)
    (hb : 0x3A ∉ b.method) : a.key = b.key ↔ a = b := by
  constructor
  · intro h
    obtain ⟨hmethod, hroute⟩ := colon_inj ha hb h
    cases a
    cases b
    simp_all
  · exact congrArg key

theorem DualApprovalTransition.key_eq_iff {a b : DualApprovalTransition} (ha : 0x3A ∉ a.action)
    (hb : 0x3A ∉ b.action) : a.key = b.key ↔ a = b := by
  constructor
  · intro h
    obtain ⟨haction, htoState⟩ := colon_inj ha hb h
    cases a
    cases b
    simp_all
  · exact congrArg key

/-! ### All calls -/

variable {events : List MetricEvent}

/-- A part of the metrics that some of the calls change. -/
theorem recordAll_project {T F : Type} (part : InMemoryMetrics → T)
    (select : MetricEvent → Option F) (add : T → F → T)
    (h : ∀ metrics event, (match select event with
      | some call => add (part metrics) call
      | none => part metrics) = part (metrics.record event)) (events : List MetricEvent) :
    part (.recordAll events) = (events.filterMap select).foldl add (part {}) := by
  rw [List.foldl_filterMap]
  exact (List.foldl_hom part h).symm

theorem recordAll_httpStats (events : List MetricEvent) :
    (InMemoryMetrics.recordAll events).httpStats =
      (events.filterMap MetricEvent.httpRequest?).foldl
        (recordEntry HttpRequest.key .start .add) [] :=
  recordAll_project InMemoryMetrics.httpStats _ _ (fun _ event => by cases event <;> rfl) events

theorem recordAll_providerStats (events : List MetricEvent) :
    (InMemoryMetrics.recordAll events).providerStats =
      (events.filterMap MetricEvent.providerCall?).foldl
        (recordEntry ProviderCall.provider .start .add) [] :=
  recordAll_project InMemoryMetrics.providerStats _ _ (fun _ event => by cases event <;> rfl)
    events

theorem recordAll_asks (events : List MetricEvent) :
    (InMemoryMetrics.recordAll events).askRequestsByProvider =
      (events.filterMap MetricEvent.providerCall?).foldl
        (recordEntry ProviderCall.provider (fun _ => 0) fun n _ => n + 1) [] :=
  recordAll_project InMemoryMetrics.askRequestsByProvider _ _
    (fun _ event => by cases event <;> rfl) events

theorem recordAll_latencies (events : List MetricEvent) :
    (InMemoryMetrics.recordAll events).askLatencyByProvider =
      (events.filterMap MetricEvent.providerCall?).foldl
        (recordEntry ProviderCall.provider (fun _ => ⟨0, .ofNat 0⟩) .add) [] :=
  recordAll_project InMemoryMetrics.askLatencyByProvider _ _
    (fun _ event => by cases event <;> rfl) events

theorem recordAll_denials (events : List MetricEvent) :
    (InMemoryMetrics.recordAll events).safeModeDenialStats =
      (events.filterMap MetricEvent.safeModeDenial?).foldl
        (recordEntry SafeModeDenial.key (fun d => ⟨d.method, d.route, 0⟩)
          fun current _ => { current with count := current.count + 1 }) [] :=
  recordAll_project InMemoryMetrics.safeModeDenialStats _ _
    (fun _ event => by cases event <;> rfl) events

theorem recordAll_transitions (events : List MetricEvent) :
    (InMemoryMetrics.recordAll events).dualApprovalTransitionStats =
      (events.filterMap MetricEvent.dualApprovalTransition?).foldl
        (recordEntry DualApprovalTransition.key (fun t => ⟨t.action, t.toState, 0⟩)
          fun current _ => { current with count := current.count + 1 }) [] :=
  recordAll_project InMemoryMetrics.dualApprovalTransitionStats _ _
    (fun _ event => by cases event <;> rfl) events

/-- A total counts the calls that change it. -/
theorem recordAll_total {F : Type} (total : InMemoryMetrics → ℕ)
    (select : MetricEvent → Option F) (hzero : total {} = 0)
    (h : ∀ metrics event, (match select event with
      | some _ => total metrics + 1
      | none => total metrics) = total (metrics.record event)) (events : List MetricEvent) :
    total (.recordAll events) = (events.filterMap select).length := by
  rw [recordAll_project total select (fun n _ => n + 1) h events, hzero, List.foldl_add_const]
  omega

section Selected

variable {F : Type} {calls : List F}

/-- Entries under keys that tell the calls apart as series do. -/
theorem entries_of_series {κ α : Type} [DecidableEq κ] (key : F → JsString) (series : F → κ)
    {start : F → α} {add : α → F → α}
    (h : ∀ a ∈ calls, ∀ b ∈ calls, key a = key b ↔ series a = series b) :
    (calls.foldl (recordEntry key start add) []).map Prod.snd =
      (firsts series [] calls).map fun first =>
        (calls.filter fun call => series call = series first).foldl add (start first) := by
  have hfirsts : firsts key [] calls = firsts series [] calls :=
    Sequences.firsts_congr h fun _ _ => iff_of_false List.not_mem_nil List.not_mem_nil
  rw [foldl_recordEntry, List.map_map, hfirsts]
  refine List.map_congr_left fun first hfirst => ?_
  have hmem := (Sequences.firsts_sublist series [] calls).subset hfirst
  rw [Function.comp_apply, seriesOf]
  exact congrArg (List.foldl add (start first)) (List.filter_congr fun call hcall =>
    decide_eq_decide.mpr (h call hcall first hmem))

theorem foldl_count {α : Type} (add : α → ℕ → α) (hadd : ∀ a n, add (add a n) 1 = add a (n + 1))
    (hzero : ∀ a, add a 0 = a) (calls : List F) (a : α) :
    calls.foldl (fun current _ => add current 1) a = add a calls.length := by
  induction calls using List.reverseRecOn with
  | nil => exact (hzero a).symm
  | append_singleton calls call ih =>
    rw [List.foldl_append, ih, List.length_append]
    exact hadd a _

end Selected

/-- The selected calls are among the recorded ones. -/
theorem mem_of_mem_requests {request : HttpRequest}
    (h : request ∈ events.filterMap MetricEvent.httpRequest?) : .httpRequest request ∈ events := by
  obtain ⟨event, hevent, heq⟩ := List.mem_filterMap.mp h
  cases event <;> cases heq
  exact hevent

theorem mem_of_mem_denials {denial : SafeModeDenial}
    (h : denial ∈ events.filterMap MetricEvent.safeModeDenial?) :
    .safeModeDenial denial ∈ events := by
  obtain ⟨event, hevent, heq⟩ := List.mem_filterMap.mp h
  cases event <;> cases heq
  exact hevent

theorem mem_of_mem_transitions {transition : DualApprovalTransition}
    (h : transition ∈ events.filterMap MetricEvent.dualApprovalTransition?) :
    .dualApprovalTransition transition ∈ events := by
  obtain ⟨event, hevent, heq⟩ := List.mem_filterMap.mp h
  cases event <;> cases heq
  exact hevent

/-- Equal calls are counted as a series. -/
theorem length_filter_eq {F : Type} [DecidableEq F] (calls : List F) (first : F) :
    (calls.filter fun call => id call = id first).length = calls.count first := by
  rw [← List.countP_eq_length_filter, List.count]
  exact List.countP_congr fun a _ => by simp

theorem denials_eq (h : ∀ event ∈ events, event.Plain) :
    (InMemoryMetrics.recordAll events).safeModeDenialStats.map Prod.snd =
      let denials := events.filterMap MetricEvent.safeModeDenial?
      (firsts id [] denials).map fun first => ⟨first.method, first.route, denials.count first⟩ := by
  rw [recordAll_denials, entries_of_series SafeModeDenial.key id fun a ha b hb =>
    SafeModeDenial.key_eq_iff (h _ (mem_of_mem_denials ha)) (h _ (mem_of_mem_denials hb))]
  refine List.map_congr_left fun first _ => ?_
  have hcount := foldl_count (fun (m : SafeModeDenialMetric) n => { m with count := m.count + n })
    (fun _ _ => rfl) (fun _ => rfl)
    ((events.filterMap MetricEvent.safeModeDenial?).filter fun call => id call = id first)
    ⟨first.method, first.route, 0⟩
  rw [length_filter_eq, Nat.zero_add] at hcount
  exact hcount

theorem transitions_eq (h : ∀ event ∈ events, event.Plain) :
    (InMemoryMetrics.recordAll events).dualApprovalTransitionStats.map Prod.snd =
      let transitions := events.filterMap MetricEvent.dualApprovalTransition?
      (firsts id [] transitions).map fun first =>
        ⟨first.action, first.toState, transitions.count first⟩ := by
  rw [recordAll_transitions, entries_of_series DualApprovalTransition.key id fun a ha b hb =>
    DualApprovalTransition.key_eq_iff (h _ (mem_of_mem_transitions ha))
      (h _ (mem_of_mem_transitions hb))]
  refine List.map_congr_left fun first _ => ?_
  have hcount := foldl_count
    (fun (m : DualApprovalTransitionMetric) n => { m with count := m.count + n })
    (fun _ _ => rfl) (fun _ => rfl)
    ((events.filterMap MetricEvent.dualApprovalTransition?).filter fun call => id call = id first)
    ⟨first.action, first.toState, 0⟩
  rw [length_filter_eq, Nat.zero_add] at hcount
  exact hcount

theorem asks_eq (events : List MetricEvent) :
    (InMemoryMetrics.recordAll events).askRequestsByProvider =
      let calls := events.filterMap MetricEvent.providerCall?
      (firsts ProviderCall.provider [] calls).map fun first =>
        (first.provider, calls.countP fun call => call.provider = first.provider) := by
  rw [recordAll_asks, foldl_recordEntry]
  refine List.map_congr_left fun first _ => ?_
  rw [seriesOf, List.foldl_add_const, ← List.countP_eq_length_filter, Nat.zero_add, Nat.one_mul]

/-- The calls are divided among the series. -/
theorem sum_countP_firsts {F κ : Type} [DecidableEq κ] (series : F → κ) (calls : List F) :
    ((firsts series [] calls).map fun first =>
      calls.countP fun call => series call = series first).sum = calls.length := by
  have hperm : List.Perm ((firsts series [] calls).map series) (calls.map series).dedup :=
    (List.perm_ext_iff_of_nodup (Sequences.keys_firsts series [] calls).1
      (List.nodup_dedup _)).mpr fun k => by
        rw [Sequences.mem_keys_firsts, List.mem_dedup]
        exact and_iff_left List.not_mem_nil
  have hsum := (hperm.map fun k => (calls.map series).count k).sum_eq
  rw [List.sum_map_count_dedup_eq_length, List.length_map, List.map_map] at hsum
  rw [← hsum]
  refine congrArg List.sum (List.map_congr_left fun first _ => ?_)
  rw [Function.comp_apply, List.count, List.countP_map]
  exact List.countP_congr fun call _ => by simp

theorem sum_count_firsts {F : Type} [DecidableEq F] (calls : List F) :
    ((firsts id [] calls).map fun first => calls.count first).sum = calls.length := by
  rw [← sum_countP_firsts id calls]
  refine congrArg List.sum (List.map_congr_left fun first _ => ?_)
  rw [← length_filter_eq, List.countP_eq_length_filter]

theorem httpStats_eq (h : ∀ event ∈ events, event.Plain) :
    (InMemoryMetrics.recordAll events).httpStats.map Prod.snd =
      let requests := events.filterMap MetricEvent.httpRequest?
      (firsts HttpRequest.series [] requests).map fun first => .ofRequests first.series
        (requests.filter fun request => request.series = first.series) := by
  rw [recordAll_httpStats, entries_of_series HttpRequest.key HttpRequest.series
    fun a ha b hb => HttpRequest.key_eq_iff (h _ (mem_of_mem_requests ha))
      (h _ (mem_of_mem_requests hb))]
  exact List.map_congr_left fun first _ => foldl_httpMetric _ first

/-- **Whatever is recorded, the metrics are those of the calls.** -/
theorem metrics_tallied (h : ∀ event ∈ events, event.Plain) :
    Tallied events (.recordAll events) where
  http := httpStats_eq h
  providers := by
    rw [recordAll_providerStats, entries_of_series ProviderCall.provider
      ProviderCall.provider fun _ _ _ _ => Iff.rfl]
    exact List.map_congr_left fun first _ => foldl_providerMetric _ first
  asks := asks_eq events
  latencies := by
    rw [recordAll_latencies, foldl_recordEntry]
    exact List.map_congr_left fun first _ => congrArg (first.provider, ·) (foldl_askLatency _)
  denials := denials_eq h
  transitions := transitions_eq h
  cumulative := by
    intro m hm
    rw [httpStats_eq h] at hm
    obtain ⟨first, -, rfl⟩ := List.mem_map.mp hm
    exact ofRequests_cumulative _ _
  totals := by
    refine ⟨?_, ?_, ?_⟩
    · rw [asks_eq, List.map_map, recordAll_total InMemoryMetrics.askRequestsTotal
        MetricEvent.providerCall? rfl fun _ event => by cases event <;> rfl]
      exact (sum_countP_firsts _ _).symm
    · have hcounts := congrArg (List.map SafeModeDenialMetric.count) (denials_eq h)
      rw [List.map_map, List.map_map] at hcounts
      rw [recordAll_total InMemoryMetrics.safeModeDenialsTotal
        MetricEvent.safeModeDenial? rfl fun _ event => by cases event <;> rfl]
      exact ((congrArg List.sum hcounts).trans (sum_count_firsts _)).symm
    · have hcounts := congrArg (List.map DualApprovalTransitionMetric.count) (transitions_eq h)
      rw [List.map_map, List.map_map] at hcounts
      rw [recordAll_total InMemoryMetrics.dualApprovalTransitionsTotal
        MetricEvent.dualApprovalTransition? rfl fun _ event => by cases event <;> rfl]
      exact ((congrArg List.sum hcounts).trans (sum_count_firsts _)).symm

/-- Two requests of one route, one of a route with a quote, a call and a denial. -/
def sampleEvents : List MetricEvent :=
  [.httpRequest ⟨js "GET", js "/health", 200, .ofNat 3⟩,
    .httpRequest ⟨js "GET", js "/health", 204, .ofNat 700⟩,
    .httpRequest ⟨js "GET", js "/search?q=\"a:b\"", 404, .ofNat 12⟩,
    .providerCall ⟨js "ollama", false, .ofNat 250⟩, .embedQuery, .queueOverload,
    .safeModeDenial ⟨js "POST", js "/v1/sync"⟩,
    .dualApprovalTransition ⟨js "freeze", js "approved"⟩, .chainSnapshot 12 4096]

theorem sampleEvents_plain : ∀ event ∈ sampleEvents, event.Plain := by
  simp only [sampleEvents, List.forall_mem_cons, MetricEvent.Plain, List.not_mem_nil,
    false_implies, implies_true, and_true]
  decide

theorem metrics_tallied_sample : Tallied sampleEvents (.recordAll sampleEvents) :=
  metrics_tallied sampleEvents_plain

/-! ## The text is read back -/

variable {family : Family} {metrics : InMemoryMetrics}

end MemphisOS.Runtime
