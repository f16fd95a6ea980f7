import MemphisOS.Incident.EncryptedBlob
import MemphisOS.Incident.Bundle

/-!
# What redaction leaves in a bundle

A redacted bundle is clean exactly when the texts are that never reach the redactor: the places
things were read from, the drill, the keys of documents and some fields of the reports.
-/

namespace MemphisOS.Incident

open Ecma Bridge Sequences

/-! ## Names -/

/-- The names of the members of a bundle. -/
def bundleKeys : List String :=
  ["schemaVersion", "generatedAt", "status", "ok", "url", "httpStatus", "payload", "error",
    "securityAudit", "path", "tailLines", "drill", "result", "cognitiveReports", "journalPath",
    "limit", "count", "reports", "index", "timestamp", "hash", "reportType", "dataType", "source",
    "input", "raw"]

theorem plain_bundleKeys {name : String} (h : name ∈ bundleKeys) :
    SecretFree (js name) ∧ shouldRedactKey (js name) = false := by
  have hcheck : (bundleKeys.all fun name => decide (SecretFree (js name)) &&
      !shouldRedactKey (js name)) = true := by decide +kernel
  have hname := List.all_eq_true.mp hcheck name h
  rw [Bool.and_eq_true, decide_eq_true_eq, Bool.not_eq_true'] at hname
  exact hname

theorem bundleKeys_subset (names : List String) (h : names.all bundleKeys.contains = true) :
    names.map js ⊆ bundleKeys.map js :=
  List.map_subset js fun name hname => by simpa using List.all_eq_true.mp h name hname

/-- The members of the bundle itself are clean when their values are. -/
theorem clean_named {members : List (JsString × Plain)}
    (hkeys : members.map Prod.fst ⊆ bundleKeys.map js) :
    Clean (.obj members) ↔ ∀ member ∈ members, Clean member.2 := by
  rw [clean_obj]
  refine forall₂_congr fun member hmember => ⟨fun h => h.2.2, fun h => ?_⟩
  obtain ⟨name, hname, hkey⟩ := List.mem_map.mp (hkeys (List.mem_map_of_mem hmember))
  obtain ⟨hfree, hplain⟩ := plain_bundleKeys hname
  refine ⟨hkey ▸ hfree, fun hsensitive => ?_, h⟩
  rw [← hkey, hplain] at hsensitive
  cases hsensitive

/-! ## Fixed texts -/

/-- A letter that no pattern starts with. -/
def startsNothing (c : Char) : Bool := c.toNat < 91 && c.toNat ≠ 66

/-- The test that a pattern starts with none of these letters. -/
def startsElsewhere (pattern : List (Piece UInt16)) : Bool :=
  match pattern with
  | piece :: _ => decide (0 < piece.least) &&
      (List.range 91).all fun n => n = 66 || !piece.accepts (UInt16.ofNat n)
  | [] => false

theorem not_occurs_of_startsElsewhere {pattern : List (Piece UInt16)}
    (hpattern : startsElsewhere pattern = true) {s : JsString}
    (hs : ∀ u ∈ s, u.toNat < 91 ∧ u.toNat ≠ 66) : ¬ Occurs isWordUnit pattern s := by
  cases pattern with
  | nil => cases hpattern
  | cons piece pieces =>
    rw [startsElsewhere, Bool.and_eq_true, decide_eq_true_eq, List.all_eq_true] at hpattern
    refine not_occurs_of_first hpattern.1 fun u hu => ?_
    obtain ⟨hsmall, hne⟩ := hs u hu
    have hrejects := hpattern.2 u.toNat (List.mem_range.mpr hsmall)
    rw [UInt16.ofNat_toNat, Bool.or_eq_true, decide_eq_true_eq, Bool.not_eq_true'] at hrejects
    exact hrejects.resolve_left hne

theorem secretFree_of_startsNothing {t : Text} (h : ∀ c ∈ t, startsNothing c = true) :
    SecretFree (ofText t) := by
  have hunits : ∀ u ∈ ofText t, u.toNat < 91 ∧ u.toNat ≠ 66 := by
    intro u hu
    obtain ⟨c, hc, hu⟩ := List.mem_flatMap.mp hu
    have hsmall := h c hc
    rw [startsNothing, Bool.and_eq_true, decide_eq_true_eq, decide_eq_true_eq] at hsmall
    rw [unitsOfChar, if_pos (by omega), List.mem_singleton] at hu
    rw [hu, UInt16.toNat_ofNat']
    omega
  have hcheck : REDACTABLE_VALUE_PATTERNS.all startsElsewhere = true := by decide
  exact fun p hp => not_occurs_of_startsElsewhere (List.all_eq_true.mp hcheck p hp) hunits

theorem startsNothing_padStart (width n : ℕ) : ∀ c ∈ padStart width n, startsNothing c = true := by
  intro c hc
  rcases List.mem_append.mp hc with hc | hc
  · rw [List.eq_of_mem_replicate hc]
    rfl
  · have hdigit := digits_isDigit hc
    simp only [Char.isDigit, Bool.and_eq_true, decide_eq_true_eq] at hdigit
    have hnat : c.toNat ≤ 57 := hdigit.2
    rw [startsNothing, Bool.and_eq_true, decide_eq_true_eq, decide_eq_true_eq]
    omega

theorem startsNothing_yearText (year : ℤ) : ∀ c ∈ yearText year, startsNothing c = true := by
  rw [yearText]
  split
  · exact startsNothing_padStart _ _
  · refine List.forall_mem_cons.mpr ⟨?_, startsNothing_padStart _ _⟩
    split <;> rfl

theorem startsNothing_isoText (t : ℤ) : ∀ c ∈ isoText t, startsNothing c = true := by
  have hdash : startsNothing '-' = true ∧ startsNothing 'T' = true ∧ startsNothing ':' = true ∧
      startsNothing '.' = true ∧ startsNothing 'Z' = true := by decide
  rw [isoText]
  generalize civilOfDay (t / 86400000) = civil
  obtain ⟨year, month, day⟩ := civil
  obtain ⟨hminus, hT, hcolon, hpoint, hZ⟩ := hdash
  have hdigits := startsNothing_padStart
  simp only [List.forall_mem_append, List.forall_mem_cons]
  exact ⟨⟨⟨⟨⟨⟨⟨startsNothing_yearText year, hminus, hdigits _ _⟩, hminus, hdigits _ _⟩, hT,
    hdigits _ _⟩, hcolon, hdigits _ _⟩, hcolon, hdigits _ _⟩, hpoint, hdigits _ _⟩, hZ,
    fun c hc => absurd hc List.not_mem_nil⟩

theorem secretFree_isoText (t : ℤ) : SecretFree (ofText (isoText t)) :=
  secretFree_of_startsNothing (startsNothing_isoText t)

theorem forall_optionalMember {name : String} {value : Option Plain} {P : Plain → Prop} :
    (∀ member ∈ optionalMember name value, P member.2) ↔ ∀ v, value = some v → P v := by
  cases value with
  | none => exact ⟨fun _ v h => (by cases h), fun _ member h => absurd h List.not_mem_nil⟩
  | some v =>
    refine ⟨fun h w hw => Option.some.inj hw ▸ h (js name, v) List.mem_cons_self, ?_⟩
    intro h member hmember
    rw [List.mem_singleton.mp hmember]
    exact h v rfl

/-! ## Reports -/

/-- The report after its source and its input are redacted. -/
def CognitiveReportSummary.redacted (report : CognitiveReportSummary) : CognitiveReportSummary :=
  { report with
    source := report.source.map maybeRedactString
    input := report.input.map maybeRedactString }

theorem summarize_redacted (path : JsString) (block : Plain) :
    summarize true path block = (summarize false path block).map (·.redacted) := by
  have hoff (text : Option JsString) : text.map (redactStringIf false) = text := by
    cases text <;> rfl
  rw [summarize, summarize]
  cases htype : stringProperty ((property block "data").getD .null) "type" with
  | none => rfl
  | some dataType =>
    cases dataType with
    | nil => rfl
    | cons u dataType =>
      dsimp only
      rw [Option.map_map]
      simp only [hoff]
      rfl

theorem lastItems_map {α β : Type} (f : α → β) (count : JsNumber) (items : List α) :
    lastItems count (items.map f) = (lastItems count items).map f := by
  rw [lastItems, lastItems, List.length_map]
  split
  · rfl
  · exact (List.map_drop ..).symm

theorem readCognitiveReportSummaries_redacted (sources : BundleSources) (journalPath : JsString)
    (limit : JsNumber) :
    sources.readCognitiveReportSummaries journalPath limit true =
      (sources.readCognitiveReportSummaries journalPath limit false).map (·.redacted) := by
  rw [BundleSources.readCognitiveReportSummaries, BundleSources.readCognitiveReportSummaries]
  split
  · rfl
  · cases sources.readdirSync journalPath with
    | error e => rfl
    | ok names =>
      dsimp only
      rw [List.map_reverse, ← lastItems_map, List.map_filterMap]
      congr 3
      funext name
      cases sources.process.readText (sources.process.paths.resolveFrom journalPath name) >>=
        sources.process.parse with
      | error e => rfl
      | ok block => exact summarize_redacted _ block

/-- What is not redacted of a report matches no pattern. -/
structure CognitiveReportSummary.Free (report : CognitiveReportSummary) : Prop where
  timestamp : ∀ s, report.timestamp = some s → SecretFree s
  hash : ∀ s, report.hash = some s → SecretFree s
  generatedAt : ∀ s, report.generatedAt = some s → SecretFree s
  path : SecretFree report.path

theorem clean_stringOrNull {text : Option JsString} :
    Clean (stringOrNull text) ↔ ∀ s, text = some s → SecretFree s := by
  cases text with
  | none => exact ⟨fun _ s h => (by cases h), fun _ => .null⟩
  | some s => exact clean_str.trans ⟨fun h t ht => Option.some.inj ht ▸ h, fun h => h s rfl⟩

theorem clean_numberOrNull (number : Option JsNumber) : Clean (numberOrNull number) := by
  cases number with
  | none => exact .null
  | some n => exact .num n

/-- The types of reports, and what an object inherits. -/
def reportNames : List String :=
  ["insight_report", "categorize_report", "reflection_report", "insight", "categorize",
    "reflection", "__proto__"] ++ inheritedFunctions

theorem secretFree_reportNames {name : String} (h : name ∈ reportNames) : SecretFree (js name) := by
  have hcheck : (reportNames.all fun name => decide (SecretFree (js name))) = true := by
    decide +kernel
  exact of_decide_eq_true (List.all_eq_true.mp hcheck name h)

/-- A type that is looked up is one of a few fixed texts. -/
theorem reportTypeOf_clean {dataType : JsString} {reportType : Option Plain}
    (h : reportTypeOf dataType = some reportType) :
    SecretFree dataType ∧ ∀ value, reportType = some value → Clean value := by
  have hname (name : String) (hmem : name ∈ reportNames) : SecretFree (js name) :=
    secretFree_reportNames hmem
  rw [reportTypeOf] at h
  split at h
  · rename_i heq
    cases h
    refine ⟨heq ▸ hname _ (by decide), fun value hvalue => ?_⟩
    cases hvalue
    exact .str (hname _ (by decide))
  split at h
  · rename_i heq
    cases h
    refine ⟨heq ▸ hname _ (by decide), fun value hvalue => ?_⟩
    cases hvalue
    exact .str (hname _ (by decide))
  split at h
  · rename_i heq
    cases h
    refine ⟨heq ▸ hname _ (by decide), fun value hvalue => ?_⟩
    cases hvalue
    exact .str (hname _ (by decide))
  split at h
  · rename_i heq
    cases h
    refine ⟨heq ▸ hname _ (by decide), fun value hvalue => ?_⟩
    cases hvalue
    exact clean_obj.mpr fun member hmember => absurd hmember List.not_mem_nil
  split at h
  · rename_i hmem
    cases h
    obtain ⟨name, hinherited, rfl⟩ := List.mem_map.mp hmem
    exact ⟨hname name (List.mem_append_right _ hinherited), fun value hvalue => by cases hvalue⟩
  · cases h

theorem reportTypeOf_summarize {redactSensitive : Bool} {path : JsString} {block : Plain}
    {report : CognitiveReportSummary} (h : summarize redactSensitive path block = some report) :
    reportTypeOf report.dataType = some report.reportType := by
  rw [summarize] at h
  cases htype : stringProperty ((property block "data").getD .null) "type" with
  | none =>
    rw [htype] at h
    cases h
  | some dataType =>
    rw [htype] at h
    cases dataType with
    | nil => cases h
    | cons u dataType =>
      obtain ⟨reportType, hreport, rfl⟩ := Option.map_eq_some_iff.mp h
      exact hreport

theorem mem_of_mem_lastItems {α : Type} {count : JsNumber} {items : List α} {item : α}
    (h : item ∈ lastItems count items) : item ∈ items := by
  rw [lastItems] at h
  split at h
  · exact h
  · exact List.mem_of_mem_drop h

theorem reportTypeOf_mem {sources : BundleSources} {journalPath : JsString} {limit : JsNumber}
    {redactSensitive : Bool} {report : CognitiveReportSummary}
    (h : report ∈ sources.readCognitiveReportSummaries journalPath limit redactSensitive) :
    reportTypeOf report.dataType = some report.reportType := by
  rw [BundleSources.readCognitiveReportSummaries] at h
  split at h
  · cases h
  · cases hnames : sources.readdirSync journalPath with
    | error e =>
      rw [hnames] at h
      cases h
    | ok names =>
      rw [hnames] at h
      obtain ⟨name, -, hsummary⟩ :=
        List.mem_filterMap.mp (mem_of_mem_lastItems (List.mem_reverse.mp h))
      dsimp only at hsummary
      cases hread : sources.process.readText (sources.process.paths.resolveFrom journalPath name) >>=
        sources.process.parse with
      | error e =>
        rw [hread] at hsummary
        cases hsummary
      | ok block =>
        rw [hread] at hsummary
        exact reportTypeOf_summarize hsummary

/-- A redacted report is clean exactly when the rest of it is. -/
theorem clean_report {report : CognitiveReportSummary}
    (htype : reportTypeOf report.dataType = some report.reportType) :
    Clean report.redacted.toJson ↔ report.Free := by
  obtain ⟨hdataType, hreportType⟩ := reportTypeOf_clean htype
  have hredacted (text : Option JsString) : Clean (stringOrNull (text.map maybeRedactString)) := by
    cases text with
    | none => exact .null
    | some s => exact .str (secretFree_maybeRedactString s)
  have hmember : ∀ member ∈ optionalMember "reportType" report.reportType, Clean member.2 :=
    forall_optionalMember.mpr hreportType
  rw [CognitiveReportSummary.toJson, clean_named]
  · simp only [List.forall_mem_append, List.forall_mem_cons, CognitiveReportSummary.redacted,
      clean_stringOrNull, clean_numberOrNull, clean_str]
    constructor
    · intro h
      obtain ⟨⟨⟨-, htimestamp, hhash, -⟩, -⟩, -, -, -, hgenerated, -, hpath, -⟩ := h
      exact ⟨htimestamp, hhash, hgenerated, hpath⟩
    · rintro ⟨htimestamp, hhash, hgenerated, hpath⟩
      refine ⟨⟨⟨trivial, htimestamp, hhash, fun member h => absurd h List.not_mem_nil⟩, hmember⟩,
        hdataType, trivial, clean_stringOrNull.mp (hredacted _), hgenerated,
        clean_stringOrNull.mp (hredacted _), hpath, fun member h => absurd h List.not_mem_nil⟩
  · rw [List.map_append, List.map_append]
    refine List.append_subset.mpr ⟨List.append_subset.mpr ⟨?_, ?_⟩, ?_⟩
    · exact bundleKeys_subset ["index", "timestamp", "hash"] (by decide)
    · exact fun key hkey => bundleKeys_subset ["reportType"] (by decide)
        ((keys_optionalMember _ _).subset hkey)
    · exact bundleKeys_subset ["dataType", "schemaVersion", "source", "generatedAt", "input", "path"]
        (by decide)

/-! ## Sections -/

/-- What is not redacted of an audit log or of a status matches no pattern. -/
theorem clean_redactIf (value : Plain) : Clean (redactIf true value) ↔ KeysFree value :=
  clean_redactJson value

theorem clean_fetchStatus (sources : BundleSources) (url : JsString) :
    Clean (sources.fetchStatus url true) ↔ SecretFree url ∧
      ∀ response, sources.fetch url = .ok response → KeysFree (documentOr response.text) := by
  rw [BundleSources.fetchStatus]
  cases hfetch : sources.fetch url with
  | ok response =>
    dsimp only
    rw [clean_named]
    · simp only [List.forall_mem_cons, clean_str, clean_redactIf]
      constructor
      · rintro ⟨-, hurl, -, hpayload, -⟩
        exact ⟨hurl, fun other hother => Except.ok.inj hother ▸ hpayload⟩
      · rintro ⟨hurl, hpayload⟩
        exact ⟨.bool _, hurl, .num _, hpayload response rfl,
          fun member h => absurd h List.not_mem_nil⟩
    · exact bundleKeys_subset ["ok", "url", "httpStatus", "payload"] (by decide)
  | error message =>
    dsimp only
    rw [clean_named]
    · simp only [List.forall_mem_cons, clean_str]
      constructor
      · rintro ⟨-, hurl, -⟩
        exact ⟨hurl, fun response h => (by cases h)⟩
      · rintro ⟨hurl, -⟩
        exact ⟨.bool _, hurl, .null, secretFree_maybeRedactString message,
          fun member h => absurd h List.not_mem_nil⟩
    · exact bundleKeys_subset ["ok", "url", "httpStatus", "error"] (by decide)

/-- The text of a drill that failed. -/
def drillFailure (run : SpawnResult) : JsString :=
  ofText (orText (trim run.stderr) (orText (trim run.stdout)
    ("exit=".toList ++ run.status.elim "null".toList digits)))

/-- What a drill leaves in the bundle matches no pattern, and names no credential. -/
structure DrillFree (process : Process) (run : SpawnResult) : Prop where
  failure : run.status ≠ some 0 → SecretFree (drillFailure run)
  result : run.status = some 0 → ∀ value, process.parse run.stdout = .ok value → Clean value
  message : run.status = some 0 → ∀ message, process.parse run.stdout = .error message →
    SecretFree (js "failed to parse drill JSON: " ++ message)

theorem clean_drillJson {drill : Drill} : Clean drill.toJson ↔
    (∀ value, drill.result = some value → Clean value) ∧
      ∀ error, drill.error = some error → SecretFree error := by
  rw [Drill.toJson, clean_named]
  · rw [List.forall_mem_append, List.forall_mem_append, List.forall_mem_singleton,
      forall_optionalMember, forall_optionalMember]
    have herror : (∀ value, drill.error.map Json.str = some value → Clean value) ↔
        ∀ error, drill.error = some error → SecretFree error := by
      cases drill.error with
      | none => exact ⟨fun _ e h => (by cases h), fun _ v h => (by cases h)⟩
      | some e =>
        exact ⟨fun h f hf => Option.some.inj hf ▸ clean_str.mp (h _ rfl), fun h v hv =>
          Option.some.inj hv ▸ .str (h e rfl)⟩
    rw [herror]
    exact ⟨fun h => ⟨h.1.2, h.2⟩, fun h => ⟨⟨.bool _, h.1⟩, h.2⟩⟩
  · rw [List.map_append, List.map_append]
    refine List.append_subset.mpr ⟨List.append_subset.mpr ⟨?_, ?_⟩, ?_⟩
    · exact bundleKeys_subset ["ok"] (by decide)
    · exact fun key hkey => bundleKeys_subset ["result"] (by decide)
        ((keys_optionalMember _ _).subset hkey)
    · exact fun key hkey => bundleKeys_subset ["error"] (by decide)
        ((keys_optionalMember _ _).subset hkey)

/-- The drill is not redacted. -/
theorem clean_drill (sources : BundleSources) :
    Clean sources.runGuardDrillJson.toJson ↔ DrillFree sources.process sources.drillRun := by
  rw [clean_drillJson, BundleSources.runGuardDrillJson]
  dsimp only
  split
  · rename_i hstatus
    constructor
    · rintro ⟨-, herror⟩
      exact ⟨fun _ => herror _ rfl, fun h => absurd h hstatus, fun h => absurd h hstatus⟩
    · rintro ⟨hfailure, -⟩
      exact ⟨fun value h => (by cases h), fun error h => Option.some.inj h ▸ hfailure hstatus⟩
  · rename_i hstatus
    rw [not_not] at hstatus
    cases hparse : sources.process.parse sources.drillRun.stdout with
    | ok result =>
      constructor
      · rintro ⟨hresult, -⟩
        refine ⟨fun h => absurd hstatus h, fun _ value h => ?_, fun _ message h => ?_⟩
        · rw [hparse] at h
          exact hresult value (congrArg some (Except.ok.inj h))
        · rw [hparse] at h
          cases h
      · rintro ⟨-, hresult, -⟩
        exact ⟨fun value h => Option.some.inj h ▸ hresult hstatus result hparse,
          fun error h => (by cases h)⟩
    | error message =>
      constructor
      · rintro ⟨-, herror⟩
        refine ⟨fun h => absurd hstatus h, fun _ value h => ?_, fun _ other h => ?_⟩
        · rw [hparse] at h
          cases h
        · rw [hparse] at h
          cases h
          exact herror _ rfl
      · rintro ⟨-, -, hmessage⟩
        exact ⟨fun value h => (by cases h),
          fun error h => Option.some.inj h ▸ hmessage hstatus message hparse⟩

/-! ## Bundles -/

/-- What never reaches the redactor matches no pattern, and names no credential: the places that
things are read from, the keys of documents, the drill and some fields of the reports. -/
structure BundleSources.UnredactedFree (sources : BundleSources) (options : BundleOptions) :
    Prop where
  statusUrl : SecretFree options.statusUrl
  payload : ∀ response, sources.fetch options.statusUrl = .ok response →
    KeysFree (documentOr response.text)
  auditPath : SecretFree options.auditPath
  audit : ∀ entry ∈ sources.auditEntries options.auditPath options.auditLines, KeysFree entry
  drill : DrillFree sources.process sources.drillRun
  journalPath : options.includeCognitiveSummaries = true → SecretFree options.cognitiveJournalPath
  reports : options.includeCognitiveSummaries = true →
    ∀ report ∈ sources.readCognitiveReportSummaries options.cognitiveJournalPath
      options.cognitiveReportLimit false, report.Free

theorem clean_snapshot {snapshot : CognitiveReportSnapshot} : Clean snapshot.toJson ↔
    SecretFree snapshot.journalPath ∧ ∀ report ∈ snapshot.reports, Clean report.toJson := by
  rw [CognitiveReportSnapshot.toJson, clean_named]
  · simp only [List.forall_mem_cons, clean_str, clean_arr, List.forall_mem_map]
    constructor
    · rintro ⟨-, hpath, -, -, hreports, -⟩
      exact ⟨hpath, hreports⟩
    · rintro ⟨hpath, hreports⟩
      exact ⟨.num _, hpath, .num _, .num _, hreports, fun member h => absurd h List.not_mem_nil⟩
  · exact bundleKeys_subset ["schemaVersion", "journalPath", "limit", "count", "reports"] (by decide)

/-- The reports in the bundle are redacted one by one. -/
theorem clean_cognitiveReports (sources : BundleSources) (options : BundleOptions)
    (hredact : options.redactSensitive = true) :
    (∀ value, (sources.cognitiveReports options).map (·.toJson) = some value → Clean value) ↔
      (options.includeCognitiveSummaries = true → SecretFree options.cognitiveJournalPath) ∧
      (options.includeCognitiveSummaries = true →
        ∀ report ∈ sources.readCognitiveReportSummaries options.cognitiveJournalPath
          options.cognitiveReportLimit false, report.Free) := by
  rw [BundleSources.cognitiveReports]
  split
  · rename_i hinclude
    rw [hredact, readCognitiveReportSummaries_redacted]
    have hreport (report : CognitiveReportSummary)
        (hmem : report ∈ sources.readCognitiveReportSummaries options.cognitiveJournalPath
          options.cognitiveReportLimit false) :
        Clean report.redacted.toJson ↔ report.Free := clean_report (reportTypeOf_mem hmem)
    constructor
    · intro h
      obtain ⟨hpath, hreports⟩ := clean_snapshot.mp (h _ rfl)
      rw [List.forall_mem_map] at hreports
      exact ⟨fun _ => hpath, fun _ report hmem => (hreport report hmem).mp (hreports report hmem)⟩
    · rintro ⟨hpath, hreports⟩ value hvalue
      cases hvalue
      refine clean_snapshot.mpr ⟨hpath hinclude, List.forall_mem_map.mpr fun report hmem => ?_⟩
      exact (hreport report hmem).mpr (hreports hinclude report hmem)
  · rename_i hinclude
    exact ⟨fun _ => ⟨fun h => absurd h hinclude, fun h => absurd h hinclude⟩,
      fun _ value h => (by cases h)⟩

theorem clean_auditTail (sources : BundleSources) (options : BundleOptions)
    (hredact : options.redactSensitive = true) :
    Clean (.obj [(js "path", .str options.auditPath),
      (js "tailLines", .arr (sources.readAuditTail options.auditPath options.auditLines
        options.redactSensitive))]) ↔
      SecretFree options.auditPath ∧
        ∀ entry ∈ sources.auditEntries options.auditPath options.auditLines, KeysFree entry := by
  rw [clean_named]
  · simp only [List.forall_mem_cons, clean_str, clean_arr, BundleSources.readAuditTail, hredact,
      List.forall_mem_map, clean_redactIf]
    exact ⟨fun h => ⟨h.1, h.2.1⟩, fun h => ⟨h.1, h.2, fun member h => absurd h List.not_mem_nil⟩⟩
  · exact bundleKeys_subset ["path", "tailLines"] (by decide)

theorem drill_of_clean_bundle {sources : BundleSources} {options : BundleOptions}
    (h : Clean (sources.bundle options)) : Clean sources.runGuardDrillJson.toJson := by
  rw [BundleSources.bundle] at h
  exact (clean_obj.mp h (js "drill", sources.runGuardDrillJson.toJson) (by simp)).2.2

/-- **Redacted bundles.** A bundle that is written with redaction is clean exactly when what never
reaches the redactor is. -/
theorem clean_bundle_iff (sources : BundleSources) (options : BundleOptions)
    (hredact : options.redactSensitive = true) :
    Clean (sources.bundle options) ↔ sources.UnredactedFree options := by
  rw [BundleSources.bundle, clean_named]
  · rw [List.forall_mem_append, forall_optionalMember, clean_cognitiveReports _ _ hredact]
    simp only [List.forall_mem_cons, clean_str]
    rw [clean_auditTail _ _ hredact, clean_drill, hredact, clean_fetchStatus]
    constructor
    · rintro ⟨⟨-, -, ⟨hurl, hpayload⟩, ⟨haudit, hentries⟩, hdrill, -⟩, hpath, hreports⟩
      exact ⟨hurl, hpayload, haudit, hentries, hdrill, hpath, hreports⟩
    · rintro ⟨hurl, hpayload, haudit, hentries, hdrill, hpath, hreports⟩
      exact ⟨⟨.num _, secretFree_isoText _, ⟨hurl, hpayload⟩, ⟨haudit, hentries⟩, hdrill,
        fun member h => absurd h List.not_mem_nil⟩, hpath, hreports⟩
  · rw [List.map_append]
    refine List.append_subset.mpr ⟨?_, ?_⟩
    · exact bundleKeys_subset ["schemaVersion", "generatedAt", "status", "securityAudit", "drill"]
        (by decide)
    · exact fun key hkey => bundleKeys_subset ["cognitiveReports"] (by decide)
        ((keys_optionalMember _ _).subset hkey)

/-- A service that cannot be reached, no audit log, and a drill that fails with a message. -/
def failingSources (stderr : String) : BundleSources where
  process := blobProcess
  readdirSync _ := .ok []
  fetch _ := .error (js "fetch failed")
  drillRun := { status := some 1, stdout := [], stderr := stderr.toList }
  now := 0

/-- The options of an export without arguments. -/
def defaultOptions : BundleOptions where
  redactSensitive := true
  statusUrl := js "http://127.0.0.1:8080/v1/ops/status"
  auditPath := js "/data/security-audit.jsonl"
  auditLines := .ofNat 50
  includeCognitiveSummaries := false
  cognitiveJournalPath := js "/data/chains/journal"
  cognitiveReportLimit := .ofNat 10

theorem unredactedFree_failing {stderr : String}
    (hdrill : SecretFree (drillFailure (failingSources stderr).drillRun)) :
    (failingSources stderr).UnredactedFree defaultOptions where
  statusUrl := by decide
  payload response h := by cases h
  auditPath := by decide
  audit entry h := by cases h
  drill := ⟨fun _ => hdrill, fun h => (by cases h), fun h => (by cases h)⟩
  journalPath h := by cases h
  reports h := by cases h

/-- A drill that fails without a credential in its message leaves a clean bundle. -/
theorem clean_bundle_iff_sample : Clean ((failingSources "guards failed").bundle defaultOptions) :=
  (clean_bundle_iff _ _ rfl).mpr (unredactedFree_failing (by decide))

/-- The message of a drill that fails is written as it is. -/
theorem drill_leaks :
    ¬ Clean ((failingSources "sk-abcdefghij").bundle defaultOptions) := by
  intro h
  have hfree := ((clean_drill _).mp (drill_of_clean_bundle h)).failure (by decide)
  revert hfree
  decide

end MemphisOS.Incident
