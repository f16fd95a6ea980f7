import MemphisOS.Ecma.Date
import MemphisOS.Ecma.NumberOrder
import MemphisOS.Incident.Process
import MemphisOS.Incident.Redaction

/-!
# The bundle

What an export collects: the status of the service, the end of the audit log, the result of the
guard drill and the cognitive reports of the journal.
-/

namespace MemphisOS.Incident

open Ecma Bridge

/-! ## Sources -/

/-- An answer to the request for the status, with the text of its body. -/
structure StatusResponse where
  ok : Bool
  status : ℕ
  text : Text

/-- What a process that was run has left behind; what it has not written is empty. -/
structure SpawnResult where
  status : Option ℕ
  stdout : Text
  stderr : Text

/-- Where a bundle is collected from. -/
structure BundleSources where
  process : Process
  readdirSync : JsString → Except JsString (List JsString)
  /-- The answer to a request, or the message of the exception. -/
  fetch : JsString → Except JsString StatusResponse
  drillRun : SpawnResult
  /-- The moment of the export. -/
  now : ℤ

/-- The options that say what is collected. -/
structure BundleOptions where
  redactSensitive : Bool
  statusUrl : JsString
  auditPath : JsString
  auditLines : JsNumber
  includeCognitiveSummaries : Bool
  cognitiveJournalPath : JsString
  cognitiveReportLimit : JsNumber

/-! ## Status -/

/-- `redactJson`, when redaction is on. -/
def redactIf (redactSensitive : Bool) (value : Plain) : Plain :=
  if redactSensitive then redactJson value else value

/-- `maybeRedactString`, when redaction is on. -/
def redactStringIf (redactSensitive : Bool) (s : JsString) : JsString :=
  if redactSensitive then maybeRedactString s else s

/-- A text that is no JSON document. -/
def rawText (t : Text) : Plain := .obj [(js "raw", .str (ofText t))]

/-- A document, or the raw text when it is none. -/
def documentOr (t : Text) : Plain := (parseJson t).getD (rawText t)

/-- `fetchStatus(url, redactSensitive)`. -/
def BundleSources.fetchStatus (sources : BundleSources) (url : JsString) (redactSensitive : Bool) :
    Plain :=
  match sources.fetch url with
  | .ok response => .obj [(js "ok", .bool response.ok), (js "url", .str url),
      (js "httpStatus", .num (.ofNat response.status)),
      (js "payload", redactIf redactSensitive (documentOr response.text))]
  | .error message => .obj [(js "ok", .bool false), (js "url", .str url),
      (js "httpStatus", .null), (js "error", .str (redactStringIf redactSensitive message))]

/-! ## Drill -/

/-- The result of the guard drill. -/
structure Drill where
  ok : Bool
  result : Option Plain
  error : Option JsString

def Drill.toJson (drill : Drill) : Plain :=
  .obj ([(js "ok", .bool drill.ok)] ++ optionalMember "result" drill.result ++
    optionalMember "error" (drill.error.map .str))

/-- The first of two texts that is not empty. -/
def orText (t other : Text) : Text := if t = [] then other else t

/-- `runGuardDrillJson(repoRoot)`. -/
def BundleSources.runGuardDrillJson (sources : BundleSources) : Drill :=
  let out := sources.drillRun
  if out.status ≠ some 0 then
    let exit := "exit=".toList ++ (out.status.elim "null".toList digits)
    { ok := false
      result := none
      error := some (ofText (orText (trim out.stderr) (orText (trim out.stdout) exit))) }
  else
    match sources.process.parse out.stdout with
    | .ok result => { ok := true, result := some result, error := none }
    | .error message =>
      { ok := false, result := none, error := some (js "failed to parse drill JSON: " ++ message) }

/-! ## Audit log -/

/-- `slice` of the last items; a number that is given as an option is positive. -/
def lastItems {α : Type} (count : JsNumber) (items : List α) : List α :=
  if (JsNumber.ofNat items.length).le count then items
  else items.drop (items.length - ⌊count.toRat?.getD 0⌋.toNat)

/-- `tailLines(input, count)`. -/
def tailLines (input : Text) (count : JsNumber) : List Text :=
  lastItems count (((input.splitOn '\n').map trim).filter (· ≠ []))

/-- The entries of `readAuditTail`, before they are redacted. -/
def BundleSources.auditEntries (sources : BundleSources) (auditPath : JsString)
    (count : JsNumber) : List Plain :=
  match sources.process.readText auditPath with
  | .error _ => []
  | .ok raw => (tailLines raw count).map documentOr

/-- `readAuditTail(auditPath, count, redactSensitive)`. -/
def BundleSources.readAuditTail (sources : BundleSources) (auditPath : JsString) (count : JsNumber)
    (redactSensitive : Bool) : List Plain :=
  (sources.auditEntries auditPath count).map (redactIf redactSensitive)

/-! ## Cognitive reports -/

structure CognitiveReportSummary where
  index : Option JsNumber
  timestamp : Option JsString
  hash : Option JsString
  /-- Nothing for a function, which JSON leaves out. -/
  reportType : Option Plain
  dataType : JsString
  schemaVersion : Option JsNumber
  source : Option JsString
  generatedAt : Option JsString
  input : Option JsString
  path : JsString

/-- A string, or null. -/
def stringOrNull : Option JsString → Plain
  | some s => .str s
  | none => .null

/-- A number, or null. -/
def numberOrNull : Option JsNumber → Plain
  | some n => .num n
  | none => .null

/-- The members of a report in the bundle and in the text that is hashed. -/
def CognitiveReportSummary.toJson (report : CognitiveReportSummary) : Plain :=
  .obj ([(js "index", numberOrNull report.index), (js "timestamp", stringOrNull report.timestamp),
    (js "hash", stringOrNull report.hash)] ++ optionalMember "reportType" report.reportType ++
    [(js "dataType", .str report.dataType),
      (js "schemaVersion", numberOrNull report.schemaVersion),
      (js "source", stringOrNull report.source),
      (js "generatedAt", stringOrNull report.generatedAt),
      (js "input", stringOrNull report.input), (js "path", .str report.path)])

structure CognitiveReportSnapshot where
  journalPath : JsString
  limit : JsNumber
  reports : List CognitiveReportSummary

def CognitiveReportSnapshot.toJson (snapshot : CognitiveReportSnapshot) : Plain :=
  .obj [(js "schemaVersion", .num (.ofNat 1)), (js "journalPath", .str snapshot.journalPath),
    (js "limit", .num snapshot.limit), (js "count", .num (.ofNat snapshot.reports.length)),
    (js "reports", .arr (snapshot.reports.map (·.toJson)))]

/-- What an object inherits that is a function. -/
def inheritedFunctions : List String :=
  ["constructor", "__defineGetter__", "__defineSetter__", "hasOwnProperty", "__lookupGetter__",
    "__lookupSetter__", "isPrototypeOf", "propertyIsEnumerable", "toString", "valueOf",
    "toLocaleString"]

/-- `COGNITIVE_REPORT_TYPE_MAP[dataType]` for a type that is `in` the map: what is inherited from
`Object.prototype` is in it too, and is a function or an object without enumerable properties. -/
def reportTypeOf (dataType : JsString) : Option (Option Plain) :=
  if dataType = js "insight_report" then some (some (.str (js "insight")))
  else if dataType = js "categorize_report" then some (some (.str (js "categorize")))
  else if dataType = js "reflection_report" then some (some (.str (js "reflection")))
  else if dataType = js "__proto__" then some (some (.obj []))
  else if dataType ∈ inheritedFunctions.map js then some none
  else none

/-- A property that is a number. -/
def numberProperty (value : Plain) (name : String) : Option JsNumber :=
  match property value name with
  | some (.num n) => some n
  | _ => none

/-- The order in which `Array.prototype.sort` puts strings. -/
def StringBefore (a b : JsString) : Prop := keyBefore (a, ()) (b, ())

instance : DecidableRel StringBefore := fun a b =>
  inferInstanceAs (Decidable (keyBefore (a, ()) (b, ())))

/-- The summary of a block that is a cognitive report. -/
def summarize (redactSensitive : Bool) (path : JsString) (block : Plain) :
    Option CognitiveReportSummary :=
  let data := (property block "data").getD .null
  let report := (property data "report").getD .null
  match stringProperty data "type" with
  | none | some [] => none
  | some dataType =>
    (reportTypeOf dataType).map fun reportType =>
      { index := numberProperty block "index"
        timestamp := stringProperty block "timestamp"
        hash := stringProperty block "hash"
        reportType
        dataType
        schemaVersion := numberProperty data "schemaVersion"
        source := (stringProperty data "source").map (redactStringIf redactSensitive)
        generatedAt := stringProperty report "generatedAt"
        input := (stringProperty report "input").map (redactStringIf redactSensitive)
        path }

/-- `readCognitiveReportSummaries(journalPath, limit, redactSensitive)`. -/
def BundleSources.readCognitiveReportSummaries (sources : BundleSources) (journalPath : JsString)
    (limit : JsNumber) (redactSensitive : Bool) : List CognitiveReportSummary :=
  if !sources.process.existsSync journalPath then []
  else
    match sources.readdirSync journalPath with
    | .error _ => []
    | .ok names =>
      let names := names.filter fun name => (js ".json").isSuffixOf name
      let summaries := (names.insertionSort StringBefore).filterMap fun name =>
        let filePath := sources.process.paths.resolveFrom journalPath name
        match sources.process.readText filePath >>= sources.process.parse with
        | .error _ => none
        | .ok block => summarize redactSensitive filePath block
      (lastItems limit summaries).reverse

/-! ## Assembly -/

/-- `buildCognitiveReportSnapshot`, when the summaries are included. -/
def BundleSources.cognitiveReports (sources : BundleSources) (options : BundleOptions) :
    Option CognitiveReportSnapshot :=
  if options.includeCognitiveSummaries then
    some
      { journalPath := options.cognitiveJournalPath
        limit := options.cognitiveReportLimit
        reports := sources.readCognitiveReportSummaries options.cognitiveJournalPath
          options.cognitiveReportLimit options.redactSensitive }
  else none

/-- The bundle that is written. -/
def BundleSources.bundle (sources : BundleSources) (options : BundleOptions) : Plain :=
  .obj ([(js "schemaVersion", .num (.ofNat 1)),
    (js "generatedAt", .str (ofText (isoText sources.now))),
    (js "status", sources.fetchStatus options.statusUrl options.redactSensitive),
    (js "securityAudit", .obj [(js "path", .str options.auditPath),
      (js "tailLines", .arr (sources.readAuditTail options.auditPath options.auditLines
        options.redactSensitive))]),
    (js "drill", sources.runGuardDrillJson.toJson)] ++
    optionalMember "cognitiveReports" ((sources.cognitiveReports options).map (·.toJson)))

end MemphisOS.Incident
