import MemphisOS.Ecma.NumberOrder
import MemphisOS.Incident.EncryptedBlob
import MemphisOS.Incident.KeyBundle
import MemphisOS.Incident.Process

/-!
# Manifests

The manifest of an incident bundle records the hash and the size of the bundle and what it says
of its cognitive reports. It may be signed.
-/

namespace MemphisOS.Incident

open Ecma Bridge

structure BundleDescriptor where
  path : JsString
  sha256 : JsString
  bytes : JsNumber

structure SignatureDescriptor where
  value : JsString
  payloadSha256 : JsString
  keyFingerprint : JsString
  keyId : Option JsString

structure CognitiveReportManifestIntegrity where
  included : Bool
  count : JsNumber
  digestSha256 : Option JsString

structure IncidentBundleManifest where
  bundle : BundleDescriptor
  cognitiveReports : Option CognitiveReportManifestIntegrity
  /-- The bundle descriptor of the encrypted artifacts. -/
  encryptedBundle : Option BundleDescriptor
  signature : Option SignatureDescriptor

/-! ## Fields -/

/-- The path, the hash and the size of a file. -/
def parseDescriptor (value : Plain) (path sha256 bytes : String) :
    Except JsString BundleDescriptor := do
  let path ← requireString value "path" path
  let sha256 ← requireString value "sha256" sha256
  let bytes ← requireSize value "bytes" bytes
  .ok { path, sha256, bytes }

/-- A number that is finite, not negative and an integer. -/
def isCount (n : JsNumber) : Bool := n.isFinite && !n.lt (.ofNat 0) && n.isInteger

/-- A property that a test accepts when it is there, and not null. -/
def checkNullable (value : Plain) (name : String) (accepts : Plain → Bool) (message : String) :
    Except JsString Unit :=
  match property value name with
  | none | some .null => .ok ()
  | some v => check (accepts v) message

def parseIncluded (row : Plain) : Except JsString Bool :=
  match property row "included" with
  | some (.bool included) => .ok included
  | _ => .error (js "manifest cognitiveReports.included must be a boolean")

def parseCount (row : Plain) : Except JsString JsNumber :=
  match property row "count" with
  | some (.num n) =>
    if isCount n then .ok n
    else .error (js "manifest cognitiveReports.count must be a non-negative integer")
  | _ => .error (js "manifest cognitiveReports.count must be a non-negative integer")

/-- The digest must be there, if only as null. -/
def parseDigest (row : Plain) : Except JsString (Option JsString) :=
  match property row "digestSha256" with
  | some .null => .ok none
  | _ => (requireString row "digestSha256"
      "manifest cognitiveReports.digestSha256 must be a non-empty string or null").map some

/-! ## The manifest -/

def parseCognitiveReports (value : Plain) :
    Except JsString CognitiveReportManifestIntegrity := do
  let row ← requireObject (some value) "manifest cognitiveReports must be an object when present"
  let included ← parseIncluded row
  let count ← parseCount row
  let digestSha256 ← parseDigest row
  checkNullable row "schemaVersion" (fun v => match v with | .num n => n.isFinite | _ => false)
    "manifest cognitiveReports.schemaVersion must be a finite number or null"
  checkNullable row "limit" (fun v => match v with | .num n => isCount n | _ => false)
    "manifest cognitiveReports.limit must be a non-negative integer or null"
  checkNullable row "journalPath" (fun v => match v with | .str s => s ≠ [] | _ => false)
    "manifest cognitiveReports.journalPath must be a non-empty string or null"
  check (included || count.strictEq (.ofNat 0))
    "manifest cognitiveReports.count must be 0 when included=false"
  check (included || digestSha256.isNone)
    "manifest cognitiveReports.digestSha256 must be null when included=false"
  check (!included || digestSha256.isSome)
    "manifest cognitiveReports.digestSha256 must be present when included=true"
  .ok { included, count, digestSha256 }

/-- The manifest of the encrypted artifacts, when there is one. -/
def checkEncryptedManifest (encrypted : Plain) : Except JsString Unit :=
  match property encrypted "manifest" with
  | none => .ok ()
  | some manifest => do
    let manifest ← requireObject (some manifest)
      "manifest encryptedArtifacts.manifest must be an object when present"
    let _ ← requireString manifest "path"
      "manifest encryptedArtifacts.manifest.path must be a non-empty string"
    .ok ()

def parseEncryptedArtifacts (value : Plain) : Except JsString BundleDescriptor := do
  let encrypted ← requireObject (some value)
    "manifest encryptedArtifacts must be an object when present"
  check (isNumber encrypted "schemaVersion" 1)
    "manifest encryptedArtifacts.schemaVersion must be 1"
  requireLiteral encrypted "format" "memphis.encrypted-blob.v1"
    "manifest encryptedArtifacts.format must be memphis.encrypted-blob.v1"
  requireLiteral encrypted "algorithm" "aes-256-gcm"
    "manifest encryptedArtifacts.algorithm must be aes-256-gcm"
  requireLiteral encrypted "kdf" "scrypt" "manifest encryptedArtifacts.kdf must be scrypt"
  let bundle ← requireObject (property encrypted "bundle")
    "manifest encryptedArtifacts.bundle must be an object"
  let descriptor ← parseDescriptor bundle
    "manifest encryptedArtifacts.bundle.path must be a non-empty string"
    "manifest encryptedArtifacts.bundle.sha256 must be a non-empty string"
    "manifest encryptedArtifacts.bundle.bytes must be a non-negative number"
  checkEncryptedManifest encrypted
  .ok descriptor

def parseSignature (value : Plain) : Except JsString SignatureDescriptor := do
  let signature ← requireObject (some value) "manifest signature must be an object when present"
  requireLiteral signature "algorithm" "ed25519" "manifest signature.algorithm must be ed25519"
  let value ← requireString signature "value"
    "manifest signature.value must be a non-empty string"
  let payloadSha256 ← requireString signature "payloadSha256"
    "manifest signature.payloadSha256 must be a non-empty string"
  let keyFingerprint ← requireString signature "keyFingerprint"
    "manifest signature.keyFingerprint must be a non-empty string"
  let keyId ← optionalString signature "keyId"
    "manifest signature.keyId must be a non-empty string when present"
  .ok { value, payloadSha256, keyFingerprint, keyId }

/-- A part of the manifest that is parsed when it is there. -/
def parseOptional {α : Type} (value : Plain) (name : String) (parse : Plain → Except JsString α) :
    Except JsString (Option α) :=
  match property value name with
  | none => .ok none
  | some part => (parse part).map some

/-- `parseManifestObject(parsed)`. -/
def parseManifestObject (parsed : Plain) : Except JsString IncidentBundleManifest := do
  let value ← requireObject (some parsed) "manifest must be a JSON object"
  check (isNumber value "schemaVersion" 1) "manifest schemaVersion must be 1"
  let _ ← requireString value "generatedAt" "manifest generatedAt must be a non-empty string"
  let bundle ← requireObject (property value "bundle") "manifest bundle must be an object"
  let bundle ← parseDescriptor bundle "manifest bundle.path must be a non-empty string"
    "manifest bundle.sha256 must be a non-empty string"
    "manifest bundle.bytes must be a non-negative number"
  let cognitiveReports ← parseOptional value "cognitiveReports" parseCognitiveReports
  let encryptedBundle ← parseOptional value "encryptedArtifacts" parseEncryptedArtifacts
  let signature ← parseOptional value "signature" parseSignature
  .ok { bundle, cognitiveReports, encryptedBundle, signature }

end MemphisOS.Incident

/-!
## The verifier

The verifier of incident manifests pushes errors. An exception ends it, and its verdict is that
no error was pushed.
-/

namespace MemphisOS.Incident

open Ecma Bridge

inductive VerifyProfileName where
  | trustRootStrict
  | legacyCompat
  deriving DecidableEq

structure VerifyProfileDefaults where
  requireSignature : Bool
  requireSignedKeyBundle : Bool
  requireCognitiveSummaries : Bool
  requireChainEvent : Bool

def resolveVerifyProfileDefaults : Option VerifyProfileName → VerifyProfileDefaults
  | some .trustRootStrict =>
    { requireSignature := true
      requireSignedKeyBundle := true
      requireCognitiveSummaries := true
      requireChainEvent := true }
  | some .legacyCompat =>
    { requireSignature := false
      requireSignedKeyBundle := false
      requireCognitiveSummaries := false
      requireChainEvent := false }
  | none =>
    { requireSignature := false
      requireSignedKeyBundle := false
      requireCognitiveSummaries := false
      requireChainEvent := true }

/-- The verdict: the policy it was reached under, and the errors. -/
structure VerifyOutput where
  manifestPath : JsString
  bundlePath : JsString
  profile : Option VerifyProfileName
  requireSignature : Bool
  requireSignedKeyBundle : Bool
  requireCognitiveSummaries : Bool
  skipChainEvent : Bool
  requireChainEvent : Bool
  errors : List JsString

/-- What the verifier prints. -/
inductive VerifyPrint where
  | help
  | completionHints
  | output (output : VerifyOutput)

/-! ## Cognitive reports -/

/-- `typeof value === 'string' ? value : null`. -/
def normalizeStringOrNull : Option Plain → Plain
  | some (.str s) => .str s
  | _ => .null

/-- `typeof value === 'number' && Number.isFinite(value) ? value : null`. -/
def normalizeNumberOrNull : Option Plain → Plain
  | some (.num n) => if n.isFinite then .num n else .null
  | _ => .null

def normalizeReport (row : Plain) : Plain :=
  .obj [(js "index", normalizeNumberOrNull (property row "index")),
    (js "timestamp", normalizeStringOrNull (property row "timestamp")),
    (js "hash", normalizeStringOrNull (property row "hash")),
    (js "reportType", normalizeStringOrNull (property row "reportType")),
    (js "dataType", normalizeStringOrNull (property row "dataType")),
    (js "schemaVersion", normalizeNumberOrNull (property row "schemaVersion")),
    (js "source", normalizeStringOrNull (property row "source")),
    (js "generatedAt", normalizeStringOrNull (property row "generatedAt")),
    (js "input", normalizeStringOrNull (property row "input")),
    (js "path", normalizeStringOrNull (property row "path"))]

/-- `canonicalizeCognitiveReportsForDigest(reports)`. -/
def canonicalizeCognitiveReportsForDigest (reports : List Plain) : Text :=
  jsonText [] (.arr (reports.map normalizeReport))

/-- `bundle.cognitiveReports.reports`, when it is an array. -/
def bundleReports (bundle : Plain) : Option (List Plain) :=
  match (property bundle "cognitiveReports").bind (property · "reports") with
  | some (.arr reports) => some reports
  | _ => none

/-- The manifest of `loadManifest`, and whether it was encrypted. -/
structure LoadedManifest where
  manifest : IncidentBundleManifest
  manifestObject : Plain
  manifestEncrypted : Bool

/-- The bytes of `resolveBundleBytes`, with the errors it adds. -/
structure BundleResolution where
  bundlePath : JsString
  bytes : Option (List UInt8)
  errors : List JsString

structure KeyResolution where
  publicKeyPem : Option JsString
  errors : List JsString

/-- `{ ...manifestObject }` without its signature. -/
def unsignedManifest : Plain → Plain := withoutMember "signature"

namespace Process

variable (p : Process)

/-! ## Options -/

def resolveVerifyProfileName : Except JsString (Option VerifyProfileName) :=
  match (p.parseArg "--profile").or (p.env "MEMPHIS_INCIDENT_MANIFEST_VERIFY_PROFILE") with
  | none | some [] => .ok none
  | some raw =>
    if raw = js "trust-root-strict" then .ok (some .trustRootStrict)
    else if raw = js "legacy-compat" then .ok (some .legacyCompat)
    else .error (js "unsupported verify profile: " ++ raw ++
      js "; expected one of trust-root-strict, legacy-compat")

def resolveDecryptionPassphrase : Except JsString (Option JsString) :=
  let argRaw := p.parseArg "--decryption-passphrase"
  let argBase64 := p.parseArg "--decryption-passphrase-base64"
  let argFile := p.parseArg "--decryption-passphrase-file"
  let envRaw := p.env "MEMPHIS_INCIDENT_BUNDLE_DECRYPTION_PASSPHRASE"
  let envBase64 := p.env "MEMPHIS_INCIDENT_BUNDLE_DECRYPTION_PASSPHRASE_BASE64"
  let envFile := p.env "MEMPHIS_INCIDENT_BUNDLE_DECRYPTION_PASSPHRASE_FILE"
  match [argRaw, argBase64, argFile, envRaw, envBase64, envFile].countP
      (fun value => value.any (·.trim ≠ [])) with
  | 0 => .ok none
  | 1 =>
    if present argBase64 || present envBase64 then
      .ok (some (ofText (decodeUtf8 (fromBase64 ((argBase64.or envBase64).getD [])))))
    else if present argFile || present envFile then
      (p.readText (p.paths.resolve ((argFile.or envFile).getD []))).map
        fun text => some (ofText (trim text))
    else .ok (argRaw.or envRaw)
  | _ => .error (js <| "multiple decryption passphrase sources provided; use exactly one of " ++
      "--decryption-passphrase, --decryption-passphrase-base64, --decryption-passphrase-file " ++
      "(or matching env vars)")

def resolveManifestPath : Except JsString JsString :=
  match ((p.parseArg "--manifest-path").or (p.parseArg "--manifest")).or
      (p.env "MEMPHIS_INCIDENT_BUNDLE_MANIFEST_PATH") with
  | none | some [] =>
    .error (js "missing required --manifest-path (or MEMPHIS_INCIDENT_BUNDLE_MANIFEST_PATH)")
  | some provided => .ok (p.paths.resolve provided)

def expectedKeyId : Option JsString :=
  (p.parseArg "--expected-key-id").or (p.env "MEMPHIS_INCIDENT_BUNDLE_EXPECTED_KEY_ID")

def requireCognitiveSummaries (defaults : VerifyProfileDefaults) : Bool :=
  p.hasFlag "--require-cognitive-summaries" ||
    (parseOptionalBool (p.env "MEMPHIS_INCIDENT_REQUIRE_COGNITIVE_SUMMARIES")).getD
      defaults.requireCognitiveSummaries

/-! ## Reading -/

/-- `loadManifest(options)`; its only error is the one it throws or returns early with. -/
def loadManifest (manifestPath : JsString) (decryptionPassphrase : Option JsString) :
    Except JsString LoadedManifest := do
  let text ← p.readText manifestPath
  let parsed ← p.parse text
  if isEncryptedBlobJson parsed then
    match decryptionPassphrase with
    | none | some [] =>
      .error (js "manifest is encrypted; provide --decryption-passphrase or matching env var")
    | some passphrase =>
      let decryptedManifest ← p.openBlob parsed passphrase
      let manifestObject ← p.parse (decodeUtf8 decryptedManifest)
      let manifest ← parseManifestObject manifestObject
      .ok { manifest, manifestObject, manifestEncrypted := true }
  else
    let manifest ← parseManifestObject parsed
    .ok { manifest, manifestObject := parsed, manifestEncrypted := false }

def resolveBundlePath (bundlePath manifestPath : JsString) : JsString :=
  let override := (p.parseArg "--bundle-path").or (p.env "MEMPHIS_INCIDENT_BUNDLE_PATH")
  if present override then p.paths.resolve (override.getD [])
  else if p.paths.isAbsolute bundlePath then bundlePath
  else p.paths.resolveFrom (p.paths.dirname manifestPath) bundlePath

/-- The paths a bundle is looked for at. A path that comes twice is looked at once. -/
def bundleCandidates (manifest : IncidentBundleManifest) (manifestPath : JsString)
    (preferEncrypted : Bool) : List JsString :=
  let plainPath := p.resolveBundlePath manifest.bundle.path manifestPath
  let encryptedPathFromManifest := manifest.encryptedBundle.map fun bundle =>
    if p.paths.isAbsolute bundle.path then bundle.path
    else p.paths.resolveFrom (p.paths.dirname manifestPath) bundle.path
  let encryptedCandidates :=
    (encryptedPathFromManifest.toList ++ [plainPath ++ js ".enc"]).filter (· ≠ [])
  if preferEncrypted then encryptedCandidates ++ [plainPath]
  else plainPath :: encryptedCandidates

/-- The bytes of a candidate. What the `try` block throws is dropped: the file itself is then
the bundle. -/
def openBundle (candidate : JsString) (bytes : List UInt8)
    (decryptionPassphrase : Option JsString) : BundleResolution :=
  let asRead : BundleResolution := { bundlePath := candidate, bytes := some bytes, errors := [] }
  match p.parse (decodeUtf8 bytes) with
  | .error _ => asRead
  | .ok parsed =>
    if isEncryptedBlobJson parsed then
      match decryptionPassphrase with
      | none | some [] =>
        { bundlePath := candidate
          bytes := none
          errors := [js "bundle file is encrypted (" ++ candidate ++
            js "); provide --decryption-passphrase or matching env var"] }
      | some passphrase =>
        match p.openBlob parsed passphrase with
        | .ok decrypted => { asRead with bytes := some decrypted }
        | .error _ => asRead
    else asRead

/-- `resolveBundleBytes(options)`. -/
def resolveBundleBytes (loaded : LoadedManifest) (manifestPath : JsString)
    (decryptionPassphrase : Option JsString) : Except JsString BundleResolution :=
  match (p.bundleCandidates loaded.manifest manifestPath loaded.manifestEncrypted).find?
      p.existsSync with
  | some candidate => do
    let bytes ← p.readFile candidate
    .ok (p.openBundle candidate bytes decryptionPassphrase)
  | none =>
    let plainPath := p.resolveBundlePath loaded.manifest.bundle.path manifestPath
    .ok { bundlePath := plainPath, bytes := none,
          errors := [js "bundle file not found: " ++ plainPath] }

/-! ## Checks -/

/-- The last checks of `verifyCognitiveSummaryIntegrity`: the errors it adds. -/
def verifyReports (cognitive : CognitiveReportManifestIntegrity) (reports : List Plain) :
    List JsString :=
  let countErrors :=
    if (JsNumber.ofNat reports.length).strictEq cognitive.count then []
    else [js "cognitive summary count mismatch (expected=" ++
      ofText (numberText cognitive.count) ++ js ", actual=" ++ ofText (digits reports.length) ++
      js ")"]
  let actualDigest :=
    if cognitive.included || 0 < reports.length then
      some (p.hashText (canonicalizeCognitiveReportsForDigest reports))
    else none
  let digestErrors :=
    if actualDigest = cognitive.digestSha256 then []
    else [js "cognitive summary digest mismatch (expected=" ++
      cognitive.digestSha256.getD (js "null") ++ js ", actual=" ++
      actualDigest.getD (js "null") ++ js ")"]
  countErrors ++ digestErrors

/-- `verifyCognitiveSummaryIntegrity(options)`: the errors it adds. -/
def verifyCognitiveSummaryIntegrity (manifest : IncidentBundleManifest)
    (bundleBytes : List UInt8) (requireCognitiveSummaries : Bool) : List JsString :=
  match manifest.cognitiveReports with
  | none =>
    if requireCognitiveSummaries then
      [js "cognitive summaries are required but manifest.cognitiveReports is missing"]
    else []
  | some cognitive =>
    let includedErrors :=
      if requireCognitiveSummaries && !cognitive.included then
        [js "cognitive summaries are required but manifest.cognitiveReports.included=false"]
      else []
    includedErrors ++
      match p.parse (decodeUtf8 bundleBytes) with
      | .error message =>
        [js "failed to parse bundle JSON for cognitive summary integrity checks: " ++ message]
      | .ok bundle =>
        match bundleReports bundle with
        | some reports => p.verifyReports cognitive reports
        | none =>
          if cognitive.included then
            [js <| "manifest requires embedded cognitive summaries but bundle payload is " ++
              "missing cognitiveReports.reports"]
          else if requireCognitiveSummaries then
            [js <| "cognitive summaries are required but bundle payload is missing " ++
              "cognitiveReports.reports"]
          else p.verifyReports cognitive []

/-- The hash, the size and the cognitive reports of a bundle: the errors that are added. -/
def verifyBundle (manifest : IncidentBundleManifest) (bytes : List UInt8)
    (requireCognitiveSummaries : Bool) : List JsString :=
  let hashErrors :=
    if p.sha256Hex bytes = manifest.bundle.sha256 then [] else [js "bundle sha256 mismatch"]
  let sizeErrors :=
    if (JsNumber.ofNat bytes.length).strictEq manifest.bundle.bytes then []
    else [js "bundle byte size mismatch"]
  hashErrors ++ sizeErrors ++
    p.verifyCognitiveSummaryIntegrity manifest bytes requireCognitiveSummaries

/-- `parsePublicKeyBundle(readFileSync(bundlePath, 'utf8'))`. -/
def readKeyBundle (bundlePath : JsString) : Except JsString PublicKeyBundle := do
  let text ← p.readText bundlePath
  parsePublicKeyBundle (← p.parse text)

/-- The key a bundle lists for a key id, after its provenance was checked. -/
def lookupKey (bundlePath keyId : JsString) (requireSignedBundle : Bool) : KeyResolution :=
  match p.readKeyBundle bundlePath with
  | .error message => { publicKeyPem := none, errors := [message] }
  | .ok bundle =>
    let errors := p.verifyKeyBundleProvenance bundle requireSignedBundle
    match bundle.keys.find? (·.keyId = keyId) with
    | none =>
      { publicKeyPem := none
        errors := errors ++ [js "public key bundle missing keyId: " ++ keyId] }
    | some key => { publicKeyPem := some key.publicKeyPem, errors }

/-- The path of the public key bundle, as it is given. -/
def bundlePathRaw : Option JsString :=
  (p.parseArg "--public-key-bundle-path").or
    (p.env "MEMPHIS_INCIDENT_BUNDLE_PUBLIC_KEY_BUNDLE_PATH")

/-- The path of a public key, as it is given. -/
def directPathRaw : Option JsString :=
  (p.parseArg "--public-key-path").or (p.env "MEMPHIS_INCIDENT_BUNDLE_VERIFY_PUBLIC_KEY_PATH")

/-- `resolvePublicKeyPem(options)`. -/
def resolvePublicKeyPem (manifest : IncidentBundleManifest) (requireSignedBundle : Bool) :
    Except JsString KeyResolution :=
  if present p.directPathRaw then
    let directPath := p.paths.resolve (p.directPathRaw.getD [])
    if requireSignedBundle then
      .ok
        { publicKeyPem := none
          errors := [js <| "require-key-bundle-signature requires --public-key-bundle-path " ++
            "(direct key path is unsupported)"] }
    else if !p.existsSync directPath then
      .ok { publicKeyPem := none, errors := [js "public key file not found: " ++ directPath] }
    else do
      let text ← p.readText directPath
      .ok { publicKeyPem := some (ofText text), errors := [] }
  else if !present p.bundlePathRaw then
    .ok
      { publicKeyPem := none
        errors :=
          if requireSignedBundle then
            [js "public key bundle signature is required but --public-key-bundle-path is missing"]
          else [] }
  else
    match (manifest.signature.bind (·.keyId)).or p.expectedKeyId with
    | none | some [] =>
      .ok
        { publicKeyPem := none
          errors :=
            [js "public key bundle lookup requires signature.keyId or --expected-key-id"] }
    | some keyId =>
      let bundlePath := p.paths.resolve (p.bundlePathRaw.getD [])
      if !p.existsSync bundlePath then
        .ok { publicKeyPem := none, errors := [js "public key bundle not found: " ++ bundlePath] }
      else .ok (p.lookupKey bundlePath keyId requireSignedBundle)

/-- The fingerprint and the signature under a key: the errors that are added. -/
def verifyUnderKey (signature : SignatureDescriptor) (payload : Text) (publicKeyPem : JsString) :
    List JsString :=
  match p.crypto.createPublicKey publicKeyPem with
  | .error message => [message]
  | .ok publicKey =>
    let fingerprintErrors :=
      if p.sha256Hex (bytesOf publicKeyPem) = signature.keyFingerprint then []
      else [js "signature key fingerprint mismatch"]
    fingerprintErrors ++
      match p.crypto.verify publicKey (encodeUtf8 payload) (fromBase64 signature.value) with
      | .error message => [message]
      | .ok signatureVerified =>
        if signatureVerified then [] else [js "signature verification failed"]

/-- `verifySignature(options)`: the errors it adds. -/
def verifySignature (loaded : LoadedManifest) (publicKeyPem : Option JsString)
    (requireSignature : Bool) : List JsString :=
  match loaded.manifest.signature with
  | none =>
    (if present p.expectedKeyId then [js "expected key id provided but manifest is unsigned"]
      else []) ++
    (if requireSignature then [js "signature is required but manifest is unsigned"] else [])
  | some signature =>
    let keyIdErrors :=
      if present p.expectedKeyId && signature.keyId ≠ p.expectedKeyId then
        [js "signature key id mismatch (expected=" ++ p.expectedKeyId.getD [] ++ js ", actual=" ++
          signature.keyId.getD (js "none") ++ js ")"]
      else []
    let payload := jsonText [] (unsignedManifest loaded.manifestObject)
    let payloadErrors :=
      if p.hashText payload = signature.payloadSha256 then []
      else [js "signature payload hash mismatch"]
    keyIdErrors ++ payloadErrors ++
      match publicKeyPem with
      | none | some [] => [js "signature is present but no public key source is available"]
      | some pem => p.verifyUnderKey signature payload pem

/-! ## The verdict -/

/-- The bundle and the signature of a manifest: the bundle path and the errors. -/
def verifyLoaded (loaded : LoadedManifest) (manifestPath : JsString)
    (decryptionPassphrase : Option JsString)
    (requireSignature requireSignedKeyBundle requireCognitiveSummaries : Bool) :
    Except JsString (JsString × List JsString) := do
  let resolution ← p.resolveBundleBytes loaded manifestPath decryptionPassphrase
  let bundleErrors :=
    match resolution.bytes with
    | some bytes => p.verifyBundle loaded.manifest bytes requireCognitiveSummaries
    | none => []
  let keyResolution ← p.resolvePublicKeyPem loaded.manifest requireSignedKeyBundle
  let signatureErrors := p.verifySignature loaded keyResolution.publicKeyPem requireSignature
  .ok (resolution.bundlePath,
    resolution.errors ++ bundleErrors ++ keyResolution.errors ++ signatureErrors)

/-- The manifest and what it refers to: the bundle path and the errors. -/
def verifyManifest (manifestPath : JsString) (decryptionPassphrase : Option JsString)
    (requireSignature requireSignedKeyBundle requireCognitiveSummaries : Bool) :
    Except JsString (JsString × List JsString) :=
  match p.loadManifest manifestPath decryptionPassphrase with
  | .error message => .ok ([], [message])
  | .ok loaded =>
    p.verifyLoaded loaded manifestPath decryptionPassphrase requireSignature
      requireSignedKeyBundle requireCognitiveSummaries

/-- `main()`, with the error of the last attempt to write the chain event, if no attempt has
written it. -/
def verify (chainEvent : Except JsString Unit) : Except JsString VerifyPrint :=
  if p.hasFlag "--help" || p.hasFlag "-h" then .ok .help
  else if p.hasFlag "--completion-hints" then .ok .completionHints
  else do
    let manifestPath ← p.resolveManifestPath
    let profile ← p.resolveVerifyProfileName
    let profileDefaults := resolveVerifyProfileDefaults profile
    let requireSignature := p.hasFlag "--require-signature" || profileDefaults.requireSignature
    let requireSignedKeyBundle :=
      p.hasFlag "--require-key-bundle-signature" || profileDefaults.requireSignedKeyBundle
    let requireCognitiveSummaries := p.requireCognitiveSummaries profileDefaults
    let decryptionPassphrase ← p.resolveDecryptionPassphrase
    let skipChainEvent := p.hasFlag "--skip-chain-event"
    let requireChainEvent :=
      (parseOptionalBool (p.env "MEMPHIS_INCIDENT_CHAIN_EVENT_REQUIRED")).getD
        profileDefaults.requireChainEvent
    let (bundlePath, errors) ← p.verifyManifest manifestPath decryptionPassphrase requireSignature
      requireSignedKeyBundle requireCognitiveSummaries
    let chainErrors :=
      match chainEvent with
      | .ok _ => []
      | .error message =>
        if !skipChainEvent && requireChainEvent then
          [js "failed to append incident verification chain event: " ++ message]
        else []
    .ok (.output
      { manifestPath, bundlePath, profile, requireSignature, requireSignedKeyBundle,
        requireCognitiveSummaries, skipChainEvent, requireChainEvent,
        errors := errors ++ chainErrors })

end Process

end MemphisOS.Incident
