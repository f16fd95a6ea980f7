import MemphisOS.Incident.Process
import MemphisOS.TrustRoot.Transition

/-!
# Public key bundles

A bundle lists public keys under key ids. Its provenance is a signature over the list under the
key of a trusted root.
-/

namespace MemphisOS.Incident

open Ecma Bridge TrustRoot

structure PublicKeyBundleEntry where
  keyId : JsString
  publicKeyPem : JsString
  deriving DecidableEq

structure PublicKeyBundleProvenance where
  signerRootId : JsString
  signerPublicKeyPem : JsString
  payloadSha256 : JsString
  signature : JsString
  signedAt : Option JsString

structure PublicKeyBundle where
  keys : List PublicKeyBundleEntry
  provenance : Option PublicKeyBundleProvenance

/-! ## Parsing -/

def parseKeyEntry (entry : Plain) : Except JsString PublicKeyBundleEntry := do
  let row ← requireObject (some entry) "public key bundle entry must be an object"
  let keyId ← requireString row "keyId"
    "public key bundle entry keyId must be a non-empty string"
  let publicKeyPem ← requireString row "publicKeyPem"
    "public key bundle entry publicKeyPem must be a non-empty string"
  .ok { keyId, publicKeyPem }

def parseProvenance (provenance : Plain) : Except JsString PublicKeyBundleProvenance := do
  let row ← requireObject (some provenance)
    "public key bundle provenance must be an object when present"
  requireLiteral row "algorithm" "ed25519" "public key bundle provenance.algorithm must be ed25519"
  let signerRootId ← requireString row "signerRootId"
    "public key bundle provenance.signerRootId must be a non-empty string"
  let signerPublicKeyPem ← requireString row "signerPublicKeyPem"
    "public key bundle provenance.signerPublicKeyPem must be a non-empty string"
  let payloadSha256 ← requireString row "payloadSha256"
    "public key bundle provenance.payloadSha256 must be a non-empty string"
  let signature ← requireString row "signature"
    "public key bundle provenance.signature must be a non-empty string"
  let signedAt ← optionalString row "signedAt"
    "public key bundle provenance.signedAt must be a non-empty string when present"
  .ok { signerRootId, signerPublicKeyPem, payloadSha256, signature, signedAt }

/-- The schema version and the keys, which both parsers read in the same way. -/
def parseKeys (bundle : Option Plain) : Except JsString (Plain × List PublicKeyBundleEntry) := do
  let value ← requireObject bundle "public key bundle must be a JSON object"
  check (isNumber value "schemaVersion" 1) "public key bundle schemaVersion must be 1"
  match property value "keys" with
  | some (.arr entries) => .ok (value, ← entries.mapM parseKeyEntry)
  | _ => .error (js "public key bundle keys must be an array")

/-- `parsePublicKeyBundle(raw)` of the verifier, on the parsed text. -/
def parsePublicKeyBundle (bundle : Plain) : Except JsString PublicKeyBundle := do
  let (value, keys) ← parseKeys (some bundle)
  match property value "provenance" with
  | none => .ok { keys, provenance := none }
  | some provenance => .ok { keys, provenance := some (← parseProvenance provenance) }

/-- `parsePublicKeyBundle(raw)` of the rotation: key ids must differ, and the provenance is not
read. -/
def parseBaseBundle (bundle : Plain) : Except JsString (List PublicKeyBundleEntry) := do
  let (_, keys) ← parseKeys (some bundle)
  check (hasDistinctEntries (keys.map (·.keyId)))
    "public key bundle contains duplicate keyId entries"
  .ok keys

/-! ## Trust roots -/

def parseRootId : Plain → Except JsString JsString
  | .str s =>
    if s = [] then .error (js "trust root manifest rootIds entries must be non-empty strings")
    else .ok s
  | _ => .error (js "trust root manifest rootIds entries must be non-empty strings")

/-- The root ids of a trust root manifest, at least one. -/
def parseRootIds (value : Plain) : Except JsString (List JsString) :=
  match property value "rootIds" with
  | some (.arr (item :: items)) => (item :: items).mapM parseRootId
  | _ => .error (js "trust root manifest rootIds must be a non-empty array")

/-- `Number.isInteger(value.version) && Number(value.version) > 0`. -/
def validVersion (value : Plain) : Bool :=
  match property value "version" with
  | some (.num n) => n.isInteger && (JsNumber.ofNat 0).lt n
  | _ => false

/-- `parseTrustRootManifest(raw)` of the verifier: the root ids. -/
def parseTrustRootManifest (manifest : Plain) : Except JsString (List JsString) := do
  let value ← requireObject (some manifest) "trust root manifest must be a JSON object"
  check (validVersion value) "trust root manifest version must be a positive integer"
  parseRootIds value

/-- `parseTrustRootManifest(raw)` of the rotation. -/
def parseUniqueTrustRootManifest (manifest : Plain) : Except JsString (List JsString) := do
  let rootIds ← parseTrustRootManifest manifest
  check (hasDistinctEntries rootIds) "trust root manifest rootIds must be unique"
  .ok rootIds

/-- The text of a key list, which is signed. -/
def unsignedPayload (keys : List PublicKeyBundleEntry) : Text :=
  jsonText [] (.obj [(js "schemaVersion", .num (.ofNat 1)),
    (js "keys", .arr (keys.map fun key =>
      .obj [(js "keyId", .str key.keyId), (js "publicKeyPem", .str key.publicKeyPem)]))])

namespace Process

variable (p : Process)

/-- `resolveTrustRootPath()`. -/
def resolveTrustRootPath : JsString :=
  p.paths.resolve (((p.parseArg "--trust-root-path").or (p.env "MEMPHIS_TRUST_ROOT_PATH")).getD
    (js "./config/trust_root.json"))

def trustRootExists : Bool := (p.trustRootFile p.resolveTrustRootPath).isSome

/-- `JSON.parse(readFileSync(trustRootPath, 'utf8'))`, for a file that exists. -/
def trustRootJson : Except JsString Plain := do
  let bytes ← (p.trustRootFile p.resolveTrustRootPath).getD (.error [])
  p.parse (decodeUtf8 bytes)

/-- The trust root manifest, as the verifier reads it. -/
def readTrustRoot : Except JsString (List JsString) := do
  parseTrustRootManifest (← p.trustRootJson)

/-- The signature of a provenance over a key list. -/
def verifyProvenance (keys : List PublicKeyBundleEntry) (provenance : PublicKeyBundleProvenance) :
    Except JsString Bool := do
  let signerPublicKey ← p.crypto.createPublicKey provenance.signerPublicKeyPem
  p.crypto.verify signerPublicKey (encodeUtf8 (unsignedPayload keys))
    (fromBase64 provenance.signature)

/-- `verifyKeyBundleProvenance`: the messages of the errors it adds. -/
def verifyKeyBundleProvenance (bundle : PublicKeyBundle) (requireSignedBundle : Bool) :
    List JsString :=
  match bundle.provenance with
  | none =>
    if requireSignedBundle then
      [js "public key bundle signature is required but provenance is missing"]
    else []
  | some provenance =>
    let hashErrors :=
      if p.hashText (unsignedPayload bundle.keys) = provenance.payloadSha256 then []
      else [js "public key bundle payload hash mismatch"]
    match p.verifyProvenance bundle.keys provenance with
    | .error message => hashErrors ++ [message]
    | .ok signatureVerified =>
      let signatureErrors :=
        if signatureVerified then []
        else [js "public key bundle signature verification failed"]
      let signerErrors :=
        if p.sha256Hex (bytesOf provenance.signerPublicKeyPem) = provenance.signerRootId then []
        else [js "public key bundle signerRootId does not match signerPublicKeyPem fingerprint"]
      let rootErrors :=
        if !p.trustRootExists then
          [js "trust root manifest not found: " ++ p.resolveTrustRootPath]
        else
          match p.readTrustRoot with
          | .error message => [message]
          | .ok rootIds =>
            if provenance.signerRootId ∈ rootIds then []
            else [js "public key bundle signerRootId is not trusted by current trust root manifest: "
              ++ provenance.signerRootId]
      hashErrors ++ signatureErrors ++ signerErrors ++ rootErrors

/-- The provenance of a bundle is valid under the trust root: its signature over the keys verifies
under a key whose hash is one of the root ids. -/
def ValidProvenance (bundle : PublicKeyBundle) : Prop :=
  ∃ provenance rootIds, bundle.provenance = some provenance ∧
    p.verifyProvenance bundle.keys provenance = .ok true ∧ p.readTrustRoot = .ok rootIds ∧
    p.sha256Hex (bytesOf provenance.signerPublicKeyPem) = provenance.signerRootId ∧
    provenance.signerRootId ∈ rootIds

variable {p} {bundle : PublicKeyBundle} {value : Plain}

theorem trustRoot_document
    (hfile : p.trustRootFile p.resolveTrustRootPath = some (.ok (encodeUtf8 (jsonText [] value))))
    (hdocument : IsDocument value) : p.trustRootExists = true ∧ p.trustRootJson = .ok value := by
  constructor
  · rw [trustRootExists, hfile]
    rfl
  · rw [trustRootJson, hfile, Option.getD_some, ok_bind, decodeUtf8_encodeUtf8]
    simp [parse, hdocument.parseJson (fun _ h => absurd h List.not_mem_nil)]

/-- **A key bundle that is accepted as a signed one has a valid provenance.** -/
theorem validProvenance_of_verify (h : p.verifyKeyBundleProvenance bundle true = []) :
    p.ValidProvenance bundle := by
  unfold verifyKeyBundleProvenance at h
  split at h
  · cases h
  · next provenance hprovenance =>
    dsimp only at h
    split at h
    · exact absurd h (List.append_ne_nil_of_right_ne_nil _ (List.cons_ne_nil _ _))
    · next verified hverified =>
      simp only [List.append_eq_nil_iff] at h
      obtain ⟨⟨⟨-, hsignature⟩, hsigner⟩, hroot⟩ := h
      have hverified' : verified = true := by
        by_contra hnot
        rw [if_neg hnot] at hsignature
        cases hsignature
      have hsigner' : p.sha256Hex (bytesOf provenance.signerPublicKeyPem) =
          provenance.signerRootId := by
        by_contra hnot
        rw [if_neg hnot] at hsigner
        cases hsigner
      split at hroot
      · cases hroot
      · split at hroot
        · cases hroot
        · next rootIds hrootIds =>
          split at hroot
          · next hmem =>
            exact ⟨provenance, rootIds, hprovenance, hverified' ▸ hverified, hrootIds, hsigner',
              hmem⟩
          · cases hroot

end Process

end MemphisOS.Incident
