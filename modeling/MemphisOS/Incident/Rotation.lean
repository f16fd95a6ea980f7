import MemphisOS.Incident.KeyBundle

/-!
# Key rotation

A rotation reads a base bundle, adds a generated key and signs the list with the key of a
trusted root. Between rotations anyone may edit the files.
-/

namespace MemphisOS.Incident

open Ecma Bridge TrustRoot

/-- A generated key pair in PEM. -/
structure KeyPair where
  privateKeyPem : JsString
  publicKeyPem : JsString

/-- A bundle a rotation has signed, with the key it added. -/
structure RotatedBundle where
  existingKeys : List PublicKeyBundleEntry
  newKey : PublicKeyBundleEntry
  provenance : PublicKeyBundleProvenance

def RotatedBundle.keys (rotated : RotatedBundle) : List PublicKeyBundleEntry :=
  rotated.existingKeys ++ [rotated.newKey]

namespace Process

variable (p : Process)

/-! ## Options -/

def resolveBundleOutPath : JsString :=
  p.paths.resolve ((((p.parseArg "--bundle-out").or (p.parseArg "--public-key-bundle-out")).or
    (p.env "MEMPHIS_INCIDENT_PUBLIC_KEY_BUNDLE_OUT")).getD (js "data/public-key-bundle.json"))

def resolveBaseBundlePath : Option JsString :=
  let provided := ((p.parseArg "--base-bundle-path").or
    (p.parseArg "--public-key-bundle-path")).or (p.env "MEMPHIS_INCIDENT_PUBLIC_KEY_BUNDLE_PATH")
  if present provided then provided.map p.paths.resolve
  else if p.existsSync p.resolveBundleOutPath then some p.resolveBundleOutPath
  else none

/-- `resolveTrustRootSigningKeySpec()`: the private key. -/
def resolveTrustRootSigningKey : Except JsString JsString :=
  let pathRaw := (p.parseArg "--trust-root-signing-key-path").or
    (p.env "MEMPHIS_TRUST_ROOT_SIGNING_KEY_PATH")
  let pemRaw := (p.parseArg "--trust-root-signing-key-pem").or
    (p.env "MEMPHIS_TRUST_ROOT_SIGNING_KEY_PEM")
  let pemBase64Raw := (p.parseArg "--trust-root-signing-key-pem-base64").or
    (p.env "MEMPHIS_TRUST_ROOT_SIGNING_KEY_PEM_BASE64")
  match [pathRaw, pemRaw, pemBase64Raw].countP present with
  | 0 => .error (js <| "missing trust root signing key source; use " ++
      "--trust-root-signing-key-path, --trust-root-signing-key-pem, or " ++
      "--trust-root-signing-key-pem-base64")
  | 1 =>
    if present pathRaw then (p.readText (p.paths.resolve (pathRaw.getD []))).map ofText
    else if present pemRaw then .ok (pemRaw.getD [])
    else .ok (ofText (decodeUtf8 (fromBase64 (pemBase64Raw.getD []))))
  | _ => .error (js <| "multiple trust root signing key sources provided; use exactly one of " ++
      "--trust-root-signing-key-path, --trust-root-signing-key-pem, " ++
      "--trust-root-signing-key-pem-base64")

/-- `resolveNewKeyId(existingKeys)`, with the default key id of the moment. -/
def resolveNewKeyId (defaultKeyId : JsString) (existingKeys : List PublicKeyBundleEntry) :
    Except JsString JsString :=
  let provided := (((p.parseArg "--new-key-id").or (p.parseArg "--key-id")).or
    (p.env "MEMPHIS_INCIDENT_ROTATE_NEW_KEY_ID")).getD defaultKeyId
  let normalized := provided.trim
  if normalized = [] then .error (js "new key id must be a non-empty string")
  else if normalized ∈ existingKeys.map (·.keyId) then
    .error (js "new key id already exists in bundle: " ++ normalized)
  else .ok normalized

/-- A unit that `sanitizeKeyId` keeps. -/
def isSafeUnit (u : UInt16) : Bool :=
  let c := charOfUnit u
  c.isAlphanum || c = '.' || c = '_' || c = '-'

/-- `sanitizeKeyId(input)`. -/
def sanitizeKeyId (input : JsString) : JsString :=
  input.map fun u => if isSafeUnit u then u else 45

/-- The path of a new key file. -/
def resolveNewKeyPath (flag name suffix : String) (keyId : JsString) : JsString :=
  let provided := (p.parseArg flag).or (p.env name)
  if present provided then p.paths.resolve (provided.getD [])
  else p.paths.resolveFrom (p.paths.dirname p.resolveBundleOutPath)
    (js "incident-signing-" ++ sanitizeKeyId keyId ++ js suffix)

def resolveNewPrivateKeyOutPath (keyId : JsString) : JsString :=
  p.resolveNewKeyPath "--new-private-key-out" "MEMPHIS_INCIDENT_ROTATE_PRIVATE_KEY_OUT" ".pem"
    keyId

def resolveNewPublicKeyOutPath (keyId : JsString) : JsString :=
  p.resolveNewKeyPath "--new-public-key-out" "MEMPHIS_INCIDENT_ROTATE_PUBLIC_KEY_OUT" ".pub.pem"
    keyId

/-! ## Rotating -/

/-- `loadExistingKeys(baseBundlePath)`. -/
def loadExistingKeys : Except JsString (List PublicKeyBundleEntry) :=
  match p.resolveBaseBundlePath with
  | none => .ok []
  | some path =>
    if !p.existsSync path then .error (js "base bundle not found: " ++ path)
    else do
      let text ← p.readText path
      parseBaseBundle (← p.parse text)

/-- The signing key of a root in the trust root, and its root id. -/
def trustedSigner : Except JsString (p.crypto.PrivateKey × JsString) :=
  if !p.trustRootExists then
    .error (js "trust root manifest not found: " ++ p.resolveTrustRootPath)
  else do
    let rootIds ← parseUniqueTrustRootManifest (← p.trustRootJson)
    let privateKeyPem ← p.resolveTrustRootSigningKey
    let signerPrivateKey ← p.crypto.createPrivateKey privateKeyPem
    let signerRootId := p.sha256Hex (bytesOf (p.crypto.exportPublicKey signerPrivateKey))
    if signerRootId ∈ rootIds then .ok (signerPrivateKey, signerRootId)
    else .error (js "trust root signer is not in active trust root set: " ++ signerRootId)

/-- The signed bundle of `run()`. -/
def rotate (keyPair : KeyPair) (defaultKeyId signedAt : JsString) :
    Except JsString RotatedBundle := do
  let (signerPrivateKey, signerRootId) ← p.trustedSigner
  let existingKeys ← p.loadExistingKeys
  let keyId ← p.resolveNewKeyId defaultKeyId existingKeys
  let newKey : PublicKeyBundleEntry := { keyId, publicKeyPem := keyPair.publicKeyPem }
  let payload := unsignedPayload (existingKeys ++ [newKey])
  .ok
    { existingKeys
      newKey
      provenance :=
        { signerRootId
          signerPublicKeyPem := p.crypto.exportPublicKey signerPrivateKey
          payloadSha256 := p.hashText payload
          signature := ofText (toBase64 (p.crypto.sign signerPrivateKey (encodeUtf8 payload)))
          signedAt := some signedAt } }

end Process

/-- The JSON document of a signed bundle. -/
def bundleJson (keys : List PublicKeyBundleEntry) (provenance : PublicKeyBundleProvenance) :
    Plain :=
  .obj [(js "schemaVersion", .num (.ofNat 1)),
    (js "keys", .arr (keys.map fun key =>
      .obj [(js "keyId", .str key.keyId), (js "publicKeyPem", .str key.publicKeyPem)])),
    (js "provenance", .obj ([(js "algorithm", .str (js "ed25519")),
      (js "signerRootId", .str provenance.signerRootId),
      (js "signerPublicKeyPem", .str provenance.signerPublicKeyPem),
      (js "payloadSha256", .str provenance.payloadSha256),
      (js "signature", .str provenance.signature)] ++
        optionalMember "signedAt" (provenance.signedAt.map .str)))]

/-! ## Histories -/

/-- What does not change between the rotations. Rotations are counted. -/
structure World where
  crypto : Crypto
  paths : PathFunctions
  parseMessage : Text → JsString
  /-- The message of an error of the file system. -/
  fileMessage : JsString
  generateKeyPair : ℕ → KeyPair
  defaultKeyId : ℕ → JsString
  signedAt : ℕ → JsString

inductive Event where
  /-- Someone writes or deletes a file. -/
  | edit (path : JsString) (content : Option (List UInt8))
  /-- The rotation script is run. -/
  | rotate (argv : List JsString) (env : String → Option JsString)

/-- A rotation that has succeeded: the process it ran in, and the bundle it signed. -/
structure Rotation where
  process : Process
  rotated : RotatedBundle

structure History where
  files : JsString → Option (List UInt8)
  started : ℕ
  rotations : List Rotation

namespace World

variable (world : World)

/-- The process of a run of the script. -/
def process (history : History) (argv : List JsString) (env : String → Option JsString) :
    Process where
  crypto := world.crypto
  paths := world.paths
  argv
  env
  existsSync path := (history.files path).isSome
  readFile path :=
    match history.files path with
    | some bytes => .ok bytes
    | none => .error world.fileMessage
  trustRootFile path := (history.files path).map .ok
  parseMessage := world.parseMessage

def writeFile (path : JsString) (bytes : List UInt8) (files : JsString → Option (List UInt8)) :
    JsString → Option (List UInt8) :=
  Function.update files path (some bytes)

/-- The files of a rotation, written one after the other. -/
def writeRotation (rotation : Rotation) (keyPair : KeyPair)
    (files : JsString → Option (List UInt8)) : JsString → Option (List UInt8) :=
  let rotated := rotation.rotated
  let bundleText :=
    jsonText [' ', ' '] (bundleJson rotated.keys rotated.provenance) ++ ['\n']
  writeFile (rotation.process.resolveNewPublicKeyOutPath rotated.newKey.keyId)
      (bytesOf keyPair.publicKeyPem) <|
    writeFile (rotation.process.resolveNewPrivateKeyOutPath rotated.newKey.keyId)
      (bytesOf keyPair.privateKeyPem) <|
    writeFile rotation.process.resolveBundleOutPath (encodeUtf8 bundleText) files

def step (history : History) : Event → History
  | .edit path content => { history with files := Function.update history.files path content }
  | .rotate argv env =>
    let n := history.started
    let p := world.process history argv env
    match p.rotate (world.generateKeyPair n) (world.defaultKeyId n) (world.signedAt n) with
    | .error _ => { history with started := n + 1 }
    | .ok rotated =>
      { files := writeRotation { process := p, rotated } (world.generateKeyPair n) history.files
        started := n + 1
        rotations := history.rotations ++ [{ process := p, rotated }] }

/-- The history after some events, from any files. -/
def run (files : JsString → Option (List UInt8)) (events : List Event) : History :=
  events.foldl world.step { files, started := 0, rotations := [] }

end World

/-! ## Laundering -/

end MemphisOS.Incident
