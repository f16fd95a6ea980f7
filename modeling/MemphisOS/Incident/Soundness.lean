import MemphisOS.Incident.Acceptance
import MemphisOS.Incident.Laundering

/-!
# Soundness of the verifier

What a verdict without errors says of the files. All of it is so but one thing: an encrypted
bundle that cannot be decrypted is taken as it is.
-/

namespace MemphisOS.Incident

open Ecma Bridge

variable {p : Process} {loaded : LoadedManifest} {resolution : BundleResolution}
  {keyResolution : KeyResolution} {manifestPath candidate bundlePath keyId pem : JsString}
  {passphrase : Option JsString} {file : List UInt8} {errors : List JsString}
  {requireSignedBundle : Bool} {chainEvent : Except JsString Unit} {output : VerifyOutput}

/-! ## The bundle -/

/-- The bytes of a file, decrypted when it is an encrypted blob. -/
def Process.decrypted (p : Process) (passphrase : Option JsString) (file : List UInt8) :
    Option (List UInt8) :=
  match p.parse (decodeUtf8 file) with
  | .error _ => some file
  | .ok blob =>
    if isEncryptedBlobJson blob then
      passphrase.bind fun passphrase => (p.openBlob blob passphrase).toOption
    else some file

/-- A bundle that is opened without errors is decrypted, or else taken as it is. -/
theorem openBundle_eq (h : (p.openBundle candidate file passphrase).errors = []) :
    p.openBundle candidate file passphrase =
      { bundlePath := candidate
        bytes := some ((p.decrypted passphrase file).getD file)
        errors := [] } := by
  unfold Process.openBundle at h ⊢
  unfold Process.decrypted
  cases hparse : p.parse (decodeUtf8 file) with
  | error message => rfl
  | ok blob =>
    simp only [hparse] at h ⊢
    by_cases hblob : isEncryptedBlobJson blob = true
    · simp only [if_pos hblob] at h ⊢
      split at h
      · cases h
      · cases h
      · next passphrase hne =>
        rw [Option.bind_some]
        cases p.openBlob blob passphrase <;> rfl
    · rw [if_neg hblob, if_neg hblob]
      rfl

/-- The file that is read for the bundle. -/
def Process.ReadsBundle (p : Process) (loaded : LoadedManifest) (manifestPath candidate : JsString)
    (file : List UInt8) : Prop :=
  (p.bundleCandidates loaded.manifest manifestPath loaded.manifestEncrypted).find? p.existsSync =
      some candidate ∧
    p.readFile candidate = .ok file

theorem resolveBundleBytes_eq_ok
    (h : p.resolveBundleBytes loaded manifestPath passphrase = .ok resolution)
    (herrors : resolution.errors = []) :
    ∃ file, p.ReadsBundle loaded manifestPath resolution.bundlePath file ∧
      resolution.bytes = some ((p.decrypted passphrase file).getD file) := by
  unfold Process.resolveBundleBytes at h
  split at h
  · next candidate hfind =>
    obtain ⟨file, hread, h⟩ := bind_eq_ok.mp h
    cases h
    rw [openBundle_eq herrors]
    exact ⟨file, ⟨hfind, hread⟩, rfl⟩
  · cases h
    cases herrors

theorem verifyBundle_eq_nil {manifest : IncidentBundleManifest} {bytes : List UInt8}
    {requireCognitiveSummaries : Bool}
    (h : p.verifyBundle manifest bytes requireCognitiveSummaries = []) :
    p.sha256Hex bytes = manifest.bundle.sha256 ∧
      (JsNumber.ofNat bytes.length).strictEq manifest.bundle.bytes = true := by
  unfold Process.verifyBundle at h
  simp only [List.append_eq_nil_iff] at h
  obtain ⟨⟨hhash, hsize⟩, -⟩ := h
  exact ⟨by_contra fun hnot => by simp [hnot] at hhash, by_contra fun hnot => by simp [hnot] at hsize⟩

/-! ## The key -/

/-- The key bundle that is supplied lists a key, and has a valid provenance. -/
def Process.ListsKey (p : Process) (keyId pem : JsString) : Prop :=
  ∃ path bundle, p.bundlePathRaw = some path ∧
    p.readKeyBundle (p.paths.resolve path) = .ok bundle ∧
    { keyId, publicKeyPem := pem } ∈ bundle.keys ∧ p.ValidProvenance bundle

theorem lookupKey_eq (h : (p.lookupKey bundlePath keyId true).errors = []) :
    ∃ bundle pem, p.readKeyBundle bundlePath = .ok bundle ∧
      (p.lookupKey bundlePath keyId true).publicKeyPem = some pem ∧
      { keyId, publicKeyPem := pem } ∈ bundle.keys ∧ p.ValidProvenance bundle := by
  unfold Process.lookupKey at h ⊢
  cases hread : p.readKeyBundle bundlePath with
  | error message => simp [hread] at h
  | ok bundle =>
    simp only [hread] at h ⊢
    cases hfind : bundle.keys.find? (fun entry => decide (entry.keyId = keyId)) with
    | none => simp [hfind] at h
    | some entry =>
      simp only [hfind] at h ⊢
      have hkeyId : entry.keyId = keyId := by simpa using List.find?_some hfind
      refine ⟨bundle, entry.publicKeyPem, rfl, rfl, ?_, Process.validProvenance_of_verify h⟩
      exact hkeyId ▸ List.mem_of_find?_eq_some hfind

/-- When a signed key bundle is required, the key comes from one. -/
theorem resolvePublicKeyPem_eq_ok
    (h : p.resolvePublicKeyPem loaded.manifest true = .ok keyResolution)
    (herrors : keyResolution.errors = []) :
    ∃ keyId pem, (loaded.manifest.signature.bind (·.keyId)).or p.expectedKeyId = some keyId ∧
      keyId ≠ [] ∧ keyResolution.publicKeyPem = some pem ∧ p.ListsKey keyId pem := by
  unfold Process.resolvePublicKeyPem at h
  dsimp only at h
  split at h
  · cases h
    cases herrors
  · split at h
    · cases h
      cases herrors
    · next hpresent =>
      split at h
      · cases h
        cases herrors
      · cases h
        cases herrors
      · next keyId hne hkeyId =>
        split at h
        · cases h
          cases herrors
        · cases h
          obtain ⟨bundle, pem, hread, hpem, hmem, hvalid⟩ := lookupKey_eq herrors
          obtain ⟨path, hpath⟩ : ∃ path, p.bundlePathRaw = some path := by
            cases hraw : p.bundlePathRaw with
            | none => simp [hraw, present] at hpresent
            | some path => exact ⟨path, rfl⟩
          rw [hpath, Option.getD_some] at hread
          exact ⟨keyId, pem, hkeyId, fun hnil => hne hnil, hpem, path, bundle, hpath, hread, hmem,
            hvalid⟩

/-! ## The signature -/

/-- The signature of a manifest verifies over the rest of it under a key in PEM. -/
def Process.SignedUnder (p : Process) (loaded : LoadedManifest) (signature : SignatureDescriptor)
    (pem : JsString) : Prop :=
  ∃ publicKey, p.crypto.createPublicKey pem = .ok publicKey ∧
    p.crypto.verify publicKey (encodeUtf8 (jsonText [] (unsignedManifest loaded.manifestObject)))
      (fromBase64 signature.value) = .ok true

theorem verifyUnderKey_eq_nil {signature : SignatureDescriptor}
    (h : p.verifyUnderKey signature
      (jsonText [] (unsignedManifest loaded.manifestObject)) pem = []) :
    p.SignedUnder loaded signature pem := by
  unfold Process.verifyUnderKey at h
  split at h
  · cases h
  · next publicKey hkey =>
    obtain ⟨-, h⟩ := List.append_eq_nil_iff.mp h
    split at h
    · cases h
    · next verified hverified =>
      split at h
      · next htrue => exact ⟨publicKey, hkey, htrue ▸ hverified⟩
      · cases h

/-- A signature that is required and accepted names the expected key, when one is expected. -/
theorem verifySignature_eq_nil {publicKeyPem : Option JsString}
    (h : p.verifySignature loaded publicKeyPem true = []) :
    ∃ signature pem, loaded.manifest.signature = some signature ∧ publicKeyPem = some pem ∧
      (present p.expectedKeyId = true → signature.keyId = p.expectedKeyId) ∧
      p.SignedUnder loaded signature pem := by
  unfold Process.verifySignature at h
  split at h
  · simp at h
  · next signature hsignature =>
    dsimp only at h
    simp only [List.append_eq_nil_iff] at h
    obtain ⟨⟨hkeyId, -⟩, hkey⟩ := h
    split at hkey
    · cases hkey
    · cases hkey
    · next pem hne =>
      refine ⟨signature, pem, hsignature, rfl, fun hpresent => ?_, verifyUnderKey_eq_nil hkey⟩
      by_contra hnot
      simp [hpresent, hnot] at hkeyId

/-! ## The verdict -/

/-- A verdict without errors comes from a manifest that was loaded and checked. -/
theorem verify_eq_ok (h : p.verify chainEvent = .ok (.output output)) (herrors : output.errors = []) :
    ∃ passphrase loaded, p.resolveManifestPath = .ok output.manifestPath ∧
      p.resolveDecryptionPassphrase = .ok passphrase ∧
      p.loadManifest output.manifestPath passphrase = .ok loaded ∧
      p.verifyLoaded loaded output.manifestPath passphrase output.requireSignature
        output.requireSignedKeyBundle output.requireCognitiveSummaries =
          .ok (output.bundlePath, []) := by
  unfold Process.verify at h
  split at h
  · cases h
  split at h
  · cases h
  obtain ⟨manifestPath, hmanifestPath, h⟩ := bind_eq_ok.mp h
  obtain ⟨profile, -, h⟩ := bind_eq_ok.mp h
  dsimp only at h
  obtain ⟨passphrase, hpassphrase, h⟩ := bind_eq_ok.mp h
  obtain ⟨⟨bundlePath, errors⟩, hloaded, h⟩ := bind_eq_ok.mp h
  cases h
  obtain ⟨rfl, -⟩ := List.append_eq_nil_iff.mp herrors
  unfold Process.verifyManifest at hloaded
  split at hloaded
  · cases hloaded
  · next loaded hload =>
    exact ⟨passphrase, loaded, hmanifestPath, hpassphrase, hload, hloaded⟩

/-- A manifest vouches for bytes: it records their hash and their size, and its signature verifies
under the key that a signed key bundle lists for its key id. -/
structure Process.Vouches (p : Process) (loaded : LoadedManifest) (bytes : List UInt8) : Prop where
  hash : p.sha256Hex bytes = loaded.manifest.bundle.sha256
  size : (JsNumber.ofNat bytes.length).strictEq loaded.manifest.bundle.bytes = true
  signed : ∃ signature keyId pem, loaded.manifest.signature = some signature ∧
    signature.keyId = some keyId ∧ p.SignedUnder loaded signature pem ∧ p.ListsKey keyId pem

theorem verifyLoaded_eq_ok {requireCognitiveSummaries : Bool}
    (h : p.verifyLoaded loaded manifestPath passphrase true true requireCognitiveSummaries =
      .ok (bundlePath, [])) :
    ∃ file, p.ReadsBundle loaded manifestPath bundlePath file ∧
      p.Vouches loaded ((p.decrypted passphrase file).getD file) := by
  unfold Process.verifyLoaded at h
  obtain ⟨resolution, hresolution, h⟩ := bind_eq_ok.mp h
  obtain ⟨keyResolution, hkeyResolution, h⟩ := bind_eq_ok.mp h
  obtain ⟨rfl, herrors⟩ := Prod.mk.inj (Except.ok.inj h)
  simp only [List.append_eq_nil_iff] at herrors
  obtain ⟨⟨⟨hopened, hbundle⟩, hkey⟩, hsignature⟩ := herrors
  obtain ⟨file, hreads, hbytes⟩ := resolveBundleBytes_eq_ok hresolution hopened
  rw [hbytes] at hbundle
  obtain ⟨hhash, hsize⟩ := verifyBundle_eq_nil hbundle
  obtain ⟨keyId, pem, hkeyId, hne, hpem, hlists⟩ := resolvePublicKeyPem_eq_ok hkeyResolution hkey
  obtain ⟨signature, pem', hsome, hpem', hexpected, hsigned⟩ := verifySignature_eq_nil hsignature
  obtain rfl : pem' = pem := Option.some.inj (hpem'.symm.trans hpem)
  rw [hsome, Option.bind_some] at hkeyId
  refine ⟨file, hreads, hhash, hsize, signature, keyId, pem', hsome, ?_, hsigned, hlists⟩
  -- A signature without a key id fails the comparison with the expected one.
  cases hnone : signature.keyId with
  | some actual => rwa [hnone, Option.some_or] at hkeyId
  | none =>
    rw [hnone, Option.none_or] at hkeyId
    have hpresent : present p.expectedKeyId = true := by simpa [present, hkeyId] using hne
    have hkeyId' := hexpected hpresent
    rw [hnone, hkeyId] at hkeyId'
    cases hkeyId'

/-- What a verdict says: the manifest vouches for the bundle, decrypted when it is encrypted. -/
def Process.Sound (p : Process) (output : VerifyOutput) : Prop :=
  ∃ passphrase loaded file bytes, p.resolveDecryptionPassphrase = .ok passphrase ∧
    p.loadManifest output.manifestPath passphrase = .ok loaded ∧
    p.ReadsBundle loaded output.manifestPath output.bundlePath file ∧
    p.decrypted passphrase file = some bytes ∧ p.Vouches loaded bytes

/-- The bundle file can be decrypted when it is encrypted. -/
def Process.BundleOpens (p : Process) : Prop :=
  ∀ manifestPath passphrase loaded candidate file, p.resolveManifestPath = .ok manifestPath →
    p.resolveDecryptionPassphrase = .ok passphrase →
    p.loadManifest manifestPath passphrase = .ok loaded →
    p.ReadsBundle loaded manifestPath candidate file →
    (p.decrypted passphrase file).isSome = true

/-- **A verdict without errors is sound exactly when the bundle can be decrypted**, when signature
and signed key bundle are required. -/
theorem sound_iff (h : p.verify chainEvent = .ok (.output output)) (herrors : output.errors = [])
    (hsignature : output.requireSignature = true)
    (hbundle : output.requireSignedKeyBundle = true) :
    p.Sound output ↔ p.BundleOpens := by
  obtain ⟨passphrase, loaded, hmanifestPath, hpassphrase, hload, hverify⟩ := verify_eq_ok h herrors
  rw [hsignature, hbundle] at hverify
  obtain ⟨file, hreads, hvouches⟩ := verifyLoaded_eq_ok hverify
  constructor
  · rintro ⟨passphrase', loaded', file', bytes, hpassphrase', hload', hreads', hbytes, -⟩
    intro manifestPath₂ passphrase₂ loaded₂ candidate₂ file₂ hmanifestPath₂ hpassphrase₂ hload₂
      hreads₂
    cases hmanifestPath.symm.trans hmanifestPath₂
    cases hpassphrase'.symm.trans hpassphrase₂
    cases hload'.symm.trans hload₂
    cases hreads'.1.symm.trans hreads₂.1
    cases hreads'.2.symm.trans hreads₂.2
    rw [hbytes]
    rfl
  · intro hopens
    obtain ⟨bytes, hbytes⟩ := Option.isSome_iff_exists.mp
      (hopens _ _ _ _ _ hmanifestPath hpassphrase hload hreads)
    rw [hbytes, Option.getD_some] at hvouches
    exact ⟨passphrase, loaded, file, bytes, hpassphrase, hload, hreads, hbytes, hvouches⟩

/-! ## An encrypted bundle that is accepted -/

/-- A blob that its passphrase does not open. -/
def lockedBlob : Plain :=
  .obj [(js "schemaVersion", .num (.ofNat 1)), (js "format", .str (js "memphis.encrypted-blob.v1")),
    (js "purpose", .str (js "incident-bundle")), (js "generatedAt", .str (js "2026-03-08")),
    (js "algorithm", .str (js "aes-256-gcm")),
    (js "kdf", .obj [(js "name", .str (js "scrypt")), (js "salt", .str (js "AQ==")),
      (js "N", .num (.ofNat 16384)), (js "r", .num (.ofNat 8)), (js "p", .num (.ofNat 1)),
      (js "keyLength", .num (.ofNat 32))]),
    (js "iv", .str (js "AQ==")), (js "authTag", .str (js "AQ==")),
    (js "ciphertext", .str (js "AQ==")), (js "plaintextSha256", .str (js "plain")),
    (js "plaintextBytes", .num (.ofNat 2))]

/-- A manifest that records the hash and the size of a file. -/
def sampleManifest (size : ℕ) : Plain :=
  .obj [(js "schemaVersion", .num (.ofNat 1)), (js "generatedAt", .str (js "2026-03-08")),
    (js "bundle", .obj [(js "path", .str (js "bundle.json")), (js "sha256", .str (js "root")),
      (js "bytes", .num (.ofNat size))]),
    (js "signature", .obj [(js "algorithm", .str (js "ed25519")), (js "value", .str (js "AQ==")),
      (js "payloadSha256", .str (js "root")), (js "keyFingerprint", .str (js "root")),
      (js "keyId", .str (js "incident"))])]

/-- A key bundle that the root has signed. -/
def signedBundle : Plain :=
  .obj [(js "schemaVersion", .num (.ofNat 1)), (js "keys", .arr
      [.obj [(js "keyId", .str (js "incident")), (js "publicKeyPem", .str (js "incident.pem"))]]),
    (js "provenance", .obj [(js "algorithm", .str (js "ed25519")),
      (js "signerRootId", .str (js "root")), (js "signerPublicKeyPem", .str (js "root.pem")),
      (js "payloadSha256", .str (js "root")), (js "signature", .str (js "AQ=="))])]

def lockedSize : ℕ := (documentBytes lockedBlob).length

def verifierFiles (path : JsString) : Option (List UInt8) :=
  if path = js "manifest.json" then some (documentBytes (sampleManifest lockedSize))
  else if path = js "bundle.json" then some (documentBytes lockedBlob)
  else if path = js "keys.json" then some (documentBytes signedBundle)
  else none

/-- A verifier with a passphrase that opens nothing. -/
def verifierProcess : Process where
  crypto := { sampleCrypto with
    decrypt := fun _ _ _ _ => .error (js "Unsupported state or unable to authenticate data") }
  paths := sampleWorld.paths
  argv := ["--manifest-path", "manifest.json", "--public-key-bundle-path", "keys.json",
    "--require-signature", "--require-key-bundle-signature", "--decryption-passphrase", "wrong",
    "--skip-chain-event"].map js
  env _ := none
  existsSync path := (verifierFiles path).isSome
  readFile path :=
    match verifierFiles path with
    | some bytes => .ok bytes
    | none => .error (js "ENOENT")
  trustRootFile _ := some (.ok (documentBytes sampleTrustRoot))
  parseMessage _ := js "Unexpected token"

theorem isDocument_lockedBlob : IsDocument lockedBlob := by
  refine @isDocument_of_names ["schemaVersion", "format", "purpose", "generatedAt", "algorithm",
    "kdf", "iv", "authTag", "ciphertext", "plaintextSha256", "plaintextBytes"] _ rfl (by decide)
    (by decide) ?_
  have hkdf := @isDocument_of_names ["name", "salt", "N", "r", "p", "keyLength"]
    [(js "name", .str (js "scrypt")), (js "salt", .str (js "AQ==")), (js "N", .num (.ofNat 16384)),
      (js "r", .num (.ofNat 8)), (js "p", .num (.ofNat 1)), (js "keyLength", .num (.ofNat 32))]
    rfl (by decide) (by decide) (by simp [isDocument_ofNat])
  simp [isDocument_ofNat, hkdf, -isDocument_obj]

theorem isDocument_sampleManifest {size : ℕ} (h : size < 2 ^ 53) :
    IsDocument (sampleManifest size) := by
  refine @isDocument_of_names ["schemaVersion", "generatedAt", "bundle", "signature"] _ rfl
    (by decide) (by decide) ?_
  have hbundle := @isDocument_of_names ["path", "sha256", "bytes"]
    [(js "path", .str (js "bundle.json")), (js "sha256", .str (js "root")),
      (js "bytes", .num (.ofNat size))]
    rfl (by decide) (by decide) (by simp [isDocument_ofNat h])
  have hsignature := @isDocument_of_names
    ["algorithm", "value", "payloadSha256", "keyFingerprint", "keyId"]
    [(js "algorithm", .str (js "ed25519")), (js "value", .str (js "AQ==")),
      (js "payloadSha256", .str (js "root")), (js "keyFingerprint", .str (js "root")),
      (js "keyId", .str (js "incident"))]
    rfl (by decide) (by decide) (by simp)
  simp [isDocument_ofNat, hbundle, hsignature, -isDocument_obj]

theorem isDocument_signedBundle : IsDocument signedBundle := by
  refine @isDocument_of_names ["schemaVersion", "keys", "provenance"] _ rfl (by decide)
    (by decide) ?_
  have hprovenance := @isDocument_of_names
    ["algorithm", "signerRootId", "signerPublicKeyPem", "payloadSha256", "signature"]
    [(js "algorithm", .str (js "ed25519")), (js "signerRootId", .str (js "root")),
      (js "signerPublicKeyPem", .str (js "root.pem")), (js "payloadSha256", .str (js "root")),
      (js "signature", .str (js "AQ=="))]
    rfl (by decide) (by decide) (by simp)
  simp [isDocument_ofNat, isDocument_keyEntry, hprovenance, -isDocument_obj]

theorem lockedSize_lt : lockedSize < 2 ^ 53 := by decide +kernel

theorem read_verifierFiles {path : JsString} {value : Plain}
    (h : verifierFiles path = some (documentBytes value)) (hdocument : IsDocument value) :
    verifierProcess.existsSync path = true ∧
      verifierProcess.readFile path = .ok (documentBytes value) ∧
      verifierProcess.readText path = .ok (jsonText [] value) ∧
      verifierProcess.parse (jsonText [] value) = .ok value := by
  have hread : verifierProcess.readFile path = .ok (documentBytes value) := by
    simp only [verifierProcess, h]
  exact ⟨by simp [verifierProcess, h], hread, Process.read_document hread hdocument⟩

theorem parseManifestObject_sample {size : ℕ} (h : size < 2 ^ 53) :
    parseManifestObject (sampleManifest size) =
      .ok
        { bundle := { path := js "bundle.json", sha256 := js "root", bytes := .ofNat size }
          cognitiveReports := none
          encryptedBundle := none
          signature := some
            { value := js "AQ=="
              payloadSha256 := js "root"
              keyFingerprint := js "root"
              keyId := some (js "incident") } } := by
  have hversion : isNumber (sampleManifest size) "schemaVersion" 1 = true :=
    isNumber_ofNat (by simp [property, sampleManifest]) (by norm_num)
  have hobject : requireObject (some (sampleManifest size)) "manifest must be a JSON object" =
      .ok (sampleManifest size) := rfl
  unfold parseManifestObject
  rw [hobject, ok_bind, hversion]
  simp [sampleManifest, requireObject, requireString, property, List.lookup_cons,
    parseDescriptor, requireSize, JsNumber.isFinite_ofNat h, lt_zero_ofNat h, parseOptional,
    parseSignature, requireLiteral, stringProperty, optionalString, Except.map]

theorem readKeyBundle_sample :
    verifierProcess.readKeyBundle (js "keys.json") =
      .ok
        { keys := [{ keyId := js "incident", publicKeyPem := js "incident.pem" }]
          provenance := some
            { signerRootId := js "root"
              signerPublicKeyPem := js "root.pem"
              payloadSha256 := js "root"
              signature := js "AQ=="
              signedAt := none } } := by
  have hversion : isNumber signedBundle "schemaVersion" 1 = true :=
    isNumber_ofNat (by simp [property, signedBundle]) (by norm_num)
  have hentry : parseKeyEntry
      (.obj [(js "keyId", .str (js "incident")), (js "publicKeyPem", .str (js "incident.pem"))]) =
      .ok { keyId := js "incident", publicKeyPem := js "incident.pem" } :=
    parseKeyEntry_of (by simp) (by simp)
  have hobject : requireObject (some signedBundle) "public key bundle must be a JSON object" =
      .ok signedBundle := rfl
  obtain ⟨-, -, hread, hparse⟩ := @read_verifierFiles (js "keys.json") _
    (by simp [verifierFiles]) isDocument_signedBundle
  unfold Process.readKeyBundle
  rw [hread, ok_bind, hparse, ok_bind, parsePublicKeyBundle, parseKeys, hobject, ok_bind, hversion,
    check_true, ok_bind]
  simp [signedBundle, property, List.lookup_cons, hentry, parseProvenance, requireObject,
    requireLiteral, stringProperty, requireString, optionalString]

theorem readTrustRoot_sample :
    verifierProcess.trustRootExists = true ∧ verifierProcess.readTrustRoot = .ok [js "root"] := by
  obtain ⟨hexists, hjson⟩ := @Process.trustRoot_document verifierProcess _ rfl
    isDocument_sampleTrustRoot
  refine ⟨hexists, ?_⟩
  rw [Process.readTrustRoot, hjson, ok_bind, parseTrustRootManifest_sample]

/-- The sample manifest as it is loaded. -/
def sampleLoaded : LoadedManifest where
  manifest :=
    { bundle := { path := js "bundle.json", sha256 := js "root", bytes := .ofNat lockedSize }
      cognitiveReports := none
      encryptedBundle := none
      signature := some
        { value := js "AQ=="
          payloadSha256 := js "root"
          keyFingerprint := js "root"
          keyId := some (js "incident") } }
  manifestObject := sampleManifest lockedSize
  manifestEncrypted := false

theorem loadManifest_sample (passphrase : Option JsString) :
    verifierProcess.loadManifest (js "manifest.json") passphrase = .ok sampleLoaded := by
  have hplain : isEncryptedBlobJson (sampleManifest lockedSize) = false := by
    simp [isEncryptedBlobJson, stringProperty, property, sampleManifest, List.lookup_cons]
  obtain ⟨-, -, hread, hparse⟩ := @read_verifierFiles (js "manifest.json") _
    (by simp [verifierFiles]) (isDocument_sampleManifest lockedSize_lt)
  unfold Process.loadManifest
  rw [hread, ok_bind, hparse, ok_bind, hplain, parseManifestObject_sample lockedSize_lt]
  rfl

theorem openBlob_sample (blob : Plain) (passphrase : JsString) :
    ∃ message, verifierProcess.openBlob blob passphrase = .error message := by
  have hdecrypt : ∀ (blob : EncryptedBlob), ∃ message,
      verifierProcess.decryptBlob blob passphrase = .error message := by
    intro blob
    unfold Process.decryptBlob
    cases verifierProcess.bufferFrom blob.salt with
    | error message => exact ⟨message, rfl⟩
    | ok salt => exact ⟨_, rfl⟩
  unfold Process.openBlob
  cases parseEncryptedBlob blob with
  | error message => exact ⟨message, rfl⟩
  | ok blob => exact hdecrypt blob

theorem parse_lockedBlob :
    verifierProcess.parse (decodeUtf8 (documentBytes lockedBlob)) = .ok lockedBlob ∧
      isEncryptedBlobJson lockedBlob = true := by
  obtain ⟨-, -, -, hparse⟩ := @read_verifierFiles (js "bundle.json") _
    (by simp [verifierFiles]) isDocument_lockedBlob
  have hversion : isNumber lockedBlob "schemaVersion" 1 = true :=
    isNumber_ofNat (by simp [property, lockedBlob]) (by norm_num)
  constructor
  · rwa [documentBytes, decodeUtf8_encodeUtf8]
  · rw [isEncryptedBlobJson, hversion]
    simp [stringProperty, property, lockedBlob, List.lookup_cons]

theorem decrypted_sample (passphrase : Option JsString) :
    verifierProcess.decrypted passphrase (documentBytes lockedBlob) = none := by
  unfold Process.decrypted
  rw [parse_lockedBlob.1]
  simp only [parse_lockedBlob.2, if_true]
  cases passphrase with
  | none => rfl
  | some passphrase =>
    obtain ⟨message, hmessage⟩ := openBlob_sample lockedBlob passphrase
    rw [Option.bind_some, hmessage]
    rfl

theorem readsBundle_sample :
    verifierProcess.ReadsBundle sampleLoaded (js "manifest.json") (js "bundle.json")
      (documentBytes lockedBlob) := by
  obtain ⟨hexists, hread, -, -⟩ := @read_verifierFiles (js "bundle.json") _
    (by simp [verifierFiles]) isDocument_lockedBlob
  have hcandidates : verifierProcess.bundleCandidates sampleLoaded.manifest (js "manifest.json")
      sampleLoaded.manifestEncrypted = [js "bundle.json", js "bundle.json.enc"] := by
    decide
  exact ⟨by rw [hcandidates, List.find?_cons_of_pos hexists], hread⟩

theorem resolveBundleBytes_sample :
    verifierProcess.resolveBundleBytes sampleLoaded (js "manifest.json") (some (js "wrong")) =
      .ok
        { bundlePath := js "bundle.json"
          bytes := some (documentBytes lockedBlob)
          errors := [] } := by
  obtain ⟨hfind, hread⟩ := readsBundle_sample
  obtain ⟨message, hmessage⟩ := openBlob_sample lockedBlob (js "wrong")
  refine Process.resolveBundleBytes_of hfind hread ?_
  rw [Process.openBundle_of_blob parse_lockedBlob.1 parse_lockedBlob.2 (by simp), hmessage]
  rfl

theorem verifyBundle_sample :
    verifierProcess.verifyBundle sampleLoaded.manifest (documentBytes lockedBlob) false = [] := by
  have hsize : (JsNumber.ofNat (documentBytes lockedBlob).length).strictEq (.ofNat lockedSize) =
      true := strictEq_ofNat_self lockedSize_lt
  simp [Process.verifyBundle, sampleLoaded, hsize, Process.sha256Hex, verifierProcess,
    sampleCrypto, Process.verifyCognitiveSummaryIntegrity]

theorem lookupKey_sample :
    verifierProcess.lookupKey (js "keys.json") (js "incident") true =
      { publicKeyPem := some (js "incident.pem"), errors := [] } := by
  refine @Process.lookupKey_of _ _ _ _
    { keyId := js "incident", publicKeyPem := js "incident.pem" } _ readKeyBundle_sample ?_
    (by simp)
  exact Process.verifyKeyBundleProvenance_of rfl rfl rfl rfl readTrustRoot_sample.1
    readTrustRoot_sample.2 (List.mem_singleton_self _)

theorem resolvePublicKeyPem_sample :
    verifierProcess.resolvePublicKeyPem sampleLoaded.manifest true =
      .ok { publicKeyPem := some (js "incident.pem"), errors := [] } := by
  obtain ⟨hexists, -, -, -⟩ := @read_verifierFiles (js "keys.json") _
    (by simp [verifierFiles]) isDocument_signedBundle
  rw [@Process.resolvePublicKeyPem_of _ (js "incident") _ (js "keys.json") _ (by decide)
    (by decide) (by simp) (by decide) (by simp) hexists]
  exact congrArg _ lookupKey_sample

theorem verify_sample :
    ∃ output, verifierProcess.verify (.ok ()) = .ok (.output output) ∧ output.errors = [] ∧
      output.requireSignature = true ∧ output.requireSignedKeyBundle = true := by
  have hsignature : verifierProcess.verifySignature sampleLoaded (some (js "incident.pem")) true =
      [] := by
    refine Process.verifySignature_of rfl (fun h => ?_) rfl (by simp) ?_
    · have hnone : verifierProcess.expectedKeyId = none := by decide
      rw [hnone] at h
      cases h
    · exact Process.verifyUnderKey_of rfl rfl rfl
  have hmanifest : verifierProcess.verifyManifest (js "manifest.json") (some (js "wrong")) true true
      false = .ok (js "bundle.json", []) := by
    unfold Process.verifyManifest
    rw [loadManifest_sample]
    exact Process.verifyLoaded_of resolveBundleBytes_sample verifyBundle_sample
      resolvePublicKeyPem_sample hsignature
  have hrequired : (verifierProcess.hasFlag "--require-signature" ||
      (resolveVerifyProfileDefaults none).requireSignature) = true := by decide
  have hrequiredBundle : (verifierProcess.hasFlag "--require-key-bundle-signature" ||
      (resolveVerifyProfileDefaults none).requireSignedKeyBundle) = true := by decide
  have hsummaries : verifierProcess.requireCognitiveSummaries (resolveVerifyProfileDefaults none) =
      false := by decide
  obtain ⟨output, houtput, herrors, hrequires, hrequiresBundle⟩ := @Process.verify_of
    verifierProcess (js "manifest.json") (js "bundle.json") (some (js "wrong")) none
    (by decide) (by decide) (by decide) (by decide)
    (by decide) (by rw [hrequired, hrequiredBundle, hsummaries, hmanifest])
  exact ⟨output, houtput, herrors, hrequires.trans hrequired,
    hrequiresBundle.trans hrequiredBundle⟩

/-- A verdict on a bundle that cannot be decrypted, which is accepted. -/
theorem locked_bundle_accepted :
    ∃ output, verifierProcess.verify (.ok ()) = .ok (.output output) ∧ output.errors = [] ∧
      output.requireSignature = true ∧ output.requireSignedKeyBundle = true ∧
      ¬verifierProcess.Sound output := by
  obtain ⟨output, houtput, herrors, hrequires, hrequiresBundle⟩ := verify_sample
  refine ⟨output, houtput, herrors, hrequires, hrequiresBundle, ?_⟩
  obtain ⟨_, _, hmanifestPath, -, -, -⟩ := verify_eq_ok houtput herrors
  have hpath : verifierProcess.resolveManifestPath = .ok (js "manifest.json") := by decide
  rintro ⟨passphrase, loaded, file, bytes, -, hload, hreads, hbytes, -⟩
  rw [← Except.ok.inj (hpath.symm.trans hmanifestPath)] at hload hreads
  obtain rfl := Except.ok.inj ((loadManifest_sample passphrase).symm.trans hload)
  have hcandidate := Option.some.inj (readsBundle_sample.1.symm.trans hreads.1)
  have hfile := readsBundle_sample.2.symm.trans (hcandidate ▸ hreads.2)
  rw [← Except.ok.inj hfile, decrypted_sample] at hbytes
  cases hbytes

theorem sound_iff_sample :
    ∃ output, verifierProcess.verify (.ok ()) = .ok (.output output) ∧
      (verifierProcess.Sound output ↔ verifierProcess.BundleOpens) := by
  obtain ⟨output, houtput, herrors, hrequires, hrequiresBundle⟩ := verify_sample
  exact ⟨output, houtput, sound_iff houtput herrors hrequires hrequiresBundle⟩

end MemphisOS.Incident
