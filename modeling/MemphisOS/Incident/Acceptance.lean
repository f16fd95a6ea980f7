import MemphisOS.Incident.Verifier

/-!
# Accepted evidence

What the parts of the verifier need to add no error.
-/

namespace MemphisOS.Incident.Process

open Ecma Bridge

variable {p : Process} {loaded : LoadedManifest} {manifestPath candidate bundlePath keyId pem :
    JsString} {passphrase : Option JsString} {file bytes : List UInt8} {blob : Plain}

/-! ## The bundle -/

theorem openBundle_of_plain
    (h : ∀ blob, p.parse (decodeUtf8 file) = .ok blob → isEncryptedBlobJson blob = false) :
    p.openBundle candidate file passphrase =
      { bundlePath := candidate, bytes := some file, errors := [] } := by
  unfold openBundle
  cases hparse : p.parse (decodeUtf8 file) with
  | error message => rfl
  | ok blob =>
    simp only [h blob hparse]
    rfl

theorem openBundle_of_blob {passphrase : JsString} (hparse : p.parse (decodeUtf8 file) = .ok blob)
    (hblob : isEncryptedBlobJson blob = true) (hne : passphrase ≠ []) :
    p.openBundle candidate file (some passphrase) =
      { bundlePath := candidate
        bytes := some ((p.openBlob blob passphrase).toOption.getD file)
        errors := [] } := by
  obtain ⟨u, rest, rfl⟩ := List.exists_cons_of_ne_nil hne
  unfold openBundle
  simp only [hparse, hblob, if_true]
  cases p.openBlob blob (u :: rest) <;> rfl

theorem resolveBundleBytes_of
    (hfind : (p.bundleCandidates loaded.manifest manifestPath loaded.manifestEncrypted).find?
      p.existsSync = some candidate)
    (hread : p.readFile candidate = .ok file)
    (hopen : p.openBundle candidate file passphrase =
      { bundlePath := candidate, bytes := some bytes, errors := [] }) :
    p.resolveBundleBytes loaded manifestPath passphrase =
      .ok { bundlePath := candidate, bytes := some bytes, errors := [] } := by
  unfold resolveBundleBytes
  rw [hfind]
  simp only [hread, ok_bind, hopen]

/-! ## The key -/

theorem verifyKeyBundleProvenance_of {bundle : PublicKeyBundle}
    {provenance : PublicKeyBundleProvenance} {rootIds : List JsString} {required : Bool}
    (hprovenance : bundle.provenance = some provenance)
    (hpayload : p.hashText (unsignedPayload bundle.keys) = provenance.payloadSha256)
    (hverify : p.verifyProvenance bundle.keys provenance = .ok true)
    (hsigner : p.sha256Hex (bytesOf provenance.signerPublicKeyPem) = provenance.signerRootId)
    (hexists : p.trustRootExists = true)
    (hroots : p.readTrustRoot = .ok rootIds) (hmem : provenance.signerRootId ∈ rootIds) :
    p.verifyKeyBundleProvenance bundle required = [] := by
  unfold verifyKeyBundleProvenance
  rw [hprovenance]
  simp [hpayload, hverify, hsigner, hexists, hroots, hmem]

theorem lookupKey_of {bundle : PublicKeyBundle} {entry : PublicKeyBundleEntry} {required : Bool}
    (hread : p.readKeyBundle bundlePath = .ok bundle)
    (hprovenance : p.verifyKeyBundleProvenance bundle required = [])
    (hfind : bundle.keys.find? (·.keyId = keyId) = some entry) :
    p.lookupKey bundlePath keyId required =
      { publicKeyPem := some entry.publicKeyPem, errors := [] } := by
  unfold lookupKey
  rw [hread]
  simp only [hprovenance, hfind]

theorem resolvePublicKeyPem_of {manifest : IncidentBundleManifest} {path : JsString}
    {required : Bool} (hdirect : p.directPathRaw = none) (hpath : p.bundlePathRaw = some path)
    (hne : path ≠ [])
    (hkeyId : (manifest.signature.bind (·.keyId)).or p.expectedKeyId = some keyId)
    (hkeyIdNe : keyId ≠ []) (hexists : p.existsSync (p.paths.resolve path) = true) :
    p.resolvePublicKeyPem manifest required =
      .ok (p.lookupKey (p.paths.resolve path) keyId required) := by
  obtain ⟨u, rest, rfl⟩ := List.exists_cons_of_ne_nil hkeyIdNe
  unfold resolvePublicKeyPem
  rw [hdirect, hpath, hkeyId]
  simp [present, hne, hexists]

/-! ## The signature -/

theorem verifyUnderKey_of {signature : SignatureDescriptor} {payload : Text}
    {publicKey : p.crypto.PublicKey} (hkey : p.crypto.createPublicKey pem = .ok publicKey)
    (hfingerprint : p.sha256Hex (bytesOf pem) = signature.keyFingerprint)
    (hverify : p.crypto.verify publicKey (encodeUtf8 payload) (fromBase64 signature.value) =
      .ok true) :
    p.verifyUnderKey signature payload pem = [] := by
  unfold verifyUnderKey
  rw [hkey]
  simp [hfingerprint, hverify]

theorem verifySignature_of {signature : SignatureDescriptor} {required : Bool}
    (hsignature : loaded.manifest.signature = some signature)
    (hkeyId : present p.expectedKeyId = true → signature.keyId = p.expectedKeyId)
    (hpayload : p.hashText (jsonText [] (unsignedManifest loaded.manifestObject)) =
      signature.payloadSha256)
    (hpem : pem ≠ [])
    (hverify : p.verifyUnderKey signature (jsonText [] (unsignedManifest loaded.manifestObject))
      pem = []) :
    p.verifySignature loaded (some pem) required = [] := by
  obtain ⟨u, rest, rfl⟩ := List.exists_cons_of_ne_nil hpem
  have hkeyIdErrors : (present p.expectedKeyId && decide (signature.keyId ≠ p.expectedKeyId)) =
      false := by
    simpa using hkeyId
  unfold verifySignature
  rw [hsignature]
  simp only [hkeyIdErrors, hpayload, hverify, Bool.false_eq_true, if_false, if_true,
    List.append_nil]

/-! ## The verdict -/

theorem verifyLoaded_of {requireSignature requireSignedKeyBundle requireCognitiveSummaries : Bool}
    {publicKeyPem : Option JsString}
    (hbundle : p.resolveBundleBytes loaded manifestPath passphrase =
      .ok { bundlePath, bytes := some bytes, errors := [] })
    (hbytes : p.verifyBundle loaded.manifest bytes requireCognitiveSummaries = [])
    (hkey : p.resolvePublicKeyPem loaded.manifest requireSignedKeyBundle =
      .ok { publicKeyPem, errors := [] })
    (hsignature : p.verifySignature loaded publicKeyPem requireSignature = []) :
    p.verifyLoaded loaded manifestPath passphrase requireSignature requireSignedKeyBundle
      requireCognitiveSummaries = .ok (bundlePath, []) := by
  unfold verifyLoaded
  rw [hbundle, ok_bind, hkey, ok_bind]
  simp [hbytes, hsignature]

/-- The verdict without errors of a verifier whose chain event is written. -/
theorem verify_of {profile : Option VerifyProfileName}
    (hhelp : (p.hasFlag "--help" || p.hasFlag "-h") = false)
    (hhints : p.hasFlag "--completion-hints" = false)
    (hmanifestPath : p.resolveManifestPath = .ok manifestPath)
    (hprofile : p.resolveVerifyProfileName = .ok profile)
    (hpassphrase : p.resolveDecryptionPassphrase = .ok passphrase)
    (hverify : p.verifyManifest manifestPath passphrase
      (p.hasFlag "--require-signature" || (resolveVerifyProfileDefaults profile).requireSignature)
      (p.hasFlag "--require-key-bundle-signature" ||
        (resolveVerifyProfileDefaults profile).requireSignedKeyBundle)
      (p.requireCognitiveSummaries (resolveVerifyProfileDefaults profile)) =
        .ok (bundlePath, [])) :
    ∃ output, p.verify (.ok ()) = .ok (.output output) ∧ output.errors = [] ∧
      output.requireSignature = (p.hasFlag "--require-signature" ||
        (resolveVerifyProfileDefaults profile).requireSignature) ∧
      output.requireSignedKeyBundle = (p.hasFlag "--require-key-bundle-signature" ||
        (resolveVerifyProfileDefaults profile).requireSignedKeyBundle) := by
  unfold verify
  rw [hhelp, hhints, hmanifestPath, hprofile, hpassphrase]
  simp only [ok_bind, hverify, Bool.false_eq_true, if_false]
  exact ⟨_, rfl, rfl, rfl, rfl⟩

end MemphisOS.Incident.Process
