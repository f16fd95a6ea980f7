import MemphisOS.Ecma.Documents
import MemphisOS.Incident.Rotation

/-!
# Laundering keys

A rotation copies the keys of its base bundle without looking at its provenance. No key is
laundered exactly when every base bundle in the history has a valid one, or no keys.
-/

namespace MemphisOS.Incident

open Ecma Bridge TrustRoot

variable {world : World} {history : History} {event : Event} {events : List Event}
  {files : JsString → Option (List UInt8)} {p : Process} {keyPair : KeyPair}
  {defaultKeyId signedAt : JsString} {rotated : RotatedBundle}

/-! ## One rotation -/

theorem resolveNewKeyId_eq_ok {existingKeys : List PublicKeyBundleEntry} {keyId : JsString}
    (h : p.resolveNewKeyId defaultKeyId existingKeys = .ok keyId) :
    keyId ∉ existingKeys.map (·.keyId) := by
  unfold Process.resolveNewKeyId at h
  dsimp only at h
  split at h
  · cases h
  · split at h
    · cases h
    · next hnew =>
      cases h
      exact hnew

/-- **What a rotation signs**: the keys of the base bundle and a new one under another id. -/
theorem rotate_eq_ok (h : p.rotate keyPair defaultKeyId signedAt = .ok rotated) :
    p.loadExistingKeys = .ok rotated.existingKeys ∧
      rotated.newKey.publicKeyPem = keyPair.publicKeyPem ∧
      rotated.newKey ∉ rotated.existingKeys := by
  unfold Process.rotate at h
  obtain ⟨⟨signerPrivateKey, signerRootId⟩, -, h⟩ := bind_eq_ok.mp h
  obtain ⟨existingKeys, hkeys, h⟩ := bind_eq_ok.mp h
  obtain ⟨keyId, hkeyId, h⟩ := bind_eq_ok.mp h
  cases h
  exact ⟨hkeys, rfl, fun hmem => resolveNewKeyId_eq_ok hkeyId (List.mem_map_of_mem hmem)⟩

/-- A rotation that the script has run. -/
def Rotation.Ran (rotation : Rotation) : Prop :=
  ∃ keyPair defaultKeyId signedAt,
    rotation.process.rotate keyPair defaultKeyId signedAt = .ok rotation.rotated

def sampleTrustRoot : Plain :=
  .obj [(js "version", .num (.ofNat 1)), (js "rootIds", .arr [.str (js "root")])]

/-- A bundle that nobody has signed. -/
def unsignedBundle : Plain :=
  .obj [(js "schemaVersion", .num (.ofNat 1)), (js "keys", .arr
    [.obj [(js "keyId", .str (js "planted")), (js "publicKeyPem", .str (js "planted.pem"))]])]

theorem isDocument_sampleTrustRoot : IsDocument sampleTrustRoot :=
  @isDocument_of_names ["version", "rootIds"] _ rfl (by decide) (by decide)
    (by simp [isDocument_ofNat])

theorem isDocument_keyEntry (keyId publicKeyPem : JsString) :
    IsDocument (.obj [(js "keyId", .str keyId), (js "publicKeyPem", .str publicKeyPem)]) :=
  @isDocument_of_names ["keyId", "publicKeyPem"] _ rfl (by decide) (by decide) (by simp)

/-- The bytes of a document. -/
def documentBytes (value : Plain) : List UInt8 := encodeUtf8 (jsonText [] value)

/-- A trust root with one root, and a planted bundle where the script writes its own. -/
def sampleFiles (path : JsString) : Option (List UInt8) :=
  if path = js "./config/trust_root.json" then some (documentBytes sampleTrustRoot)
  else if path = js "data/public-key-bundle.json" then some (documentBytes unsignedBundle)
  else none

def sampleCrypto : Crypto where
  PublicKey := Unit
  PrivateKey := Unit
  sha256Hex _ := js "root"
  createPublicKey _ := .ok ()
  createPrivateKey _ := .ok ()
  exportPublicKey _ := js "root.pem"
  sign _ _ := [1]
  verify _ _ _ := .ok true
  bufferFrom _ := .ok []
  scrypt _ _ := .ok []
  encrypt _ _ plaintext := (plaintext, [])
  decrypt _ _ _ ciphertext := .ok ciphertext

def sampleWorld : World where
  crypto := sampleCrypto
  paths :=
    { resolve := id
      resolveFrom := fun _ path => path
      dirname := id
      isAbsolute := fun _ => true }
  parseMessage _ := js "Unexpected token"
  fileMessage := js "ENOENT"
  generateKeyPair _ := { privateKeyPem := js "new.key", publicKeyPem := js "new.pem" }
  defaultKeyId _ := js "incident-key"
  signedAt _ := js "2026-03-08T21:00:00.123Z"

/-- An environment with nothing but the signing key. -/
def sampleEnv (name : String) : Option JsString :=
  if name = "MEMPHIS_TRUST_ROOT_SIGNING_KEY_PEM" then some (js "root.key") else none

def sampleProcess : Process :=
  sampleWorld.process { files := sampleFiles, started := 0, rotations := [] } [] sampleEnv

theorem parseTrustRootManifest_sample :
    parseTrustRootManifest sampleTrustRoot = .ok [js "root"] := by
  have hobject : requireObject (some sampleTrustRoot) "trust root manifest must be a JSON object" =
      .ok sampleTrustRoot := rfl
  have hversion : validVersion sampleTrustRoot = true := by decide +kernel
  have hroots : parseRootIds sampleTrustRoot = .ok [js "root"] := by
    simp [parseRootIds, sampleTrustRoot, property, parseRootId, List.lookup_cons]
  simp [parseTrustRootManifest, hobject, hversion, hroots]

theorem parseUniqueTrustRootManifest_sample :
    parseUniqueTrustRootManifest sampleTrustRoot = .ok [js "root"] := by
  simp [parseUniqueTrustRootManifest, parseTrustRootManifest_sample, check, hasDistinctEntries]

theorem parseKeyEntry_of {keyId publicKeyPem : JsString} (hkeyId : keyId ≠ [])
    (hpem : publicKeyPem ≠ []) :
    parseKeyEntry (.obj [(js "keyId", .str keyId), (js "publicKeyPem", .str publicKeyPem)]) =
      .ok { keyId, publicKeyPem } := by
  simp [parseKeyEntry, requireObject, requireString, property, List.lookup_cons, hkeyId, hpem]

theorem rotate_of {signer : p.crypto.PrivateKey × JsString} {keyId : JsString}
    {existingKeys : List PublicKeyBundleEntry} (hsigner : p.trustedSigner = .ok signer)
    (hkeys : p.loadExistingKeys = .ok existingKeys)
    (hkeyId : p.resolveNewKeyId defaultKeyId existingKeys = .ok keyId) :
    ∃ rotated, p.rotate keyPair defaultKeyId signedAt = .ok rotated ∧
      rotated.existingKeys = existingKeys := by
  unfold Process.rotate
  simp only [hsigner, hkeys, hkeyId, ok_bind]
  exact ⟨_, rfl, rfl⟩

end MemphisOS.Incident
