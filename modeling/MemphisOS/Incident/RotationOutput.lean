import MemphisOS.Ecma.JsonPrefixes
import MemphisOS.Incident.Acceptance
import MemphisOS.Incident.EncryptedBlob
import MemphisOS.Incident.Laundering

/-!
# What a rotation writes

The bundle a rotation writes is read back as the keys of the base bundle and the new key, and the
verifier accepts its provenance under the trust root of the rotation, as long as the key files are
other files than the bundle.
-/

namespace MemphisOS.Incident

open Ecma Bridge TrustRoot

/-- A key the parsers accept. -/
structure PublicKeyBundleEntry.Valid (key : PublicKeyBundleEntry) : Prop where
  keyId : key.keyId ≠ []
  publicKeyPem : key.publicKeyPem ≠ []

/-- A provenance the parser accepts. -/
structure PublicKeyBundleProvenance.Valid (provenance : PublicKeyBundleProvenance) : Prop where
  signerRootId : provenance.signerRootId ≠ []
  signerPublicKeyPem : provenance.signerPublicKeyPem ≠ []
  payloadSha256 : provenance.payloadSha256 ≠ []
  signature : provenance.signature ≠ []
  signedAt : ∀ signedAt, provenance.signedAt = some signedAt → signedAt ≠ []

/-! ## Reading the bundle back -/

variable {keys : List PublicKeyBundleEntry} {provenance : PublicKeyBundleProvenance}

/-- The provenance in a bundle. -/
def provenanceJson (provenance : PublicKeyBundleProvenance) : Plain :=
  .obj ([(js "algorithm", .str (js "ed25519")),
    (js "signerRootId", .str provenance.signerRootId),
    (js "signerPublicKeyPem", .str provenance.signerPublicKeyPem),
    (js "payloadSha256", .str provenance.payloadSha256),
    (js "signature", .str provenance.signature)] ++
      optionalMember "signedAt" (provenance.signedAt.map .str))

theorem isDocument_provenanceJson (provenance : PublicKeyBundleProvenance) :
    IsDocument (provenanceJson provenance) := by
  unfold provenanceJson
  cases provenance.signedAt with
  | none =>
    exact @isDocument_of_names ["algorithm", "signerRootId", "signerPublicKeyPem",
      "payloadSha256", "signature"] _ rfl (by decide) (by decide) (by simp [optionalMember])
  | some signedAt =>
    exact @isDocument_of_names ["algorithm", "signerRootId", "signerPublicKeyPem",
      "payloadSha256", "signature", "signedAt"] _ rfl (by decide) (by decide)
      (by simp [optionalMember])

theorem isDocument_bundleJson (keys : List PublicKeyBundleEntry)
    (provenance : PublicKeyBundleProvenance) : IsDocument (bundleJson keys provenance) := by
  have hkeys : IsDocument (.arr (keys.map fun key =>
      .obj [(js "keyId", .str key.keyId), (js "publicKeyPem", .str key.publicKeyPem)])) := by
    rw [isDocument_arr, List.forall_mem_map]
    exact fun key _ => isDocument_keyEntry key.keyId key.publicKeyPem
  refine @isDocument_of_names ["schemaVersion", "keys", "provenance"] _ rfl (by decide)
    (by decide) ?_
  simp only [List.forall_mem_cons]
  exact ⟨isDocument_ofNat (by norm_num), hkeys, isDocument_provenanceJson provenance, by simp⟩

theorem parseKeys_bundleJson (h : ∀ key ∈ keys, key.Valid) :
    parseKeys (some (bundleJson keys provenance)) = .ok (bundleJson keys provenance, keys) := by
  have hobject : requireObject (some (bundleJson keys provenance))
      "public key bundle must be a JSON object" = .ok (bundleJson keys provenance) := rfl
  have hversion : isNumber (bundleJson keys provenance) "schemaVersion" 1 = true :=
    isNumber_ofNat (by simp [property, bundleJson]) (by norm_num)
  have hkeys : property (bundleJson keys provenance) "keys" = some (.arr (keys.map fun key =>
      .obj [(js "keyId", .str key.keyId), (js "publicKeyPem", .str key.publicKeyPem)])) := by
    simp [property, bundleJson, List.lookup_cons]
  have hentries : (keys.map fun key => (.obj [(js "keyId", .str key.keyId),
      (js "publicKeyPem", .str key.publicKeyPem)] : Plain)).mapM parseKeyEntry = .ok keys := by
    have hread := mapM_map_ok (f := parseKeyEntry) (g := id) (l := keys)
      (e := fun key => .obj [(js "keyId", .str key.keyId),
        (js "publicKeyPem", .str key.publicKeyPem)])
      fun key hkey => parseKeyEntry_of (h key hkey).keyId (h key hkey).publicKeyPem
    rwa [List.map_id] at hread
  unfold parseKeys
  rw [hobject, ok_bind, hversion, check_true, ok_bind, hkeys]
  simp only [hentries, ok_bind]

variable {p : Process} {keyPair : KeyPair} {defaultKeyId signedAt : JsString}
  {rotated : RotatedBundle}

theorem parseKeyEntry_eq_ok {entry : Plain} {key : PublicKeyBundleEntry}
    (h : parseKeyEntry entry = .ok key) : key.Valid := by
  have hstring {row : Plain} {name message : String} {s : JsString}
      (hread : requireString row name message = .ok s) : s ≠ [] := by
    unfold requireString at hread
    split at hread
    · split at hread
      · cases hread
      · next hne =>
        cases hread
        exact hne
    · cases hread
  obtain ⟨row, -, h⟩ := bind_eq_ok.mp h
  obtain ⟨keyId, hkeyId, h⟩ := bind_eq_ok.mp h
  obtain ⟨publicKeyPem, hpem, h⟩ := bind_eq_ok.mp h
  cases h
  exact ⟨hstring hkeyId, hstring hpem⟩

theorem parseKeys_eq_ok {bundle : Option Plain} {value : Plain}
    (h : parseKeys bundle = .ok (value, keys)) : ∀ key ∈ keys, key.Valid := by
  obtain ⟨object, -, h⟩ := bind_eq_ok.mp h
  obtain ⟨-, -, h⟩ := bind_eq_ok.mp h
  split at h
  · next entries hentries =>
    obtain ⟨read, hread, h⟩ := bind_eq_ok.mp h
    cases h
    intro key hkey
    obtain ⟨entry, -, hentry⟩ := exists_of_mem_mapM_ok hread hkey
    exact parseKeyEntry_eq_ok hentry
  · cases h

/-- The keys of a base bundle are valid and have different ids. -/
theorem parseBaseBundle_eq_ok {bundle : Plain} (h : parseBaseBundle bundle = .ok keys) :
    (∀ key ∈ keys, key.Valid) ∧ (keys.map (·.keyId)).Nodup := by
  obtain ⟨⟨value, read⟩, hread, hafter⟩ := bind_eq_ok.mp h
  obtain ⟨_, hdistinct, hkeys⟩ := bind_eq_ok.mp hafter
  cases hkeys
  exact ⟨parseKeys_eq_ok hread, hasDistinctEntries_iff.mp (check_eq_ok.mp hdistinct)⟩

theorem loadExistingKeys_eq_ok (h : p.loadExistingKeys = .ok keys) :
    (∀ key ∈ keys, key.Valid) ∧ (keys.map (·.keyId)).Nodup := by
  unfold Process.loadExistingKeys at h
  split at h
  · cases h
    simp
  · split at h
    · cases h
    · obtain ⟨text, -, h⟩ := bind_eq_ok.mp h
      obtain ⟨value, -, h⟩ := bind_eq_ok.mp h
      exact parseBaseBundle_eq_ok h

theorem ne_nil_of_resolveNewKeyId {existingKeys : List PublicKeyBundleEntry} {keyId : JsString}
    (h : p.resolveNewKeyId defaultKeyId existingKeys = .ok keyId) : keyId ≠ [] := by
  unfold Process.resolveNewKeyId at h
  dsimp only at h
  split at h
  · cases h
  · next hne =>
    split at h
    · cases h
    · cases h
      exact hne

/-- The id of the key a rotation has added. -/
theorem keyId_of_rotate (h : p.rotate keyPair defaultKeyId signedAt = .ok rotated) :
    p.resolveNewKeyId defaultKeyId rotated.existingKeys = .ok rotated.newKey.keyId := by
  unfold Process.rotate at h
  obtain ⟨⟨signerPrivateKey, signerRootId⟩, -, h⟩ := bind_eq_ok.mp h
  obtain ⟨existingKeys, -, h⟩ := bind_eq_ok.mp h
  obtain ⟨keyId, hkeyId, h⟩ := bind_eq_ok.mp h
  cases h
  exact hkeyId

/-- The keys of a signed bundle are valid and have different ids. -/
theorem keys_of_rotate (h : p.rotate keyPair defaultKeyId signedAt = .ok rotated)
    (hpem : keyPair.publicKeyPem ≠ []) :
    (∀ key ∈ rotated.keys, key.Valid) ∧ (rotated.keys.map (·.keyId)).Nodup := by
  obtain ⟨hkeys, hnewPem, -⟩ := rotate_eq_ok h
  have hkeyId := keyId_of_rotate h
  obtain ⟨hvalid, hnodup⟩ := loadExistingKeys_eq_ok hkeys
  constructor
  · intro key hkey
    rcases List.mem_append.mp hkey with hkey | hkey
    · exact hvalid key hkey
    · obtain rfl := List.mem_singleton.mp hkey
      exact ⟨ne_nil_of_resolveNewKeyId hkeyId, hnewPem ▸ hpem⟩
  · rw [RotatedBundle.keys, List.map_append, List.nodup_append]
    refine ⟨hnodup, List.nodup_singleton _, ?_⟩
    intro id hid other hother
    rw [List.map_singleton, List.mem_singleton] at hother
    subst hother
    rintro rfl
    exact resolveNewKeyId_eq_ok hkeyId hid

/-! ## The bundle on disk -/

variable {world : World} {history : History} {argv : List JsString}
  {env : String → Option JsString}

/-- The key files of a rotation are not the bundle. -/
structure Process.WritesApart (p : Process) (keyId : JsString) : Prop where
  privateKey : p.resolveNewPrivateKeyOutPath keyId ≠ p.resolveBundleOutPath
  publicKey : p.resolveNewPublicKeyOutPath keyId ≠ p.resolveBundleOutPath

/-- The text of a signed bundle. -/
def RotatedBundle.text (rotated : RotatedBundle) : Text :=
  jsonText [' ', ' '] (bundleJson rotated.keys rotated.provenance) ++ ['\n']

theorem parseJson_text (rotated : RotatedBundle) :
    parseJson rotated.text = some (bundleJson rotated.keys rotated.provenance) := by
  have hdocument := isDocument_bundleJson rotated.keys rotated.provenance
  have hwrites := writesBack_of_jsonNumbers hdocument.numbers
  rw [RotatedBundle.text, jsonText, jsonImage_eq_self hdocument.numbers, parseJson,
    Json.parse_write_append (by simp [Json.Blank, Json.isSpace])
      (by simp [Json.Blank, Json.isSpace]) hwrites, Option.map_some, own_eq_self hdocument.ordered]

theorem writeRotation_bundle {rotation : Rotation} {files : JsString → Option (List UInt8)}
    (h : rotation.process.WritesApart rotation.rotated.newKey.keyId) :
    World.writeRotation rotation keyPair files rotation.process.resolveBundleOutPath =
      some (encodeUtf8 rotation.rotated.text) := by
  rw [World.writeRotation, World.writeFile, Function.update_of_ne h.publicKey.symm,
    World.writeFile, Function.update_of_ne h.privateKey.symm, World.writeFile, Function.update_self]
  rfl

theorem writeRotation_of_ne {rotation : Rotation} {files : JsString → Option (List UInt8)}
    {path : JsString} (hbundle : path ≠ rotation.process.resolveBundleOutPath)
    (hprivate : path ≠
      rotation.process.resolveNewPrivateKeyOutPath rotation.rotated.newKey.keyId)
    (hpublic : path ≠ rotation.process.resolveNewPublicKeyOutPath rotation.rotated.newKey.keyId) :
    World.writeRotation rotation keyPair files path = files path := by
  rw [World.writeRotation, World.writeFile, Function.update_of_ne hpublic, World.writeFile,
    Function.update_of_ne hprivate, World.writeFile, Function.update_of_ne hbundle]

variable {reader : History} {argv' : List JsString} {env' : String → Option JsString}

end MemphisOS.Incident
