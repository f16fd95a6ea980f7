import MemphisOS.Incident.RotationFiles

/-!
# Private keys of the bundle's keys

When no rotation fails after its first write and no two key ids have the same key files, each key
that the bundle lists has its private key on disk.
-/

namespace MemphisOS.Incident

open Ecma Bridge Files TrustRoot

/-- The private key file of a key pair is read back as the key of its public key. -/
structure KeyPair.Matches (crypto : Crypto) (keyPair : KeyPair) : Prop where
  publicKeyPem_ne_nil : keyPair.publicKeyPem ≠ []
  privateKey : ∃ text privateKey, keyPair.privateKeyPem = ofText text ∧
    crypto.createPrivateKey keyPair.privateKeyPem = .ok privateKey ∧
      crypto.exportPublicKey privateKey = keyPair.publicKeyPem

/-- A rotation with default key files over the bundle file, for an id of its own. -/
structure World.Rotates (world : World) (bundlePath : JsString) (history : History)
    (attempt : Attempt) : Prop where
  bundle : (world.process history attempt.argv attempt.env).resolveBundleOutPath = bundlePath
  privateKey : present (((world.process history attempt.argv attempt.env).parseArg
    "--new-private-key-out").or (attempt.env "MEMPHIS_INCIDENT_ROTATE_PRIVATE_KEY_OUT")) = false
  publicKey : present (((world.process history attempt.argv attempt.env).parseArg
    "--new-public-key-out").or (attempt.env "MEMPHIS_INCIDENT_ROTATE_PUBLIC_KEY_OUT")) = false
  keyId : ∀ rotation ∈ history.rotations, rotation.rotated.newKey.keyId ≠
    (world.process history attempt.argv attempt.env).requestedKeyId
      (world.defaultKeyId history.started)

/-- The ids of the rotations so far, and of the keys of a base bundle. -/
def knownKeyIds (history : History) (existingKeys : List PublicKeyBundleEntry) : List JsString :=
  history.rotations.map (·.rotated.newKey.keyId) ++ existingKeys.map (·.keyId)

/-- A rotation that completes its writes, into files that are no others'. -/
structure World.Orderly (world : World) (bundlePath : JsString) (history : History)
    (attempt : Attempt) (existingKeys : List PublicKeyBundleEntry) (newKeyId : JsString) :
    Prop where
  /-- It fails before its first write, or in one that leaves the bundle as it was. -/
  fault : attempt.fault = none ∨ attempt.fault = some .directories ∨
    attempt.fault = some (.bundle (history.files bundlePath))
  sanitized : ∀ keyId ∈ knownKeyIds history existingKeys, keyId ≠ newKeyId →
    Process.sanitizeKeyId keyId ≠ Process.sanitizeKeyId newKeyId ∧
      Process.sanitizeKeyId keyId ≠ Process.sanitizeKeyId newKeyId ++ js ".pub"
  privateKey : ∀ keyId ∈ newKeyId :: knownKeyIds history existingKeys,
    privateKeyPath world.paths bundlePath keyId ≠ bundlePath
  publicKey : publicKeyPath world.paths bundlePath newKeyId ≠ bundlePath
  base : (world.process history attempt.argv attempt.env).resolveBaseBundlePath =
      some bundlePath ∨
    ∀ key ∈ existingKeys, world.HasPrivateKey bundlePath history.files key

variable {world : World} {cwd : Paths.WorkingDirectory} {bundlePath : JsString}
  {history : History} {attempt : Attempt} {rotated : RotatedBundle}

theorem requestedKeyId_of_resolve {p : Process} {defaultKeyId keyId : JsString}
    {existingKeys : List PublicKeyBundleEntry}
    (h : p.resolveNewKeyId defaultKeyId existingKeys = .ok keyId) :
    keyId = p.requestedKeyId defaultKeyId := by
  unfold Process.resolveNewKeyId at h
  dsimp only at h
  split at h
  · cases h
  · split at h
    · cases h
    · cases h
      rfl

theorem World.Rotates.privateKeyPath_eq (h : world.Rotates bundlePath history attempt)
    (keyId : JsString) :
    (world.process history attempt.argv attempt.env).resolveNewPrivateKeyOutPath keyId =
      privateKeyPath world.paths bundlePath keyId := by
  have hdefault := h.privateKey
  rw [Process.resolveNewPrivateKeyOutPath, Process.resolveNewKeyPath,
    if_neg (by rw [Bool.not_eq_true]; exact hdefault), h.bundle]
  rfl

theorem World.Rotates.publicKeyPath_eq (h : world.Rotates bundlePath history attempt)
    (keyId : JsString) :
    (world.process history attempt.argv attempt.env).resolveNewPublicKeyOutPath keyId =
      publicKeyPath world.paths bundlePath keyId := by
  have hdefault := h.publicKey
  rw [Process.resolveNewPublicKeyOutPath, Process.resolveNewKeyPath,
    if_neg (by rw [Bool.not_eq_true]; exact hdefault), h.bundle]
  rfl

theorem World.Rotates.exists_eq_resolve (h : world.Rotates bundlePath history attempt) :
    ∃ given, bundlePath = world.paths.resolve given :=
  ⟨_, h.bundle.symm⟩

/-- What a base bundle lists is read from its file. -/
theorem lists_of_loadExistingKeys {argv : List JsString} {env : String → Option JsString}
    {path : JsString} {keys : List PublicKeyBundleEntry}
    (hbase : (world.process history argv env).resolveBaseBundlePath = some path)
    (h : (world.process history argv env).loadExistingKeys = .ok keys) :
    Lists history.files path keys := by
  unfold Process.loadExistingKeys at h
  rw [hbase] at h
  dsimp only at h
  split at h
  · cases h
  · obtain ⟨text, htext, h⟩ := bind_eq_ok.mp h
    obtain ⟨value, hvalue, h⟩ := bind_eq_ok.mp h
    obtain ⟨⟨object, listed⟩, hlisted, h⟩ := bind_eq_ok.mp h
    obtain ⟨-, -, hkeys⟩ := bind_eq_ok.mp h
    cases hkeys
    cases hfile : history.files path with
    | none =>
      rw [Process.readText, World.process] at htext
      simp only [hfile, Except.map] at htext
      cases htext
    | some bytes =>
      rw [Process.readText, World.process] at htext
      simp only [hfile, Except.map, Except.ok.injEq] at htext
      subst htext
      unfold Process.parse at hvalue
      split at hvalue
      · next hparse =>
        cases hvalue
        exact ⟨bytes, value, object, hfile, hparse, hlisted⟩
      · cases hvalue

/-- A bundle that was written lists its keys and no others. -/
theorem lists_text {files : JsString → Option (List UInt8)}
    (hvalid : ∀ key ∈ rotated.keys, key.Valid)
    (hfile : files bundlePath = some (encodeUtf8 rotated.text)) {keys : List PublicKeyBundleEntry} :
    Lists files bundlePath keys ↔ keys = rotated.keys := by
  constructor
  · rintro ⟨bytes, value, object, hbytes, hvalue, hkeys⟩
    cases hfile.symm.trans hbytes
    rw [decodeUtf8_encodeUtf8, parseJson_text] at hvalue
    cases hvalue
    rw [parseKeys_bundleJson hvalid] at hkeys
    cases hkeys
    rfl
  · rintro rfl
    exact ⟨_, _, _, hfile, by rw [decodeUtf8_encodeUtf8, parseJson_text],
      parseKeys_bundleJson hvalid⟩

/-- The next rotation reads the keys that were written. -/
theorem loadExistingKeys_text {argv : List JsString} {env : String → Option JsString}
    {path : JsString} (hbase : (world.process history argv env).resolveBaseBundlePath = some path)
    (hfile : history.files path = some (encodeUtf8 rotated.text))
    (hvalid : ∀ key ∈ rotated.keys, key.Valid) (hnodup : (rotated.keys.map (·.keyId)).Nodup) :
    (world.process history argv env).loadExistingKeys = .ok rotated.keys := by
  have hexists : (world.process history argv env).existsSync path = true := by
    simp only [World.process, hfile, Option.isSome_some]
  have htext : (world.process history argv env).readText path = .ok rotated.text := by
    rw [Process.readText, World.process]
    simp only [hfile, Except.map, decodeUtf8_encodeUtf8]
  have hvalue : (world.process history argv env).parse rotated.text =
      .ok (bundleJson rotated.keys rotated.provenance) := by
    rw [Process.parse, parseJson_text]
  have hkeys : parseBaseBundle (bundleJson rotated.keys rotated.provenance) =
      .ok rotated.keys := by
    unfold parseBaseBundle
    rw [parseKeys_bundleJson hvalid, ok_bind]
    dsimp only
    rw [hasDistinctEntries_iff.mpr hnodup, check_true, ok_bind]
  rw [Process.loadExistingKeys, hbase]
  dsimp only
  rw [hexists, htext, ok_bind, hvalue, ok_bind, hkeys]
  rfl

/-! ## One attempt -/

theorem HasPrivateKey.of_eq {files files' : JsString → Option (List UInt8)}
    {key : PublicKeyBundleEntry} (h : world.HasPrivateKey bundlePath files key)
    (hfile : files' (privateKeyPath world.paths bundlePath key.keyId) =
      files (privateKeyPath world.paths bundlePath key.keyId)) :
    world.HasPrivateKey bundlePath files' key := by
  obtain ⟨bytes, privateKey, hbytes, hread⟩ := h
  exact ⟨bytes, privateKey, hfile.trans hbytes, hread⟩

theorem attempt_of_error {message : JsString}
    (h : world.signed history attempt = .error message) :
    world.attempt history attempt = { history with started := history.started + 1 } := by
  simp only [World.attempt, h]

/-- An attempt that fails in order leaves all files as they were. -/
theorem files_attempt_of_failed (hbundle : (world.process history attempt.argv
      attempt.env).resolveBundleOutPath = bundlePath)
    (hsigned : world.signed history attempt = .ok rotated) (hfault : attempt.fault ≠ none)
    (horder : attempt.fault = none ∨ attempt.fault = some .directories ∨
      attempt.fault = some (.bundle (history.files bundlePath))) :
    world.attempt history attempt = { history with started := history.started + 1 } := by
  rcases horder with hnone | hdirectories | hunchanged
  · exact absurd hnone hfault
  · simp only [World.attempt, hsigned, hdirectories, World.writeFiles]
    rfl
  · simp only [World.attempt, hsigned, hunchanged, World.writeFiles, hbundle,
      Function.update_eq_self]
    rfl

/-- What an attempt that succeeds leaves. -/
theorem attempt_of_completed (hsigned : world.signed history attempt = .ok rotated)
    (hfault : attempt.fault = none) :
    world.attempt history attempt =
      { files := World.writeRotation
          ⟨world.process history attempt.argv attempt.env, rotated⟩
          (world.generateKeyPair history.started) history.files
        started := history.started + 1
        rotations := history.rotations ++
          [⟨world.process history attempt.argv attempt.env, rotated⟩] } := by
  simp only [World.attempt, hsigned, hfault, World.writeFiles]
  rfl

/-- The bundle file after an attempt that succeeds. -/
theorem bundle_attempt_of_completed (hrotates : world.Rotates bundlePath history attempt)
    (hsigned : world.signed history attempt = .ok rotated) (hfault : attempt.fault = none)
    (hprivate : privateKeyPath world.paths bundlePath rotated.newKey.keyId ≠ bundlePath)
    (hpublic : publicKeyPath world.paths bundlePath rotated.newKey.keyId ≠ bundlePath) :
    (world.attempt history attempt).files bundlePath = some (encodeUtf8 rotated.text) := by
  let rotation : Rotation := ⟨world.process history attempt.argv attempt.env, rotated⟩
  have hapart : rotation.process.WritesApart rotated.newKey.keyId := by
    constructor
    · rwa [hrotates.privateKeyPath_eq, hrotates.bundle]
    · rwa [hrotates.publicKeyPath_eq, hrotates.bundle]
  have hwritten := @writeRotation_bundle (world.generateKeyPair history.started) rotation
    history.files hapart
  rw [attempt_of_completed hsigned hfault]
  rwa [show rotation.process.resolveBundleOutPath = bundlePath from hrotates.bundle] at hwritten

/-- An attempt that succeeds writes nothing but its three files. -/
theorem files_attempt_of_ne (hrotates : world.Rotates bundlePath history attempt)
    (hsigned : world.signed history attempt = .ok rotated) (hfault : attempt.fault = none)
    {path : JsString} (hbundle : path ≠ bundlePath)
    (hprivate : path ≠ privateKeyPath world.paths bundlePath rotated.newKey.keyId)
    (hpublic : path ≠ publicKeyPath world.paths bundlePath rotated.newKey.keyId) :
    (world.attempt history attempt).files path = history.files path := by
  rw [attempt_of_completed hsigned hfault]
  refine writeRotation_of_ne ?_ ?_ ?_
  · rwa [hrotates.bundle]
  · rwa [hrotates.privateKeyPath_eq]
  · rwa [hrotates.publicKeyPath_eq]

/-- The files after an attempt that fails to write its private key. -/
theorem files_attempt_privateKey (hrotates : world.Rotates bundlePath history attempt)
    (hsigned : world.signed history attempt = .ok rotated) {left : Option (List UInt8)}
    (hfault : attempt.fault = some (.privateKey left)) :
    (world.attempt history attempt).files =
      Function.update (World.writeFile bundlePath (encodeUtf8 rotated.text) history.files)
        (privateKeyPath world.paths bundlePath rotated.newKey.keyId) left := by
  simp only [World.attempt, hsigned, hfault, World.writeFiles]
  rw [hrotates.bundle, hrotates.privateKeyPath_eq]

theorem rotations_attempt_of_completed (hsigned : world.signed history attempt = .ok rotated)
    (hfault : attempt.fault = none) :
    (world.attempt history attempt).rotations = history.rotations ++
      [⟨world.process history attempt.argv attempt.env, rotated⟩] := by
  rw [attempt_of_completed hsigned hfault]

variable {existingKeys : List PublicKeyBundleEntry} {keyId newKeyId : JsString}

/-- The private key files of other ids are not written. -/
theorem World.Orderly.apart (hpaths : world.paths = nodePaths cwd)
    (hrotates : world.Rotates bundlePath history attempt)
    (h : world.Orderly bundlePath history attempt existingKeys newKeyId)
    (hknown : keyId ∈ knownKeyIds history existingKeys) (hne : keyId ≠ newKeyId) :
    privateKeyPath world.paths bundlePath keyId ≠ bundlePath ∧
      privateKeyPath world.paths bundlePath keyId ≠
        privateKeyPath world.paths bundlePath newKeyId ∧
      privateKeyPath world.paths bundlePath keyId ≠
        publicKeyPath world.paths bundlePath newKeyId := by
  obtain ⟨given, rfl⟩ := hrotates.exists_eq_resolve
  obtain ⟨hprivate, hpublic⟩ := h.sanitized keyId hknown hne
  refine ⟨h.privateKey keyId (List.mem_cons_of_mem newKeyId hknown), ?_, ?_⟩
  · rw [hpaths, Ne, privateKeyPath_eq_iff]
    exact hprivate
  · rw [hpaths, Ne, privateKeyPath_eq_publicKeyPath_iff]
    exact hpublic

theorem privateKeyPath_ne_publicKeyPath (hpaths : world.paths = nodePaths cwd)
    (hrotates : world.Rotates bundlePath history attempt) (keyId : JsString) :
    privateKeyPath world.paths bundlePath keyId ≠ publicKeyPath world.paths bundlePath keyId := by
  obtain ⟨given, rfl⟩ := hrotates.exists_eq_resolve
  rw [hpaths, Ne, privateKeyPath_eq_publicKeyPath_iff]
  intro h
  have hlength := congrArg List.length h
  rw [List.length_append] at hlength
  exact absurd hlength (by simp)

/-- The new key is on disk once its rotation has succeeded. -/
theorem hasPrivateKey_new (hpaths : world.paths = nodePaths cwd)
    (hpair : (world.generateKeyPair history.started).Matches world.crypto)
    (hrotates : world.Rotates bundlePath history attempt)
    (hsigned : world.signed history attempt = .ok rotated) (hfault : attempt.fault = none) :
    world.HasPrivateKey bundlePath (world.attempt history attempt).files rotated.newKey := by
  obtain ⟨text, privateKey, htext, hcreate, hexport⟩ := hpair.privateKey
  have hpublicPem := (rotate_eq_ok hsigned).2.1
  refine ⟨bytesOf (world.generateKeyPair history.started).privateKeyPem, privateKey, ?_, ?_, ?_⟩
  · rw [attempt_of_completed hsigned hfault, World.writeRotation]
    dsimp only
    rw [hrotates.privateKeyPath_eq, hrotates.publicKeyPath_eq, World.writeFile,
      Function.update_of_ne (privateKeyPath_ne_publicKeyPath hpaths hrotates _), World.writeFile,
      Function.update_self]
  · rw [bytesOf, decodeUtf8_encodeUtf8, htext, wellFormed_ofText, ← htext]
    exact hcreate
  · rw [hpublicPem]
    exact hexport

/-- **One rotation.** A rotation that succeeds in order keeps the keys of the others. -/
theorem keyFilesSound_of_completed (hpaths : world.paths = nodePaths cwd)
    (hpair : (world.generateKeyPair history.started).Matches world.crypto)
    (hrotates : world.Rotates bundlePath history attempt)
    (hsigned : world.signed history attempt = .ok rotated) (hfault : attempt.fault = none)
    (h : world.Orderly bundlePath history attempt rotated.existingKeys rotated.newKey.keyId)
    (hsound : world.KeyFilesSound bundlePath history) :
    world.KeyFilesSound bundlePath (world.attempt history attempt) := by
  obtain ⟨hkeys, hnewPem, -⟩ := rotate_eq_ok hsigned
  have hnewId := keyId_of_rotate hsigned
  have hrequested := requestedKeyId_of_resolve hnewId
  have hnew := hasPrivateKey_new hpaths hpair hrotates hsigned hfault
  have hissued (r : Rotation) (hr : r ∈ history.rotations) :
      r.rotated.newKey.keyId ∈ knownKeyIds history rotated.existingKeys ∧
        r.rotated.newKey.keyId ≠ rotated.newKey.keyId :=
    ⟨List.mem_append_left _ (List.mem_map_of_mem hr),
      fun heq => hrotates.keyId r hr (heq.trans hrequested)⟩
  -- the private keys of known ids are not touched
  have hframe (key : PublicKeyBundleEntry)
      (hknown : key.keyId ∈ knownKeyIds history rotated.existingKeys)
      (hne : key.keyId ≠ rotated.newKey.keyId)
      (hdisk : world.HasPrivateKey bundlePath history.files key) :
      world.HasPrivateKey bundlePath (world.attempt history attempt).files key := by
    obtain ⟨hbundle, hprivate, hpublic⟩ := h.apart hpaths hrotates hknown hne
    exact HasPrivateKey.of_eq hdisk
      (files_attempt_of_ne hrotates hsigned hfault hbundle hprivate hpublic)
  have hrotations := rotations_attempt_of_completed hsigned hfault
  refine ⟨?_, ?_, ?_⟩
  · rw [hrotations]
    intro r hr other hother hne
    rcases List.mem_append.mp hr with hr | hr
    · rcases List.mem_append.mp hother with hother | hother
      · exact hsound.apart r hr other hother hne
      · obtain rfl := List.mem_singleton.mp hother
        exact (h.apart hpaths hrotates (hissued r hr).1 hne).2.1
    · obtain rfl := List.mem_singleton.mp hr
      rcases List.mem_append.mp hother with hother | hother
      · exact (h.apart hpaths hrotates (hissued other hother).1 hne.symm).2.1.symm
      · obtain rfl := List.mem_singleton.mp hother
        exact absurd rfl hne
  · rw [hrotations]
    intro r hr
    rcases List.mem_append.mp hr with hr | hr
    · exact hframe _ (hissued r hr).1 (hissued r hr).2 (hsound.kept r hr)
    · obtain rfl := List.mem_singleton.mp hr
      exact hnew
  · intro keys hlists key hkey
    have hvalid := (keys_of_rotate hsigned hpair.publicKeyPem_ne_nil).1
    have hwritten := bundle_attempt_of_completed hrotates hsigned hfault
      (h.privateKey _ List.mem_cons_self) h.publicKey
    obtain rfl := (lists_text hvalid hwritten).mp hlists
    rcases List.mem_append.mp hkey with hkey | hkey
    · have hknown : key.keyId ∈ knownKeyIds history rotated.existingKeys :=
        List.mem_append_right _ (List.mem_map_of_mem hkey)
      have hne : key.keyId ≠ rotated.newKey.keyId := fun heq =>
        resolveNewKeyId_eq_ok hnewId (heq ▸ List.mem_map_of_mem hkey)
      refine hframe key hknown hne ?_
      rcases h.base with hbase | hbase
      · exact hsound.listed _ (lists_of_loadExistingKeys hbase hkeys) key hkey
      · exact hbase key hkey
    · obtain rfl := List.mem_singleton.mp hkey
      exact hnew

/-! ## Runs -/

/-- An attempt is in order when it signs a bundle. -/
def World.OrderlyAttempt (world : World) (bundlePath : JsString) (history : History)
    (attempt : Attempt) : Prop :=
  (∃ rotated, world.signed history attempt = .ok rotated) → ∀ existingKeys,
    (world.process history attempt.argv attempt.env).loadExistingKeys = .ok existingKeys →
      world.Orderly bundlePath history attempt existingKeys
        ((world.process history attempt.argv attempt.env).requestedKeyId
          (world.defaultKeyId history.started))

theorem World.OrderlyAttempt.orderly (h : world.OrderlyAttempt bundlePath history attempt)
    (hsigned : world.signed history attempt = .ok rotated) :
    world.Orderly bundlePath history attempt rotated.existingKeys rotated.newKey.keyId := by
  rw [requestedKeyId_of_resolve (keyId_of_rotate hsigned)]
  exact h ⟨rotated, hsigned⟩ _ (rotate_eq_ok hsigned).1

theorem KeyFilesSound.congr {other : History} (h : world.KeyFilesSound bundlePath history)
    (hfiles : other.files = history.files) (hrotations : other.rotations = history.rotations) :
    world.KeyFilesSound bundlePath other := by
  obtain ⟨hapart, hkept, hlisted⟩ := h
  refine ⟨?_, ?_, ?_⟩
  · rwa [hrotations]
  · rwa [hrotations, hfiles]
  · rwa [hfiles]

/-- The step of a run. -/
theorem keyFilesSound_attempt (hpaths : world.paths = nodePaths cwd)
    (hpair : (world.generateKeyPair history.started).Matches world.crypto)
    (hrotates : world.Rotates bundlePath history attempt)
    (horder : world.OrderlyAttempt bundlePath history attempt)
    (hsound : world.KeyFilesSound bundlePath history) :
    world.KeyFilesSound bundlePath (world.attempt history attempt) := by
  cases hsigned : world.signed history attempt with
  | error message =>
    rw [attempt_of_error hsigned]
    exact KeyFilesSound.congr hsound rfl rfl
  | ok rotated =>
    have h := horder.orderly hsigned
    by_cases hfault : attempt.fault = none
    · exact keyFilesSound_of_completed hpaths hpair hrotates hsigned hfault h hsound
    · rw [files_attempt_of_failed hrotates.bundle hsigned hfault h.fault]
      exact KeyFilesSound.congr hsound rfl rfl

/-- A failed attempt leaves the bundle as it was. -/
theorem bundle_attempt_of_failed (hrotates : world.Rotates bundlePath history attempt)
    (horder : world.OrderlyAttempt bundlePath history attempt)
    (hfailed : world.Failed history attempt) :
    (world.attempt history attempt).files bundlePath = history.files bundlePath := by
  cases hsigned : world.signed history attempt with
  | error message => rw [attempt_of_error hsigned]
  | ok rotated =>
    have hfault : attempt.fault ≠ none := by
      rcases hfailed with ⟨message, herror⟩ | hfault
      · cases hsigned.symm.trans herror
      · exact hfault
    rw [files_attempt_of_failed hrotates.bundle hsigned hfault (horder.orderly hsigned).fault]

/-- **Runs.** In a run of rotations in order, in every state reached the key ids have private key
files of their own, with the private keys of the rotations and of what the bundle lists, and no
rotation that fails changes the bundle. -/
theorem keyFilesSound_attempts (hpaths : world.paths = nodePaths cwd)
    (hpairs : ∀ n, (world.generateKeyPair n).Matches world.crypto)
    {files : JsString → Option (List UInt8)} {as : List Attempt}
    (hstart : ∀ keys, Lists files bundlePath keys →
      ∀ key ∈ keys, world.HasPrivateKey bundlePath files key)
    (hrotates : ∀ earlier attempt, earlier ++ [attempt] <+: as →
      world.Rotates bundlePath (world.attempts files earlier) attempt)
    (horder : ∀ earlier attempt, earlier ++ [attempt] <+: as →
      world.OrderlyAttempt bundlePath (world.attempts files earlier) attempt) :
    (∀ earlier, earlier <+: as →
      world.KeyFilesSound bundlePath (world.attempts files earlier)) ∧
    ∀ earlier attempt, earlier ++ [attempt] <+: as →
      world.Failed (world.attempts files earlier) attempt →
        (world.attempts files (earlier ++ [attempt])).files bundlePath =
          (world.attempts files earlier).files bundlePath := by
  have hstep (earlier : List Attempt) (attempt : Attempt) :
      world.attempts files (earlier ++ [attempt]) =
        world.attempt (world.attempts files earlier) attempt := List.foldl_concat ..
  constructor
  · intro earlier hprefix
    induction earlier using List.reverseRecOn with
    | nil =>
      refine ⟨?_, ?_, hstart⟩
      · intro rotation hrotation
        cases hrotation
      · intro rotation hrotation
        cases hrotation
    | append_singleton earlier attempt ih =>
      have hsound := ih ((List.prefix_append earlier [attempt]).trans hprefix)
      rw [hstep]
      exact keyFilesSound_attempt hpaths (hpairs _) (hrotates earlier attempt hprefix)
        (horder earlier attempt hprefix) hsound
  · intro earlier attempt hprefix hfailed
    rw [hstep]
    exact bundle_attempt_of_failed (hrotates earlier attempt hprefix)
      (horder earlier attempt hprefix) hfailed

/-! ## Samples -/

theorem isAbsolute_rootDirectory : Paths.isAbsolute (js "/") = true := by decide

/-- A private key is its text. -/
def keyCrypto : Crypto :=
  { sampleCrypto with
    PrivateKey := JsString
    createPrivateKey := fun pem => .ok pem
    exportPublicKey := fun key => key ++ js ".pub"
    sign := fun _ _ => [1] }

def keyWorld : World :=
  { sampleWorld with
    crypto := keyCrypto
    paths := nodePaths ⟨js "/", isAbsolute_rootDirectory⟩
    generateKeyPair := fun _ =>
      { privateKeyPem := js "new.key", publicKeyPem := js "new.key.pub" } }

/-- A trust root with one root, and no bundle. -/
def keyFiles (path : JsString) : Option (List UInt8) :=
  if path = js "/config/trust_root.json" then some (documentBytes sampleTrustRoot) else none

/-- An environment with the signing key and the new key id. -/
def keyEnv (keyId : String) (name : String) : Option JsString :=
  if name = "MEMPHIS_INCIDENT_ROTATE_NEW_KEY_ID" then some (js keyId) else sampleEnv name

/-- A rotation with no options. -/
def rotateTo (keyId : String) (fault : Option Fault) : Attempt where
  argv := []
  env := keyEnv keyId
  fault

theorem matches_keyWorld (n : ℕ) : (keyWorld.generateKeyPair n).Matches keyWorld.crypto where
  publicKeyPem_ne_nil := List.cons_ne_nil _ _
  privateKey := ⟨"new.key".toList, js "new.key", rfl, rfl, rfl⟩

theorem trustedSigner_keyWorld {history : History}
    (h : history.files (js "/config/trust_root.json") = some (documentBytes sampleTrustRoot))
    (keyId : String) :
    (keyWorld.process history [] (keyEnv keyId)).trustedSigner =
      .ok (js "root.key", js "root") := by
  have hpath : (keyWorld.process history [] (keyEnv keyId)).resolveTrustRootPath =
      js "/config/trust_root.json" := by
    have hresolve : keyWorld.paths.resolve (js "./config/trust_root.json") =
        js "/config/trust_root.json" := by decide
    exact hresolve
  have hkey : (keyWorld.process history [] (keyEnv keyId)).resolveTrustRootSigningKey =
      .ok (js "root.key") := rfl
  obtain ⟨hexists, hjson⟩ := @Process.trustRoot_document
    (keyWorld.process history [] (keyEnv keyId)) sampleTrustRoot
    (by rw [hpath]; exact congrArg (Option.map Except.ok) h) isDocument_sampleTrustRoot
  unfold Process.trustedSigner
  rw [hexists, hjson, hkey]
  simp only [ok_bind, parseUniqueTrustRootManifest_sample]
  rfl

theorem signed_of {existingKeys : List PublicKeyBundleEntry} {keyId : JsString}
    {signer : world.crypto.PrivateKey × JsString}
    (hsigner : (world.process history attempt.argv attempt.env).trustedSigner = .ok signer)
    (hkeys : (world.process history attempt.argv attempt.env).loadExistingKeys =
      .ok existingKeys)
    (hkeyId : (world.process history attempt.argv attempt.env).resolveNewKeyId
      (world.defaultKeyId history.started) existingKeys = .ok keyId) :
    ∃ rotated, world.signed history attempt = .ok rotated ∧
      rotated.existingKeys = existingKeys ∧ rotated.newKey.keyId = keyId := by
  obtain ⟨rotated, hrotate, hexisting⟩ := @rotate_of _ (world.generateKeyPair history.started) _
    (world.signedAt history.started) _ _ _ hsigner hkeys hkeyId
  have hread := keyId_of_rotate hrotate
  rw [hexisting, hkeyId] at hread
  exact ⟨rotated, hrotate, hexisting, (Except.ok.inj hread).symm⟩

theorem resolveBundleOutPath_keyWorld (history : History) (keyId : String) :
    (keyWorld.process history [] (keyEnv keyId)).resolveBundleOutPath =
      js "/data/public-key-bundle.json" := by
  have hresolve : keyWorld.paths.resolve (js "data/public-key-bundle.json") =
      js "/data/public-key-bundle.json" := by decide
  exact hresolve

theorem rotates_sample {history : History} {keyId : String} (fault : Option Fault)
    (hfresh : ∀ rotation ∈ history.rotations,
      rotation.rotated.newKey.keyId ≠ (js keyId).trim) :
    keyWorld.Rotates (js "/data/public-key-bundle.json") history (rotateTo keyId fault) where
  bundle := resolveBundleOutPath_keyWorld history keyId
  privateKey := rfl
  publicKey := rfl
  keyId := hfresh

theorem keyFiles_bundle : keyFiles (js "/data/public-key-bundle.json") = none :=
  if_neg (by decide)

def keyStart : History := { files := keyFiles, started := 0, rotations := [] }

theorem resolveNewKeyId_of {p : Process} {defaultKeyId : JsString}
    {existingKeys : List PublicKeyBundleEntry} (hne : p.requestedKeyId defaultKeyId ≠ [])
    (hnew : p.requestedKeyId defaultKeyId ∉ existingKeys.map (·.keyId)) :
    p.resolveNewKeyId defaultKeyId existingKeys = .ok (p.requestedKeyId defaultKeyId) := by
  unfold Process.resolveNewKeyId
  dsimp only
  unfold Process.requestedKeyId at hne hnew ⊢
  rw [if_neg hne, if_neg hnew]

theorem resolveBaseBundlePath_keyWorld (history : History) (keyId : String) :
    (keyWorld.process history [] (keyEnv keyId)).resolveBaseBundlePath =
      if (history.files (js "/data/public-key-bundle.json")).isSome then
        some (js "/data/public-key-bundle.json") else none := by
  unfold Process.resolveBaseBundlePath
  rw [resolveBundleOutPath_keyWorld]
  rfl

theorem loadExistingKeys_first (keyId : String) :
    (keyWorld.process keyStart [] (keyEnv keyId)).loadExistingKeys = .ok [] := by
  rw [Process.loadExistingKeys, resolveBaseBundlePath_keyWorld,
    show keyStart.files (js "/data/public-key-bundle.json") = none from keyFiles_bundle]
  rfl

theorem isSegment_sample : Paths.IsSegment (js "data") ∧
    Paths.IsSegment (js "public-key-bundle.json") :=
  ⟨⟨by decide, by decide, by decide, by decide⟩, ⟨by decide, by decide, by decide, by decide⟩⟩

theorem keyPath_keyWorld {suffix : String} (hsuffix : Paths.sep ∉ js suffix) (keyId : JsString) :
    keyPath keyWorld.paths (js "/data/public-key-bundle.json") suffix keyId =
      Paths.ofSegments [js "data", keyFileName suffix keyId] := by
  have hbundle : js "/data/public-key-bundle.json" =
      Paths.ofSegments ([js "data"] ++ [js "public-key-bundle.json"]) := rfl
  have hpaths : keyWorld.paths = nodePaths ⟨js "/", isAbsolute_rootDirectory⟩ := rfl
  rw [hbundle, hpaths, keyPath_ofSegments _ isSegment_sample.2 hsuffix]
  · rfl
  · intro s hs
    exact List.mem_singleton.mp hs ▸ isSegment_sample.1

/-- The key files are neither the bundle nor the trust root. -/
theorem keyPath_ne_sample {suffix : String} (hsuffix : Paths.sep ∉ js suffix)
    (keyId : JsString) :
    js "/data/public-key-bundle.json" ≠
        keyPath keyWorld.paths (js "/data/public-key-bundle.json") suffix keyId ∧
      js "/config/trust_root.json" ≠
        keyPath keyWorld.paths (js "/data/public-key-bundle.json") suffix keyId := by
  rw [keyPath_keyWorld hsuffix]
  constructor
  · intro h
    have hunit : some (112 : UInt16) = some 105 := congrArg (fun path => path[6]?) h
    exact absurd hunit (by decide)
  · intro h
    have hunit : some (99 : UInt16) = some 100 := congrArg (fun path => path[1]?) h
    exact absurd hunit (by decide)

/-- The first rotation, and what the next one reads. -/
theorem first_rotation {keyId : String} (hne : (js keyId).trim ≠ []) (next : String) :
    ∃ rotation, (keyWorld.attempts keyFiles [rotateTo keyId none]).rotations = [rotation] ∧
      rotation.rotated.newKey.keyId = (js keyId).trim ∧
      (keyWorld.process (keyWorld.attempts keyFiles [rotateTo keyId none]) []
        (keyEnv next)).trustedSigner = .ok (js "root.key", js "root") ∧
      (keyWorld.process (keyWorld.attempts keyFiles [rotateTo keyId none]) []
        (keyEnv next)).loadExistingKeys = .ok [rotation.rotated.newKey] := by
  have hkeyId := @resolveNewKeyId_of (keyWorld.process keyStart [] (keyEnv keyId))
    (keyWorld.defaultKeyId 0) [] hne List.not_mem_nil
  obtain ⟨rotated, hsigned, hexisting, hnew⟩ := @signed_of keyWorld keyStart (rotateTo keyId none)
    _ _ _ (trustedSigner_keyWorld rfl keyId) (loadExistingKeys_first keyId) hkeyId
  have hrotates := @rotates_sample keyStart keyId none fun rotation hrotation => by cases hrotation
  have hprivate := @keyPath_ne_sample ".pem" (by decide) rotated.newKey.keyId
  have hpublic := @keyPath_ne_sample ".pub.pem" (by decide) rotated.newKey.keyId
  have hbundleFile := bundle_attempt_of_completed hrotates hsigned rfl hprivate.1.symm
    hpublic.1.symm
  have hrootFile := files_attempt_of_ne hrotates hsigned rfl (by decide) hprivate.2 hpublic.2
  obtain ⟨hvalid, hnodup⟩ := keys_of_rotate hsigned (matches_keyWorld 0).publicKeyPem_ne_nil
  have hkeys := @loadExistingKeys_text keyWorld _ _ [] (keyEnv next) _
    (by rw [resolveBaseBundlePath_keyWorld, hbundleFile]; rfl) hbundleFile hvalid hnodup
  rw [RotatedBundle.keys, hexisting] at hkeys
  exact ⟨_, rotations_attempt_of_completed hsigned rfl, hnew,
    trustedSigner_keyWorld hrootFile next, hkeys⟩

theorem orderlyAttempt_of {keyId : String} {keys : List PublicKeyBundleEntry} {known : JsString}
    (hkeys : (keyWorld.process history [] (keyEnv keyId)).loadExistingKeys = .ok keys)
    (hknown : ∀ other ∈ knownKeyIds history keys, other = known)
    (hbase : (history.files (js "/data/public-key-bundle.json")).isSome ∨ keys = [])
    (hsanitized : Process.sanitizeKeyId known ≠ Process.sanitizeKeyId (js keyId).trim ∧
      Process.sanitizeKeyId known ≠ Process.sanitizeKeyId (js keyId).trim ++ js ".pub") :
    keyWorld.OrderlyAttempt (js "/data/public-key-bundle.json") history
      (rotateTo keyId none) := by
  intro _ existingKeys hexisting
  cases hkeys.symm.trans hexisting
  refine ⟨.inl rfl, ?_, ?_, (keyPath_ne_sample (by decide) _).1.symm, ?_⟩
  · intro other hother _
    obtain rfl := hknown other hother
    exact hsanitized
  · intro other _
    exact (keyPath_ne_sample (by decide) other).1.symm
  · rcases hbase with hsome | rfl
    · left
      have hpath := resolveBaseBundlePath_keyWorld history keyId
      rwa [if_pos hsome] at hpath
    · right
      intro key hkey
      cases hkey

/-- Two rotations to different names. -/
theorem keyFilesSound_attempts_sample :
    keyWorld.KeyFilesSound (js "/data/public-key-bundle.json")
      (keyWorld.attempts keyFiles [rotateTo "a" none, rotateTo "b" none]) := by
  obtain ⟨rotation, hrotations, hkeyId, -, hkeys⟩ := @first_rotation "a" (by decide) "b"
  have hprefix {earlier : List Attempt} {attempt : Attempt}
      (h : earlier ++ [attempt] <+: [rotateTo "a" none, rotateTo "b" none]) :
      earlier = [] ∧ attempt = rotateTo "a" none ∨
        earlier = [rotateTo "a" none] ∧ attempt = rotateTo "b" none := by
    rcases earlier with _ | ⟨first, _ | ⟨second, rest⟩⟩
    · exact .inl ⟨rfl, (List.cons_prefix_cons.mp h).1⟩
    · obtain ⟨rfl, hrest⟩ := List.cons_prefix_cons.mp h
      exact .inr ⟨rfl, (List.cons_prefix_cons.mp hrest).1⟩
    · exact absurd h.length_le (by simp)
  refine (keyFilesSound_attempts rfl matches_keyWorld ?_ ?_ ?_).1 _ List.prefix_rfl
  · rintro keys ⟨bytes, value, object, hbytes, -⟩
    cases keyFiles_bundle.symm.trans hbytes
  · intro earlier attempt h
    rcases hprefix h with ⟨rfl, rfl⟩ | ⟨rfl, rfl⟩
    · exact rotates_sample none fun rotation hrotation => by cases hrotation
    · refine rotates_sample none ?_
      rw [hrotations]
      intro other hother
      obtain rfl := List.mem_singleton.mp hother
      rw [hkeyId]
      decide
  · intro earlier attempt h
    rcases hprefix h with ⟨rfl, rfl⟩ | ⟨rfl, rfl⟩
    · exact @orderlyAttempt_of keyStart "a" [] (js "b") (loadExistingKeys_first "a")
        (fun other hother => by cases hother) (.inr rfl) (by decide)
    · refine @orderlyAttempt_of _ "b" _ (js "a") hkeys ?_ (.inl ?_) (by decide)
      · rw [knownKeyIds, hrotations]
        intro other hother
        rw [List.map_singleton, List.map_singleton, hkeyId] at hother
        rcases List.mem_append.mp hother with hother | hother
        · exact List.mem_singleton.mp hother
        · exact List.mem_singleton.mp hother
      · by_contra hnone
        have hbase := resolveBaseBundlePath_keyWorld
          (keyWorld.attempts keyFiles [rotateTo "a" none]) "b"
        rw [if_neg hnone] at hbase
        rw [Process.loadExistingKeys, hbase] at hkeys
        cases hkeys

/-- The second of two ids with one name takes the file of the first. -/
theorem not_keyFilesSound_clash :
    ¬keyWorld.KeyFilesSound (js "/data/public-key-bundle.json")
      (keyWorld.attempts keyFiles [rotateTo "a/b" none, rotateTo "a-b" none]) := by
  obtain ⟨rotation, hrotations, hkeyId, hsigner, hkeys⟩ := @first_rotation "a/b" (by decide)
    "a-b"
  have hfresh : (js "a-b").trim ∉ [rotation.rotated.newKey].map (·.keyId) := by
    rw [List.map_singleton, hkeyId, List.mem_singleton]
    decide
  have hne : (js "a-b").trim ≠ [] := by decide
  obtain ⟨rotated, hsigned, -, hnew⟩ := @signed_of keyWorld
    (keyWorld.attempts keyFiles [rotateTo "a/b" none]) (rotateTo "a-b" none) _ _ _ hsigner hkeys
    (resolveNewKeyId_of hne hfresh)
  have hsecond := rotations_attempt_of_completed hsigned rfl
  rw [hrotations] at hsecond
  have hshared : privateKeyPath keyWorld.paths (js "/data/public-key-bundle.json")
        (js "a/b").trim =
      privateKeyPath keyWorld.paths (js "/data/public-key-bundle.json") (js "a-b").trim := by
    have hsanitized : keyFileName ".pem" (js "a/b").trim = keyFileName ".pem" (js "a-b").trim := by
      decide
    rw [privateKeyPath, privateKeyPath, keyPath_keyWorld (by decide), keyPath_keyWorld (by decide),
      hsanitized]
  intro h
  obtain ⟨hapart, -, -⟩ := h
  have hrun : (keyWorld.attempts keyFiles
      [rotateTo "a/b" none, rotateTo "a-b" none]).rotations = _ := hsecond
  rw [hrun] at hapart
  have hdiffer := hapart rotation List.mem_cons_self _
    (List.mem_cons_of_mem _ List.mem_cons_self)
  dsimp only at hdiffer
  rw [hkeyId, hnew] at hdiffer
  exact hdiffer (by decide) hshared

/-- A bundle lists a key whose private key could not be written. -/
theorem not_keyFilesSound_fault :
    ¬keyWorld.KeyFilesSound (js "/data/public-key-bundle.json")
      (keyWorld.attempts keyFiles [rotateTo "a" (some (.privateKey none))]) := by
  have hne : (js "a").trim ≠ [] := by decide
  obtain ⟨rotated, hsigned, -, hnew⟩ := @signed_of keyWorld keyStart
    (rotateTo "a" (some (.privateKey none))) _ _ _ (trustedSigner_keyWorld rfl "a")
    (loadExistingKeys_first "a") (resolveNewKeyId_of hne List.not_mem_nil)
  have hrotates := @rotates_sample keyStart "a" (some (.privateKey none))
    fun rotation hrotation => by cases hrotation
  have hfiles : (keyWorld.attempts keyFiles [rotateTo "a" (some (.privateKey none))]).files = _ :=
    files_attempt_privateKey hrotates hsigned rfl
  have hpath : js "/data/public-key-bundle.json" ≠ privateKeyPath keyWorld.paths
      (js "/data/public-key-bundle.json") rotated.newKey.keyId :=
    (keyPath_ne_sample (by decide) _).1
  have hvalid := (keys_of_rotate hsigned (matches_keyWorld 0).publicKeyPem_ne_nil).1
  rintro ⟨-, -, hlisted⟩
  rw [hfiles] at hlisted
  have hbundle : Function.update (World.writeFile (js "/data/public-key-bundle.json")
      (encodeUtf8 rotated.text) keyFiles) (privateKeyPath keyWorld.paths
        (js "/data/public-key-bundle.json") rotated.newKey.keyId) none
        (js "/data/public-key-bundle.json") = some (encodeUtf8 rotated.text) := by
    rw [Function.update_of_ne hpath, World.writeFile, Function.update_self]
  obtain ⟨bytes, privateKey, hbytes, -⟩ := hlisted rotated.keys
    ((lists_text hvalid hbundle).mpr rfl) rotated.newKey
    (List.mem_append_right _ List.mem_cons_self)
  rw [Function.update_self] at hbytes
  cases hbytes

/-- **Lost keys.** Both kinds of attempts are rotations with default paths and ids of their own. -/
theorem private_key_lost :
    (∀ keyId fault,
      keyWorld.Rotates (js "/data/public-key-bundle.json") keyStart (rotateTo keyId fault)) ∧
    keyWorld.Rotates (js "/data/public-key-bundle.json")
      (keyWorld.attempts keyFiles [rotateTo "a/b" none]) (rotateTo "a-b" none) ∧
    ¬keyWorld.KeyFilesSound (js "/data/public-key-bundle.json")
      (keyWorld.attempts keyFiles [rotateTo "a/b" none, rotateTo "a-b" none]) ∧
    ¬keyWorld.KeyFilesSound (js "/data/public-key-bundle.json")
      (keyWorld.attempts keyFiles [rotateTo "a" (some (.privateKey none))]) := by
  refine ⟨?_, ?_, not_keyFilesSound_clash, not_keyFilesSound_fault⟩
  · intro keyId fault
    exact rotates_sample fault fun rotation hrotation => by cases hrotation
  · obtain ⟨rotation, hrotations, hkeyId, -, -⟩ := @first_rotation "a/b" (by decide)
      "a-b"
    refine rotates_sample none ?_
    rw [hrotations]
    intro other hother
    obtain rfl := List.mem_singleton.mp hother
    rw [hkeyId]
    decide

end MemphisOS.Incident
