import MemphisOS.Files.Paths
import MemphisOS.Incident.RotationOutput

/-!
# The files of a rotation

A rotation writes the bundle, then the private and then the public key, and may fail before or
while it writes one. Without paths of their own the key files stand next to the bundle, under names
that are made of the key id.
-/

namespace MemphisOS.Incident

open Ecma Bridge Files

/-! ## File names -/

/-- The path module of a process in a directory. -/
def nodePaths (cwd : Paths.WorkingDirectory) : PathFunctions where
  resolve path := Paths.resolve cwd [path]
  resolveFrom base path := Paths.resolve cwd [base, path]
  dirname := Paths.dirname
  isAbsolute := Paths.isAbsolute

/-- The default name of a key file. -/
def keyFileName (suffix : String) (keyId : JsString) : JsString :=
  js "incident-signing-" ++ Process.sanitizeKeyId keyId ++ js suffix

/-- The default path of a key file. -/
def keyPath (paths : PathFunctions) (bundlePath : JsString) (suffix : String) (keyId : JsString) :
    JsString :=
  paths.resolveFrom (paths.dirname bundlePath) (keyFileName suffix keyId)

def privateKeyPath (paths : PathFunctions) (bundlePath keyId : JsString) : JsString :=
  keyPath paths bundlePath ".pem" keyId

def publicKeyPath (paths : PathFunctions) (bundlePath keyId : JsString) : JsString :=
  keyPath paths bundlePath ".pub.pem" keyId

variable {cwd : Paths.WorkingDirectory} {bundlePath given keyId keyId' : JsString}
  {suffix suffix' : String}

theorem sep_not_mem_sanitizeKeyId (keyId : JsString) :
    Paths.sep ∉ Process.sanitizeKeyId keyId := by
  intro hmem
  obtain ⟨u, -, hu⟩ := List.mem_map.mp hmem
  split at hu
  · next hsafe =>
    rw [hu] at hsafe
    exact absurd hsafe (by decide)
  · exact absurd hu (by decide)

theorem isSegment_keyFileName (hsuffix : Paths.sep ∉ js suffix) (keyId : JsString) :
    Paths.IsSegment (keyFileName suffix keyId) where
  ne_nil := List.cons_ne_nil _ _
  no_sep := by
    rw [keyFileName, List.mem_append, List.mem_append, not_or, not_or]
    exact ⟨⟨by decide, sep_not_mem_sanitizeKeyId keyId⟩, hsuffix⟩
  ne_dot h := absurd (List.cons.inj h).1 (by decide)
  ne_dots h := absurd (List.cons.inj h).1 (by decide)

/-- The directory of a resolved path. -/
theorem exists_dirname_eq (cwd : Paths.WorkingDirectory) (given : JsString) :
    ∃ segments, (∀ s ∈ segments, Paths.IsSegment s) ∧
      Paths.dirname (Paths.resolve cwd [given]) = Paths.ofSegments segments := by
  obtain ⟨segments, hsegments, hpath⟩ := Paths.exists_resolve_eq cwd [given]
  rcases List.eq_nil_or_concat' segments with rfl | ⟨init, last, rfl⟩
  · exact ⟨[], hsegments, by rw [hpath]; rfl⟩
  · have hinit : ∀ s ∈ init, Paths.IsSegment s := fun s hs =>
      hsegments s (List.mem_append_left _ hs)
    have hdirname := Paths.dirname_ofSegments hinit
      (hsegments last (List.mem_append_right _ List.mem_cons_self)) (.inl rfl)
    rw [List.append_nil] at hdirname
    exact ⟨init, hinit, by rw [hpath, hdirname]⟩

/-- A key file stands next to the bundle. -/
theorem keyPath_ofSegments {segments : List JsString} {name : JsString}
    (h : ∀ s ∈ segments, Paths.IsSegment s) (hname : Paths.IsSegment name)
    (hsuffix : Paths.sep ∉ js suffix) (keyId : JsString) :
    keyPath (nodePaths cwd) (Paths.ofSegments (segments ++ [name])) suffix keyId =
      Paths.ofSegments (segments ++ [keyFileName suffix keyId]) := by
  have hdirname := Paths.dirname_ofSegments h hname (.inl rfl)
  rw [List.append_nil] at hdirname
  change Paths.resolve cwd [Paths.dirname (Paths.ofSegments (segments ++ [name])), _] = _
  rw [hdirname]
  exact Paths.resolve_child h (isSegment_keyFileName hsuffix keyId)

/-- A bundle whose name does not begin as theirs is no key file. -/
theorem keyPath_ne_bundle {segments : List JsString} {name : JsString}
    (h : ∀ s ∈ segments, Paths.IsSegment s) (hname : Paths.IsSegment name)
    (hother : ¬js "incident-signing-" <+: name) (hsuffix : Paths.sep ∉ js suffix)
    (keyId : JsString) :
    keyPath (nodePaths cwd) (Paths.ofSegments (segments ++ [name])) suffix keyId ≠
      Paths.ofSegments (segments ++ [name]) := by
  rw [keyPath_ofSegments h hname hsuffix]
  intro heq
  refine hother ?_
  rw [← Paths.ofSegments_concat_inj heq, keyFileName, List.append_assoc]
  exact List.prefix_append _ _

/-- Two key files are one exactly when their names are. -/
theorem keyPath_eq_iff (hsuffix : Paths.sep ∉ js suffix) (hsuffix' : Paths.sep ∉ js suffix') :
    keyPath (nodePaths cwd) ((nodePaths cwd).resolve given) suffix keyId =
        keyPath (nodePaths cwd) ((nodePaths cwd).resolve given) suffix' keyId' ↔
      Process.sanitizeKeyId keyId ++ js suffix = Process.sanitizeKeyId keyId' ++ js suffix' := by
  obtain ⟨segments, hsegments, hdirname⟩ := exists_dirname_eq cwd given
  have hpath {suffix : String} (h : Paths.sep ∉ js suffix) (keyId : JsString) :
      keyPath (nodePaths cwd) ((nodePaths cwd).resolve given) suffix keyId =
        Paths.ofSegments (segments ++ [keyFileName suffix keyId]) := by
    change Paths.resolve cwd [Paths.dirname (Paths.resolve cwd [given]), _] = _
    rw [hdirname]
    exact Paths.resolve_child hsegments (isSegment_keyFileName h keyId)
  rw [hpath hsuffix, hpath hsuffix']
  constructor
  · intro h
    have hname := Paths.ofSegments_concat_inj h
    rw [keyFileName, keyFileName, List.append_assoc, List.append_assoc] at hname
    exact List.append_cancel_left hname
  · intro h
    rw [keyFileName, keyFileName, List.append_assoc, List.append_assoc, h]

/-- **Clashes.** Two key ids share their private key file exactly when they are sanitised to one
text. -/
theorem privateKeyPath_eq_iff :
    privateKeyPath (nodePaths cwd) ((nodePaths cwd).resolve given) keyId =
        privateKeyPath (nodePaths cwd) ((nodePaths cwd).resolve given) keyId' ↔
      Process.sanitizeKeyId keyId = Process.sanitizeKeyId keyId' := by
  rw [privateKeyPath, privateKeyPath, keyPath_eq_iff (by decide) (by decide),
    List.append_cancel_right_eq]

/-- The private key file of an id that ends in `.pub` is the public key file of another. -/
theorem privateKeyPath_eq_publicKeyPath_iff :
    privateKeyPath (nodePaths cwd) ((nodePaths cwd).resolve given) keyId =
        publicKeyPath (nodePaths cwd) ((nodePaths cwd).resolve given) keyId' ↔
      Process.sanitizeKeyId keyId = Process.sanitizeKeyId keyId' ++ js ".pub" := by
  have hsuffix : js ".pub.pem" = js ".pub" ++ js ".pem" := rfl
  rw [privateKeyPath, publicKeyPath, keyPath_eq_iff (by decide) (by decide), hsuffix,
    ← List.append_assoc, List.append_cancel_right_eq]

/-! ## Attempts -/

/-- Where a rotation fails once its bundle is signed, with what a failing write leaves of its
file. -/
inductive Fault where
  | directories
  | bundle (left : Option (List UInt8))
  | privateKey (left : Option (List UInt8))
  | publicKey (left : Option (List UInt8))

/-- A run of the rotation script, and what goes wrong in it. -/
structure Attempt where
  argv : List JsString
  env : String → Option JsString
  fault : Option Fault

/-- The key id a process is asked for. -/
def Process.requestedKeyId (p : Process) (defaultKeyId : JsString) : JsString :=
  ((((p.parseArg "--new-key-id").or (p.parseArg "--key-id")).or
    (p.env "MEMPHIS_INCIDENT_ROTATE_NEW_KEY_ID")).getD defaultKeyId).trim

namespace World

/-- The files after the writes of a rotation, up to the one that fails. -/
def writeFiles (rotation : Rotation) (keyPair : KeyPair) (fault : Option Fault)
    (files : JsString → Option (List UInt8)) : JsString → Option (List UInt8) :=
  let p := rotation.process
  let keyId := rotation.rotated.newKey.keyId
  let withBundle := writeFile p.resolveBundleOutPath (encodeUtf8 rotation.rotated.text) files
  let withPrivateKey := writeFile (p.resolveNewPrivateKeyOutPath keyId)
    (bytesOf keyPair.privateKeyPem) withBundle
  match fault with
  | none => writeRotation rotation keyPair files
  | some .directories => files
  | some (.bundle left) => Function.update files p.resolveBundleOutPath left
  | some (.privateKey left) =>
    Function.update withBundle (p.resolveNewPrivateKeyOutPath keyId) left
  | some (.publicKey left) =>
    Function.update withPrivateKey (p.resolveNewPublicKeyOutPath keyId) left

variable (world : World)

/-- The bundle an attempt signs. -/
def signed (history : History) (attempt : Attempt) : Except JsString RotatedBundle :=
  let n := history.started
  (world.process history attempt.argv attempt.env).rotate (world.generateKeyPair n)
    (world.defaultKeyId n) (world.signedAt n)

def attempt (history : History) (attempt : Attempt) : History :=
  let n := history.started
  match world.signed history attempt with
  | .error _ => { history with started := n + 1 }
  | .ok rotated =>
    let rotation : Rotation :=
      { process := world.process history attempt.argv attempt.env, rotated }
    { files := writeFiles rotation (world.generateKeyPair n) attempt.fault history.files
      started := n + 1
      rotations :=
        if attempt.fault.isNone then history.rotations ++ [rotation] else history.rotations }

/-- The history after some attempts, from any files. -/
def attempts (files : JsString → Option (List UInt8)) (as : List Attempt) : History :=
  as.foldl world.attempt { files, started := 0, rotations := [] }

/-- The script reports an error. -/
def Failed (history : History) (attempt : Attempt) : Prop :=
  (∃ message, world.signed history attempt = .error message) ∨ attempt.fault ≠ none

/-! ## Keys on disk -/

/-- The private key of a listed key is on disk, in the file of the key. -/
def HasPrivateKey (bundlePath : JsString) (files : JsString → Option (List UInt8))
    (key : PublicKeyBundleEntry) : Prop :=
  ∃ bytes privateKey,
    files (privateKeyPath world.paths bundlePath key.keyId) = some bytes ∧
      world.crypto.createPrivateKey (ofText (decodeUtf8 bytes)) = .ok privateKey ∧
      world.crypto.exportPublicKey privateKey = key.publicKeyPem

end World

/-- The keys a bundle file lists. -/
def Lists (files : JsString → Option (List UInt8)) (bundlePath : JsString)
    (keys : List PublicKeyBundleEntry) : Prop :=
  ∃ bytes value object, files bundlePath = some bytes ∧
    parseJson (decodeUtf8 bytes) = some value ∧ parseKeys (some value) = .ok (object, keys)

/-- Key ids have private key files of their own, with the private keys of the rotations and of
what the bundle lists in them. -/
structure World.KeyFilesSound (world : World) (bundlePath : JsString) (history : History) :
    Prop where
  apart : ∀ rotation ∈ history.rotations, ∀ other ∈ history.rotations,
    rotation.rotated.newKey.keyId ≠ other.rotated.newKey.keyId →
      privateKeyPath world.paths bundlePath rotation.rotated.newKey.keyId ≠
        privateKeyPath world.paths bundlePath other.rotated.newKey.keyId
  kept : ∀ rotation ∈ history.rotations,
    world.HasPrivateKey bundlePath history.files rotation.rotated.newKey
  listed : ∀ keys, Lists history.files bundlePath keys →
    ∀ key ∈ keys, world.HasPrivateKey bundlePath history.files key

end MemphisOS.Incident
