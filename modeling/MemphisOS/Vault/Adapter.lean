import MemphisOS.Bridge.Envelope
import MemphisOS.Ecma.Base64
import MemphisOS.Ecma.Date
import MemphisOS.Vault.Native

/-!
# The vault adapter

The functions of the vault bridge as ECMAScript sees them, the adapter that keeps the active vault
in memory and in a state file, and the file of the entries that were saved.
-/

namespace MemphisOS.VaultAdapter

open Ecma Bridge MemphisVault

/-- What the adapter uses of the platform and of the native crates. -/
structure VaultHost extends Host where
  crates : VaultCrates

/-- A vault as it crosses the bridge, and as it is loaded. -/
structure JsVault where
  salt : List UInt8
  master_key : Option (List UInt8)
  masterKey : Option (List UInt8)
  deriving DecidableEq

/-- An entry as it crosses the bridge. -/
structure JsVaultEntry where
  id : JsString
  key : JsString
  ciphertext : List UInt8
  nonce : List UInt8
  tag : List UInt8
  createdAt : JsString

variable (host : VaultHost)

/-! ## The bridge -/

/-- `JsVault::to_inner`; the bridge knows the master key under its second name. -/
def JsVault.toInner (vault : JsVault) : Except JsString Vault :=
  match vault.masterKey with
  | none => .error (js "Missing field `masterKey`")
  | some masterKey =>
    match toBytes32 vault.salt, toBytes32 masterKey with
    | none, _ => .error (js "invalid salt size")
    | some _, none => .error (js "invalid master_key size")
    | some salt, some masterKey => .ok ⟨salt, masterKey⟩

def JsVaultEntry.toInner (entry : JsVaultEntry) : Except JsString MemphisVault.VaultEntry :=
  match host.crates.parseFromRfc3339 (wellFormed entry.createdAt) with
  | .error e => .error (js "invalid created_at: " ++ ofText e)
  | .ok createdAt => .ok
      { id := wellFormed entry.id
        key := wellFormed entry.key
        ciphertext := entry.ciphertext
        nonce := entry.nonce
        tag := entry.tag
        createdAt }

def toJsVaultEntry (entry : MemphisVault.VaultEntry) : JsVaultEntry where
  id := ofText entry.id
  key := ofText entry.key
  ciphertext := entry.ciphertext
  nonce := entry.nonce
  tag := entry.tag
  createdAt := ofText (host.crates.toRfc3339 entry.createdAt)

/-- `vaultInitFull`: the vault and the identity. -/
def bridgeInitFull (passphrase qaQuestion qaAnswer : JsString) (seeds : Seeds) :
    Except JsString (JsVault × JsString) := do
  let result ← (Vault.initFull host.crates (wellFormed passphrase) (wellFormed qaQuestion)
    (wellFormed qaAnswer) seeds).mapError fun e => ofText e.text
  return (⟨result.vault.salt.1, none, some result.vault.masterKey.1⟩, ofText result.did)

/-- `vaultStore`. -/
def bridgeStore (vault : JsVault) (key : JsString) (plaintext : List UInt8) (moment : Moment) :
    Except JsString JsVaultEntry := do
  let inner ← vault.toInner
  let entry ← (inner.store host.crates (wellFormed key) plaintext moment).mapError
    fun e => ofText e.text
  return toJsVaultEntry host entry

/-- `vaultRetrieve`. -/
def bridgeRetrieve (vault : JsVault) (entry : JsVaultEntry) : Except JsString (List UInt8) := do
  let inner ← vault.toInner
  let innerEntry ← entry.toInner host
  (inner.retrieve host.crates innerEntry).mapError fun e => ofText e.text

/-! ## The adapter -/

/-- What a call reads of its environment. -/
structure VaultEnv where
  /-- `RUST_CHAIN_ENABLED`. -/
  rustChainEnabled : Option Text
  /-- `MEMPHIS_VAULT_PEPPER`. -/
  pepper : Option Text
  bridgeLoads : Bool

def getBridgeOrThrow (env : VaultEnv) : Except JsString Unit :=
  if (env.rustChainEnabled.map host.toLowerCase) ≠ some "true".toList then
    .error (js "RUST_CHAIN_ENABLED=false")
  else if env.bridgeLoads = false then .error (js "rust vault bridge unavailable")
  else if (ofText (trim (env.pepper.getD []))).length < 12 then
    .error (js "MEMPHIS_VAULT_PEPPER missing or too short (min 12 chars)")
  else .ok ()

def getVaultMasterKey (vault : JsVault) : Except JsString (List UInt8) :=
  match vault.master_key.or vault.masterKey with
  | some key => .ok key
  | none => .error (js "vault state missing master key")

def normalizeVault (vault : JsVault) : Except JsString JsVault :=
  (getVaultMasterKey vault).map fun masterKey => ⟨vault.salt, some masterKey, some masterKey⟩

/-- The object of `serializeVaultState`. -/
def serializeVaultState (salt masterKey : List UInt8) : Plain :=
  .obj [(js "salt", .str (ofText (toBase64 salt))),
    (js "masterKey", .str (ofText (toBase64 masterKey)))]

/-- The bytes `persistVaultState` writes. -/
def persistVaultState (vault : JsVault) : Except JsString (List UInt8) :=
  (getVaultMasterKey vault).map fun masterKey =>
    encodeUtf8 (jsonText [' ', ' '] (serializeVaultState vault.salt masterKey))

/-- The argument is the state file, if there is one. -/
def loadPersistedVaultState (file : Option (List UInt8)) : Option JsVault := do
  let raw := decodeUtf8 (← file)
  if trim raw = [] then none
  let parsed ← parseJson raw
  let salt ← stringProperty parsed "salt"
  let masterKey ← stringProperty parsed "masterKey"
  if salt = [] ∨ masterKey = [] then none
  return ⟨fromBase64 salt, some (fromBase64 masterKey), none⟩

/-- The active vault after the call. -/
def getActiveVaultOrThrow (activeVault : Option JsVault) (stateFile : Option (List UInt8)) :
    Except JsString JsVault :=
  match activeVault.or (loadPersistedVaultState stateFile) with
  | none => .error (js "vault not initialized; run vault init first")
  | some vault => normalizeVault vault

structure VaultInitInput where
  passphrase : JsString
  recoveryQuestion : JsString
  recoveryAnswer : JsString

/-- An entry as the adapter returns it. -/
structure VaultEntry where
  key : JsString
  encrypted : JsString
  iv : JsString
  id : Option JsString
  tag : Option JsString
  createdAt : Option JsString

/-- The active vault, the state file and the identity after an initialisation. -/
def vaultInit (env : VaultEnv) (input : VaultInitInput) (seeds : Seeds) :
    Except JsString (JsVault × List UInt8 × JsString) := do
  getBridgeOrThrow host env
  let (vault, did) ←
    bridgeInitFull host input.passphrase input.recoveryQuestion input.recoveryAnswer seeds
  let activeVault ← normalizeVault vault
  let stateFile ← persistVaultState activeVault
  return (activeVault, stateFile, did)

/-- The entry of a plaintext and the active vault after the call. -/
def vaultEncrypt (env : VaultEnv) (activeVault : Option JsVault) (stateFile : Option (List UInt8))
    (key plaintext : JsString) (moment : Moment) : Except JsString (VaultEntry × JsVault) := do
  getBridgeOrThrow host env
  let vault ← getActiveVaultOrThrow activeVault stateFile
  let entry ← bridgeStore host vault key (encodeUtf8 (wellFormed plaintext)) moment
  return ({ key := entry.key
            encrypted := ofText (toBase64 entry.ciphertext)
            iv := ofText (toBase64 entry.nonce)
            id := some entry.id
            tag := some (ofText (toBase64 entry.tag))
            createdAt := some entry.createdAt }, vault)

/-- A string that is there and not empty. -/
def nonEmpty : Option JsString → Option JsString
  | some [] => none
  | s => s

/-- The current time is in milliseconds since the epoch. -/
def convertToJsVaultEntry (entry : VaultEntry) (now : ℤ) : Except JsString JsVaultEntry :=
  let tag := ((nonEmpty entry.tag).map fromBase64).getD []
  if tag = [] then
    .error (js "vault entry missing auth tag; re-add this secret with latest Memphis version")
  else .ok
    { id := match entry.id with
        | some id => if trim (wellFormed id) = [] then ofText ("entry-".toList ++ millisText now)
          else id
        | none => ofText ("entry-".toList ++ millisText now)
      key := entry.key
      ciphertext := fromBase64 entry.encrypted
      nonce := fromBase64 entry.iv
      tag
      createdAt := entry.createdAt.getD (ofText (isoText now)) }

/-- The plaintext of an entry and the active vault after the call. -/
def vaultDecrypt (env : VaultEnv) (activeVault : Option JsVault) (stateFile : Option (List UInt8))
    (entry : VaultEntry) (now : ℤ) : Except JsString (JsString × JsVault) := do
  getBridgeOrThrow host env
  let vault ← getActiveVaultOrThrow activeVault stateFile
  let jsEntry ← convertToJsVaultEntry entry now
  let plaintext ← bridgeRetrieve host vault jsEntry
  return (ofText (decodeUtf8 plaintext), vault)

/-! ## Saved entries -/

structure StoredVaultEntry extends VaultEntry where
  fingerprint : JsString

def StoredVaultEntry.value (stored : StoredVaultEntry) : Plain :=
  .obj ([(js "key", .str stored.key), (js "encrypted", .str stored.encrypted),
      (js "iv", .str stored.iv)] ++ optionalMember "id" (stored.id.map .str) ++
    optionalMember "tag" (stored.tag.map .str) ++
    optionalMember "createdAt" (stored.createdAt.map .str) ++
    [(js "fingerprint", .str stored.fingerprint)])

/-- The digest of the properties that are hashed; those that are missing are left out. -/
def computeFingerprint (item : Plain) : JsString :=
  ofText (host.sha256 (jsonText [] (.obj (["key", "encrypted", "iv"].filterMap fun name =>
    (property item name).map (js name, ·)))))

/-- The properties `{ ...value }` has. -/
def spread : Plain → List (JsString × Plain)
  | .obj ms => ms
  | .arr vs => vs.mapIdx fun i v => (ofText (digits i), v)
  | .str s => s.mapIdx fun i u => (ofText (digits i), .str [u])
  | _ => []

/-- A record with its fingerprint; reading a property of `null` throws. -/
def normalizeItem : Plain → Option Plain
  | .null => none
  | item =>
    let fingerprint := (nonEmpty (stringProperty item "fingerprint")).getD
      (computeFingerprint host item)
    some (.obj (setMember (js "fingerprint") (.str fingerprint) (spread item)))

/-- The argument is the file of the entries, if there is one. -/
def readAll (file : Option (List UInt8)) : List Plain :=
  match file with
  | none => []
  | some bytes =>
    if trim (decodeUtf8 bytes) = [] then []
    else
      match parseJson (decodeUtf8 bytes) with
      | some (.arr items) => (items.mapM (normalizeItem host)).getD []
      | _ => []

/-- The bytes `writeAll` writes. -/
def writeAll (entries : List Plain) : List UInt8 := encodeUtf8 (jsonText [' ', ' '] (.arr entries))

/-- The entry that is stored. -/
def VaultEntry.stored (entry : VaultEntry) (now : ℤ) : StoredVaultEntry where
  toVaultEntry := { entry with createdAt := some (entry.createdAt.getD (ofText (isoText now))) }
  fingerprint := computeFingerprint host (.obj [(js "key", .str entry.key),
    (js "encrypted", .str entry.encrypted), (js "iv", .str entry.iv)])

/-- The stored entry and the file of the entries after the call. -/
def saveVaultEntry (file : Option (List UInt8)) (entry : VaultEntry) (now : ℤ) :
    StoredVaultEntry × List UInt8 :=
  let stored := entry.stored host now
  (stored, writeAll (readAll host file ++ [stored.value]))

end MemphisOS.VaultAdapter
