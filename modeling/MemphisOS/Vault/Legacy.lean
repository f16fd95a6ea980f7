import MemphisOS.Bridge.Envelope
import MemphisOS.Ecma.Documents
import MemphisOS.Vault.Durability

/-!
# The first vault functions

`vault_encrypt` and `vault_decrypt` of `memphis-napi`, kept for callers that know no vault. Each
derives a key of its own, and the entry travels between them as JSON.
-/

namespace MemphisVault.Legacy

open Ecma MemphisCore Serde

/-- What the two functions use of other crates besides the ciphers and digests. -/
structure LegacyCrates extends VaultCrates where
  /-- How `chrono` serialises a `DateTime<Utc>`, in nanoseconds since the epoch. -/
  serializeDateTime : ℤ → Text
  deserializeDateTime : Text → Option ℤ
  deserialize_serialize : ∀ t, ∃ t', deserializeDateTime (serializeDateTime t) = some t'
  /-- The message of the error `serde_json` raises on a text that is no `VaultEntry`. -/
  serdeMessage : Text → Text

/-- `[0u8; 32]`. -/
def zeroSalt : Bytes32 := ⟨List.replicate 32 0, List.length_replicate⟩

variable (crates : LegacyCrates)

/-- `derive_master_key` of `vault.rs`. -/
def deriveMasterKey (pepper : Text) : Except VaultError Bytes32 := do
  if MemphisCore.trim pepper = [] then throw (.invalidConfig "pepper cannot be empty")
  MemphisVault.deriveMasterKey crates.toVaultCrates pepper zeroSalt

def encryptEntry (plaintext : List UInt8) (key : Bytes32) (moment : Moment) :
    Except VaultError VaultEntry := do
  let combinedCiphertext ← (crates.aead.encrypt key moment.nonce plaintext).mapError .encryption
  if combinedCiphertext.length < 16 then throw (.encryption "ciphertext too short".toList)
  let split := combinedCiphertext.length - 16
  let entry : VaultEntry :=
    { id := "entry-".toList ++ millisText moment.millis
      key := "legacy".toList
      ciphertext := combinedCiphertext.take split
      nonce := moment.nonce.1
      tag := combinedCiphertext.drop split
      createdAt := moment.nanos }
  entry.validate.mapError fun _ => .invalidConfig "generated entry is invalid"
  return entry

def decryptEntry (entry : VaultEntry) (key : Bytes32) : Except VaultError (List UInt8) :=
  match toBytes12 entry.nonce with
  | none => .error (.invalidConfig "nonce must be exactly 12 bytes")
  | some nonce =>
    (crates.aead.decrypt key nonce (entry.ciphertext ++ entry.tag)).mapError .decryption

/-! ## Entries as JSON -/

def bytesValue (bytes : List UInt8) : Json ℕ := .arr (bytes.map fun b => .num b.toNat)

/-- The serialised entry. -/
def entryValue (entry : VaultEntry) : Json ℕ :=
  .obj [(js "id", MemphisCore.jsonText entry.id), (js "key", MemphisCore.jsonText entry.key),
    (js "ciphertext", bytesValue entry.ciphertext), (js "nonce", bytesValue entry.nonce),
    (js "tag", bytesValue entry.tag),
    (js "created_at", MemphisCore.jsonText (crates.serializeDateTime entry.createdAt))]

/-- `key` may be missing from an object. -/
def readVaultEntry : Decoder VaultEntry := fun v => do
  let [id, key, ciphertext, nonce, tag, createdAt] ←
    fields ["id", "key", "ciphertext", "nonce", "tag", "created_at"] 0 v | none
  return ⟨← id.bind string, ← key.elim (some []) string, ← ciphertext.bind (sequence u8),
    ← nonce.bind (sequence u8), ← tag.bind (sequence u8),
    ← (createdAt.bind string).bind crates.deserializeDateTime⟩

/-! ## Exports -/

def vaultEncrypt (key plaintext : Text) (moment : Moment) : Text :=
  match deriveMasterKey crates key with
  | .error e => err ("vault_encrypt_failed: ".toList ++ e.text)
  | .ok derivedKey =>
    match encryptEntry crates (encodeUtf8 plaintext) derivedKey moment with
    | .error e => err ("vault_encrypt_failed: ".toList ++ e.text)
    | .ok entry => ok (entryValue crates entry)

def runtimePepper : Text := "runtime-pepper".toList

def plaintextValue (plaintext : Text) : Json ℕ :=
  .obj [(js "plaintext", MemphisCore.jsonText plaintext)]

def vaultDecrypt (entryJson : Text) : Text :=
  match (Serde.parse entryJson).bind (readVaultEntry crates) with
  | none => err ("invalid_vault_entry_json: ".toList ++ crates.serdeMessage entryJson)
  | some entry =>
    match deriveMasterKey crates runtimePepper with
    | .error e => err ("vault_decrypt_failed: ".toList ++ e.text)
    | .ok derivedKey =>
      match decryptEntry crates entry derivedKey with
      | .error e => err ("vault_decrypt_failed: ".toList ++ e.text)
      | .ok plaintext => ok (plaintextValue (decodeUtf8 plaintext))

open MemphisOS.Bridge in
/-- The entry of a successful answer, as a caller writes it: `JSON.stringify(out.data)`. -/
def returnedEntry (raw : Text) : Option Text := do
  let out ← parseJson raw
  if truthy (property out "ok") then (property out "data").map (Ecma.jsonText []) else none

/-- Decryption of the returned entry, if one was returned, answers with the plaintext. -/
def RoundTrips (key plaintext : Text) (moment : Moment) : Prop :=
  ∀ entryJson, returnedEntry (vaultEncrypt crates key plaintext moment) = some entryJson →
    vaultDecrypt crates entryJson = ok (plaintextValue plaintext)

/-! ## The entry on its way -/

variable {crates} {key plaintext : Text} {moment : Moment} {masterKey : Bytes32}
  {combined : List UInt8}

/-- The text of bytes is read as the bytes. -/
theorem sent_bytes (bytes : List UInt8) :
    (jsonImage (own ((bytesValue bytes).mapNumbers .ofNat))).mapNumbers numberText =
      .arr (bytes.map fun b => .num (digits b.toNat)) := by
  have hbyte : ∀ b : UInt8,
      (jsonImage (.num (.ofNat b.toNat))).mapNumbers numberText = .num (digits b.toNat) := by
    intro b
    have hlt : b.toNat < 2 ^ 53 := b.toNat_lt.trans (by norm_num)
    rw [jsonImage_ofNat hlt]
    exact congrArg Json.num (numberText_ofNat hlt)
  rw [bytesValue, Json.mapNumbers_arr, own_arr, jsonImage_arr, Json.mapNumbers_arr]
  simp only [List.map_map]
  exact congrArg Json.arr (List.map_congr_left fun b _ => hbyte b)

theorem read_bytes (bytes : List UInt8) :
    sequence u8 (.arr (bytes.map fun b => .num (digits b.toNat))) = some bytes := by
  have hread := @mapM_eq_some_map _ _ _ (fun b : UInt8 => (.num (digits b.toNat) : Document)) u8 id
    bytes fun b _ => u8_digits b
  rw [List.map_id] at hread
  exact hread

/-- The entry as a caller sends it back. -/
def sentEntry (crates : LegacyCrates) (entry : VaultEntry) : Text :=
  Ecma.jsonText [] (own ((entryValue crates entry).mapNumbers .ofNat))

/-- The entry that is sent back is read; only its date may have been rounded. -/
theorem read_sentEntry (entry : VaultEntry) : ∃ createdAt,
    (Serde.parse (sentEntry crates entry)).bind (readVaultEntry crates) =
      some { entry with createdAt } := by
  obtain ⟨createdAt, hdate⟩ := crates.deserialize_serialize entry.createdAt
  have hown : own ((entryValue crates entry).mapNumbers .ofNat) =
      .obj [(js "id", .str (ofText entry.id)), (js "key", .str (ofText entry.key)),
        (js "ciphertext", own ((bytesValue entry.ciphertext).mapNumbers .ofNat)),
        (js "nonce", own ((bytesValue entry.nonce).mapNumbers .ofNat)),
        (js "tag", own ((bytesValue entry.tag).mapNumbers .ofNat)),
        (js "created_at", .str (ofText (crates.serializeDateTime entry.createdAt)))] := by
    rw [entryValue, Json.mapNumbers_obj, own_obj_of_inOwnOrder]
    · rfl
    · exact show InOwnOrder [js "id", js "key", js "ciphertext", js "nonce", js "tag",
        js "created_at"] from ⟨by decide, by decide⟩
  have hsent : (jsonImage (own ((entryValue crates entry).mapNumbers .ofNat))).mapNumbers
      numberText = .obj [(js "id", .str (ofText entry.id)), (js "key", .str (ofText entry.key)),
        (js "ciphertext", .arr (entry.ciphertext.map fun b => .num (digits b.toNat))),
        (js "nonce", .arr (entry.nonce.map fun b => .num (digits b.toNat))),
        (js "tag", .arr (entry.tag.map fun b => .num (digits b.toNat))),
        (js "created_at", .str (ofText (crates.serializeDateTime entry.createdAt)))] := by
    rw [hown]
    simp only [jsonImage_obj, Json.mapNumbers_obj, List.map_cons, List.map_nil, sent_bytes,
      jsonImage_str]
    rfl
  refine ⟨createdAt, ?_⟩
  rw [sentEntry, Serde.parse_jsonText (by simp [Json.Blank]), Option.bind_some, hsent,
    readVaultEntry, fields_obj 0 rfl (by decide)]
  simp [read_bytes, hdate]

theorem ok_ne_err (data : Json ℕ) (message : Text) : MemphisCore.ok data ≠ err message := by
  intro h
  have hread := congrArg parseJson h
  rw [MemphisCore.ok, err, MemphisOS.Bridge.parseJson_respond,
    MemphisOS.Bridge.parseJson_respond] at hread
  injection hread with hvalue
  injection hvalue with hmembers
  simp at hmembers

open MemphisOS.Bridge in
theorem returnedEntry_ok (data : Json ℕ) : returnedEntry (MemphisCore.ok data) =
    some (Ecma.jsonText [] (own (data.mapNumbers .ofNat))) := by
  rw [returnedEntry, MemphisCore.ok, parseJson_respond]
  rfl

open MemphisOS.Bridge in
theorem returnedEntry_err (message : Text) : returnedEntry (err message) = none := by
  rw [returnedEntry, err, parseJson_respond]
  rfl

/-! ## Encryption and decryption -/

/-- What the encryption needs of its arguments, with the key it derives and what it seals. -/
structure Accepts (crates : LegacyCrates) (key plaintext : Text) (moment : Moment)
    (masterKey : Bytes32) (combined : List UInt8) : Prop where
  named : MemphisCore.trim key ≠ []
  derived : crates.hashPassword (encodeUtf8 key) zeroSalt = .ok masterKey
  encrypted : crates.aead.encrypt masterKey moment.nonce (encodeUtf8 plaintext) = .ok combined
  long : 16 < combined.length

/-- The entry that is made of a combined ciphertext. -/
def legacyEntry (moment : Moment) (combined : List UInt8) : VaultEntry where
  id := "entry-".toList ++ millisText moment.millis
  key := "legacy".toList
  ciphertext := combined.take (combined.length - 16)
  nonce := moment.nonce.1
  tag := combined.drop (combined.length - 16)
  createdAt := moment.nanos

theorem validate_legacyEntry_iff (h : 16 ≤ combined.length) :
    (legacyEntry moment combined).validate = .ok () ↔ 16 < combined.length := by
  have hnonce : moment.nonce.1 ≠ [] := List.ne_nil_of_length_pos (by rw [moment.nonce.2]; omega)
  rw [validate_eq_ok]
  constructor
  · rintro ⟨-, hciphertext, -, -⟩
    have hlength := List.length_pos_of_ne_nil hciphertext
    rw [legacyEntry, List.length_take] at hlength
    omega
  · intro hlong
    refine ⟨trim_entryId_ne_nil _, ?_, hnonce, ?_⟩
    · refine List.ne_nil_of_length_pos ?_
      rw [legacyEntry, List.length_take]
      omega
    · refine List.ne_nil_of_length_pos ?_
      rw [legacyEntry, List.length_drop]
      omega

theorem deriveMasterKey_eq_ok {pepper : Text} {derived : Bytes32} :
    deriveMasterKey crates pepper = .ok derived ↔
      MemphisCore.trim pepper ≠ [] ∧
        crates.hashPassword (encodeUtf8 pepper) zeroSalt = .ok derived := by
  constructor
  · intro h
    obtain ⟨hpepper, h⟩ := ok_of_unless h
    exact ⟨hpepper, ok_of_mapError h⟩
  · rintro ⟨hpepper, hderived⟩
    rw [deriveMasterKey, if_neg hpepper, MemphisVault.deriveMasterKey, hderived]
    rfl

theorem encryptEntry_eq_ok {plaintext : List UInt8} {entry : VaultEntry} :
    encryptEntry crates plaintext masterKey moment = .ok entry ↔
      ∃ combined, crates.aead.encrypt masterKey moment.nonce plaintext = .ok combined ∧
        16 < combined.length ∧ entry = legacyEntry moment combined := by
  constructor
  · intro h
    unfold encryptEntry at h
    obtain ⟨combined, hencrypt, h⟩ := ok_of_bind h
    obtain ⟨hlength, h⟩ := ok_of_unless h
    obtain ⟨_, hvalid, h⟩ := ok_of_bind h
    cases h
    exact ⟨combined, ok_of_mapError hencrypt,
      (validate_legacyEntry_iff (by omega)).mp (ok_of_mapError hvalid), rfl⟩
  · rintro ⟨combined, hencrypt, hlong, rfl⟩
    have hvalid := (@validate_legacyEntry_iff moment _ (by omega)).mpr hlong
    rw [legacyEntry] at hvalid
    rw [encryptEntry, hencrypt, Except.mapError, bind_of_ok rfl, if_neg (by omega)]
    simp only [hvalid]
    rfl

/-- The answer of an encryption that is accepted. -/
theorem vaultEncrypt_of_accepts (h : Accepts crates key plaintext moment masterKey combined) :
    returnedEntry (vaultEncrypt crates key plaintext moment) =
      some (sentEntry crates (legacyEntry moment combined)) := by
  have hentry : encryptEntry crates (encodeUtf8 plaintext) masterKey moment =
      .ok (legacyEntry moment combined) := encryptEntry_eq_ok.mpr ⟨_, h.encrypted, h.long, rfl⟩
  rw [vaultEncrypt, deriveMasterKey_eq_ok.mpr ⟨h.named, h.derived⟩]
  simp only [hentry]
  exact returnedEntry_ok _

/-- An encryption that returns an entry was accepted. -/
theorem accepts_of_returned {entryJson : Text}
    (h : returnedEntry (vaultEncrypt crates key plaintext moment) = some entryJson) :
    ∃ masterKey combined, Accepts crates key plaintext moment masterKey combined ∧
      entryJson = sentEntry crates (legacyEntry moment combined) := by
  cases hderived : deriveMasterKey crates key with
  | error e =>
    rw [vaultEncrypt, hderived, returnedEntry_err] at h
    cases h
  | ok masterKey =>
    cases hentry : encryptEntry crates (encodeUtf8 plaintext) masterKey moment with
    | error e =>
      rw [vaultEncrypt, hderived] at h
      simp only [hentry] at h
      rw [returnedEntry_err] at h
      cases h
    | ok entry =>
      obtain ⟨combined, hencrypt, hlong, rfl⟩ := encryptEntry_eq_ok.mp hentry
      obtain ⟨hkey, hhash⟩ := deriveMasterKey_eq_ok.mp hderived
      have haccepts : Accepts crates key plaintext moment masterKey combined :=
        ⟨hkey, hhash, hencrypt, hlong⟩
      rw [vaultEncrypt_of_accepts haccepts] at h
      exact ⟨masterKey, combined, haccepts, (Option.some.inj h).symm⟩

theorem trim_runtimePepper : MemphisCore.trim runtimePepper ≠ [] := by
  decide

/-- The key that decrypts, whatever key has encrypted. -/
theorem decryptEntry_legacyEntry (createdAt : ℤ) (derived : Bytes32) :
    decryptEntry crates { legacyEntry moment combined with createdAt } derived =
      (crates.aead.decrypt derived moment.nonce combined).mapError .decryption := by
  have hnonce : toBytes12 moment.nonce.1 = some moment.nonce := by
    rw [toBytes12, dif_pos moment.nonce.2]
  rw [decryptEntry]
  simp only [legacyEntry, hnonce, List.take_append_drop]

/-- What was sealed under the key of the runtime pepper is decrypted. -/
theorem vaultDecrypt_same (h : Accepts crates key plaintext moment masterKey combined)
    (hruntime : crates.hashPassword (encodeUtf8 runtimePepper) zeroSalt = .ok masterKey) :
    vaultDecrypt crates (sentEntry crates (legacyEntry moment combined)) =
      ok (plaintextValue plaintext) := by
  obtain ⟨createdAt, hread⟩ := @read_sentEntry crates (legacyEntry moment combined)
  rw [vaultDecrypt, hread, deriveMasterKey_eq_ok.mpr ⟨trim_runtimePepper, hruntime⟩]
  simp only [decryptEntry_legacyEntry, crates.aead.decrypt_encrypt _ _ _ _ h.encrypted,
    Except.mapError, decodeUtf8_encodeUtf8]

/-- What was sealed under another key is refused. -/
theorem vaultDecrypt_other (h : Accepts crates key plaintext moment masterKey combined)
    (hruntime : crates.hashPassword (encodeUtf8 runtimePepper) zeroSalt ≠ .ok masterKey) :
    ∃ message, vaultDecrypt crates (sentEntry crates (legacyEntry moment combined)) =
      err message := by
  obtain ⟨createdAt, hread⟩ := @read_sentEntry crates (legacyEntry moment combined)
  rw [vaultDecrypt, hread]
  cases hderived : deriveMasterKey crates runtimePepper with
  | error e => exact ⟨_, rfl⟩
  | ok derived =>
    have hne : derived ≠ masterKey := by
      rintro rfl
      exact hruntime (deriveMasterKey_eq_ok.mp hderived).2
    obtain ⟨message, hdecrypt⟩ := crates.aead.decrypt_other _ _ _ _ _ h.encrypted hne
    simp only [decryptEntry_legacyEntry, hdecrypt, Except.mapError]
    exact ⟨_, rfl⟩

/-- **The round trip.** An entry is decrypted exactly when the key name it was encrypted under
derives the key of the runtime pepper. -/
theorem roundTrips_iff (crates : LegacyCrates) (key plaintext : Text) (moment : Moment) :
    RoundTrips crates key plaintext moment ↔
      ∀ masterKey combined, Accepts crates key plaintext moment masterKey combined →
        crates.hashPassword (encodeUtf8 runtimePepper) zeroSalt = .ok masterKey := by
  constructor
  · intro hround masterKey combined haccepts
    by_contra hruntime
    obtain ⟨message, herror⟩ := vaultDecrypt_other haccepts hruntime
    rw [hround _ (vaultEncrypt_of_accepts haccepts)] at herror
    exact ok_ne_err _ _ herror
  · intro hruntime entryJson hreturned
    obtain ⟨masterKey, combined, haccepts, rfl⟩ := accepts_of_returned hreturned
    exact vaultDecrypt_same haccepts (hruntime _ _ haccepts)

theorem length_padded (bytes : List UInt8) :
    ((bytes ++ List.replicate 32 0).take 32).length = 32 := by
  rw [List.length_take, List.length_append, List.length_replicate]
  omega

/-- Keys are the passphrases they are derived of, cut or filled up. -/
def sampleLegacyCrates : LegacyCrates where
  toVaultCrates := { MemphisOS.VaultAdapter.sampleCrates with
    hashPassword := fun passphrase _ =>
      .ok ⟨(passphrase ++ List.replicate 32 0).take 32, length_padded passphrase⟩ }
  serializeDateTime _ := "2026-03-11T00:00:00Z".toList
  deserializeDateTime _ := some 0
  deserialize_serialize _ := ⟨0, rfl⟩
  serdeMessage _ := "expected value".toList

/-- An entry that was encrypted for another name than the runtime pepper cannot be decrypted. -/
theorem api_key_is_not_decrypted :
    ¬∀ key plaintext, RoundTrips sampleLegacyCrates key plaintext
      MemphisOS.VaultAdapter.sampleMoment := by
  intro hround
  obtain ⟨message, herror⟩ := @vaultDecrypt_other sampleLegacyCrates "api-key".toList
    "secret".toList MemphisOS.VaultAdapter.sampleMoment _ _ ⟨by decide, rfl, rfl, by decide⟩
    (by decide)
  rw [hround _ _ _ (vaultEncrypt_of_accepts ⟨by decide, rfl, rfl, by decide⟩)] at herror
  exact ok_ne_err _ _ herror

end MemphisVault.Legacy
