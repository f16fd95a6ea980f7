import Mathlib.Data.List.TakeWhile
import MemphisOS.Core.Block
import MemphisOS.Ecma.Utf8

/-!
# The native vault

What `memphis-vault` and its bridge do: a master key is derived of a passphrase, a fresh salt and
the answer to the recovery question, and secrets are sealed under it. The ciphers, digests and
clocks of other crates are parameters.
-/

namespace MemphisVault

open Ecma

/-- An array of 32 bytes. -/
abbrev Bytes32 := { bytes : List UInt8 // bytes.length = 32 }

/-- An array of 12 bytes. -/
abbrev Bytes12 := { bytes : List UInt8 // bytes.length = 12 }

/-- `<[u8; 32]>::try_from`. -/
def toBytes32 (bytes : List UInt8) : Option Bytes32 :=
  if h : bytes.length = 32 then some ⟨bytes, h⟩ else none

def toBytes12 (bytes : List UInt8) : Option Bytes12 :=
  if h : bytes.length = 12 then some ⟨bytes, h⟩ else none

/-- The cipher. It opens what it has sealed under the same key and under no other. -/
structure Aead where
  encrypt : Bytes32 → Bytes12 → List UInt8 → Except Text (List UInt8)
  decrypt : Bytes32 → Bytes12 → List UInt8 → Except Text (List UInt8)
  decrypt_encrypt : ∀ key nonce plaintext ciphertext, encrypt key nonce plaintext = .ok ciphertext →
    decrypt key nonce ciphertext = .ok plaintext
  decrypt_other : ∀ key key' nonce plaintext ciphertext,
    encrypt key nonce plaintext = .ok ciphertext → key' ≠ key →
      ∃ message, decrypt key' nonce ciphertext = .error message

/-- What the vault uses of other crates. -/
structure VaultCrates where
  aead : Aead
  /-- Argon2id with the parameters of the vault. -/
  hashPassword : List UInt8 → Bytes32 → Except Text Bytes32
  sha256 : List UInt8 → Bytes32
  /-- `str::to_lowercase`. -/
  toLowercase : Text → Text
  /-- The public key of an Ed25519 signing key. -/
  verifyingKey : Bytes32 → Bytes32
  /-- `bs58::encode`. -/
  base58 : List UInt8 → Text
  /-- `DateTime::to_rfc3339` of the nanoseconds since the epoch. -/
  toRfc3339 : ℤ → Text
  parseFromRfc3339 : Text → Except Text ℤ
  parse_toRfc3339 : ∀ t, ∃ t', parseFromRfc3339 (toRfc3339 t) = .ok t'

inductive VaultError where
  | invalidConfig (reason : String)
  | keyDerivation (message : Text)
  | encryption (message : Text)
  | decryption (message : Text)

/-- `VaultError::to_string`. -/
def VaultError.text : VaultError → Text
  | invalidConfig reason => "vault config is invalid: ".toList ++ reason.toList
  | keyDerivation message => "key derivation failed: ".toList ++ message
  | encryption message => "encryption failed: ".toList ++ message
  | decryption message => "decryption failed: ".toList ++ message

structure Vault where
  salt : Bytes32
  masterKey : Bytes32

/-- A sealed secret; its creation time is in nanoseconds since the epoch. -/
structure VaultEntry where
  id : Text
  key : Text
  ciphertext : List UInt8
  nonce : List UInt8
  tag : List UInt8
  createdAt : ℤ

/-- The first field that is not valid. -/
def VaultEntry.validate (entry : VaultEntry) : Except String Unit :=
  if MemphisCore.trim entry.id = [] then .error "id must not be empty"
  else if entry.ciphertext = [] then .error "ciphertext must not be empty"
  else if entry.nonce = [] then .error "nonce must not be empty"
  else if entry.tag = [] then .error "tag must not be empty"
  else .ok ()

/-- What a call draws at random and reads of the clock. -/
structure Moment where
  nonce : Bytes12
  /-- `timestamp_millis`. -/
  millis : ℤ
  nanos : ℤ

variable (crates : VaultCrates)

def deriveMasterKey (passphrase : Text) (salt : Bytes32) : Except VaultError Bytes32 :=
  (crates.hashPassword (encodeUtf8 passphrase) salt).mapError .keyDerivation

/-- The digest that `hash_answer` writes in hexadecimal. -/
def hashAnswer (answer : Text) : Bytes32 :=
  crates.sha256 (encodeUtf8 (crates.toLowercase (MemphisCore.trim answer)))

structure QAChallenge where
  question : Text
  answerHash : Text
  createdAt : ℤ

def QAChallenge.new (question answer : Text) (now : ℤ) : Except VaultError QAChallenge :=
  if MemphisCore.trim question = [] then .error (.invalidConfig "question cannot be empty")
  else if (encodeUtf8 (MemphisCore.trim answer)).length < 3 then
    .error (.invalidConfig "answer too short (min 3 chars)")
  else .ok ⟨question, MemphisCore.hexEncode (hashAnswer crates answer).1, now⟩

/-- The bytes of two keys, combined by exclusive or. -/
def xorBytes (a b : Bytes32) : Bytes32 :=
  ⟨List.zipWith (· ^^^ ·) a.1 b.1, by rw [List.length_zipWith, a.2, b.2, min_self]⟩

def deriveVaultKeyWith2fa (masterKey : Bytes32) (qaAnswer : Text) : Bytes32 :=
  xorBytes masterKey (hashAnswer crates qaAnswer)

/-- The identity and the private key of a secret. -/
def generateDid (secret : Bytes32) : Text × List UInt8 :=
  let verifyingKey := crates.verifyingKey secret
  ("did:memphis:z".toList ++ crates.base58 ([0xED, 0x01] ++ verifyingKey.1),
    secret.1 ++ verifyingKey.1)

/-- An integer in decimal digits. -/
def millisText (n : ℤ) : Text :=
  (if n < 0 then ['-'] else []) ++ Nat.toDigits 10 n.natAbs

def Vault.store (vault : Vault) (key : Text) (plaintext : List UInt8) (moment : Moment) :
    Except VaultError VaultEntry := do
  if MemphisCore.trim key = [] then throw (.invalidConfig "key cannot be empty")
  if plaintext = [] then throw (.invalidConfig "plaintext cannot be empty")
  let combinedCiphertext ←
    (crates.aead.encrypt vault.masterKey moment.nonce plaintext).mapError .encryption
  if combinedCiphertext.length < 16 then throw (.encryption "ciphertext too short".toList)
  let split := combinedCiphertext.length - 16
  let entry : VaultEntry :=
    { id := "entry-".toList ++ millisText moment.millis
      key
      ciphertext := combinedCiphertext.take split
      nonce := moment.nonce.1
      tag := combinedCiphertext.drop split
      createdAt := moment.nanos }
  entry.validate.mapError fun _ => .invalidConfig "generated entry is invalid"
  return entry

def Vault.retrieve (vault : Vault) (entry : VaultEntry) : Except VaultError (List UInt8) := do
  entry.validate.mapError fun _ => .invalidConfig "entry is invalid"
  match toBytes12 entry.nonce with
  | none => throw (.invalidConfig "nonce must be exactly 12 bytes")
  | some nonce =>
    (crates.aead.decrypt vault.masterKey nonce (entry.ciphertext ++ entry.tag)).mapError .decryption

/-- What the initialisation draws at random besides a nonce. -/
structure Seeds where
  salt : Bytes32
  secret : Bytes32
  moment : Moment

structure VaultInitResult where
  vault : Vault
  did : Text
  qaChallenge : QAChallenge

def Vault.initFull (passphrase qaQuestion qaAnswer : Text) (seeds : Seeds) :
    Except VaultError VaultInitResult := do
  if MemphisCore.trim passphrase = [] then throw (.invalidConfig "passphrase cannot be empty")
  let masterKey ← deriveMasterKey crates passphrase seeds.salt
  let qaChallenge ← QAChallenge.new crates qaQuestion qaAnswer seeds.moment.nanos
  let vaultKey := deriveVaultKeyWith2fa crates masterKey qaAnswer
  let (did, privateKey) := generateDid crates seeds.secret
  let vault : Vault := ⟨seeds.salt, vaultKey⟩
  let _ ← vault.store crates "did_private_key".toList privateKey seeds.moment
  return ⟨vault, did, qaChallenge⟩

/-! ## What is stored is retrieved -/

variable {crates} {vault : Vault} {key : Text} {plaintext : List UInt8} {moment : Moment}
  {entry : VaultEntry}

theorem toBytes32_val (bytes : Bytes32) : toBytes32 bytes.1 = some bytes := dif_pos bytes.2

theorem ok_of_mapError {ε ε' α : Type} {x : Except ε α} {f : ε → ε'} {a : α}
    (h : x.mapError f = .ok a) : x = .ok a := by
  cases x with
  | error e => cases h
  | ok b =>
    cases h
    rfl

theorem ok_of_bind {ε α β : Type} {x : Except ε α} {f : α → Except ε β} {b : β}
    (h : x >>= f = .ok b) : ∃ a, x = .ok a ∧ f a = .ok b := by
  cases x with
  | error e => cases h
  | ok a => exact ⟨a, rfl, h⟩

theorem bind_of_ok {ε α β : Type} {x : Except ε α} {a : α} (h : x = .ok a) (f : α → Except ε β) :
    x >>= f = f a := by
  rw [h]
  rfl

/-- A check that was passed. -/
theorem ok_of_unless {ε α : Type} {c : Prop} [Decidable c] {e : ε} {x : Except ε α} {a : α}
    (h : (if c then throw e else x) = .ok a) : ¬c ∧ x = .ok a := by
  by_cases hc : c
  · rw [if_pos hc] at h
    cases h
  · rw [if_neg hc] at h
    exact ⟨hc, h⟩

theorem validate_eq_ok {entry : VaultEntry} : entry.validate = .ok () ↔
    MemphisCore.trim entry.id ≠ [] ∧ entry.ciphertext ≠ [] ∧ entry.nonce ≠ [] ∧ entry.tag ≠ [] := by
  rw [VaultEntry.validate]
  by_cases hid : MemphisCore.trim entry.id = [] <;> by_cases hciphertext : entry.ciphertext = [] <;>
    by_cases hnonce : entry.nonce = [] <;> by_cases htag : entry.tag = [] <;>
    simp [hid, hciphertext, hnonce, htag]

/-- A generated identifier is not blank. -/
theorem trim_entryId_ne_nil (t : Text) : MemphisCore.trim ("entry-".toList ++ t) ≠ [] :=
  MemphisCore.trim_cons_ne_nil (by decide) _

/-- What is known of an entry that was stored. -/
structure Sealed (crates : VaultCrates) (masterKey : Bytes32) (plaintext : List UInt8)
    (entry : VaultEntry) : Prop where
  valid : entry.validate = .ok ()
  nonce : ∃ nonce : Bytes12, entry.nonce = nonce.1 ∧
    crates.aead.encrypt masterKey nonce plaintext = .ok (entry.ciphertext ++ entry.tag)

theorem sealed_of_store (h : vault.store crates key plaintext moment = .ok entry) :
    Sealed crates vault.masterKey plaintext entry ∧ entry.key = key ∧
      entry.createdAt = moment.nanos := by
  unfold Vault.store at h
  obtain ⟨-, h⟩ := ok_of_unless h
  obtain ⟨-, h⟩ := ok_of_unless h
  obtain ⟨combinedCiphertext, hencrypt, h⟩ := ok_of_bind h
  obtain ⟨-, h⟩ := ok_of_unless h
  obtain ⟨_, hvalid, h⟩ := ok_of_bind h
  cases h
  refine ⟨⟨ok_of_mapError hvalid, moment.nonce, rfl, ?_⟩, rfl, rfl⟩
  rw [List.take_append_drop]
  exact ok_of_mapError hencrypt

/-- The master key after an initialisation. -/
theorem masterKey_of_initFull {passphrase qaQuestion qaAnswer : Text} {seeds : Seeds}
    {result : VaultInitResult}
    (h : Vault.initFull crates passphrase qaQuestion qaAnswer seeds = .ok result) :
    ∃ masterKey, deriveMasterKey crates passphrase seeds.salt = .ok masterKey ∧
      result.vault = ⟨seeds.salt, deriveVaultKeyWith2fa crates masterKey qaAnswer⟩ := by
  unfold Vault.initFull at h
  obtain ⟨-, h⟩ := ok_of_unless h
  obtain ⟨masterKey, hmaster, h⟩ := ok_of_bind h
  obtain ⟨qaChallenge, -, h⟩ := ok_of_bind h
  obtain ⟨_, -, h⟩ := ok_of_bind h
  cases h
  exact ⟨masterKey, hmaster, rfl⟩

/-- **Retrieval.** What was stored is retrieved under the same master key. -/
theorem retrieve_of_sealed (h : Sealed crates vault.masterKey plaintext entry) :
    vault.retrieve crates entry = .ok plaintext := by
  obtain ⟨nonce, hnonce, hencrypt⟩ := h.nonce
  have hbytes : toBytes12 entry.nonce = some nonce := by
    rw [hnonce, toBytes12, dif_pos nonce.2]
  rw [Vault.retrieve, h.valid, hbytes]
  simp only [crates.aead.decrypt_encrypt _ _ _ _ hencrypt]
  rfl

/-- Under another master key it is not. -/
theorem retrieve_of_other {masterKey : Bytes32} (h : Sealed crates masterKey plaintext entry)
    (hne : vault.masterKey ≠ masterKey) : ∃ e, vault.retrieve crates entry = .error e := by
  obtain ⟨nonce, hnonce, hencrypt⟩ := h.nonce
  have hbytes : toBytes12 entry.nonce = some nonce := by
    rw [hnonce, toBytes12, dif_pos nonce.2]
  obtain ⟨message, hdecrypt⟩ := crates.aead.decrypt_other _ _ _ _ _ hencrypt hne
  refine ⟨.decryption message, ?_⟩
  rw [Vault.retrieve, h.valid, hbytes]
  simp only [hdecrypt]
  rfl

end MemphisVault
