import MemphisOS.Incident.Process

/-!
# Encrypted blobs

A blob holds a ciphertext with what its passphrase needs to open it, and the hash and the size of
the plaintext.
-/

namespace MemphisOS.Incident

open Ecma Bridge

/-- The members of a blob that decryption uses. The salt may be any value. -/
structure EncryptedBlob where
  salt : Plain
  iv : JsString
  authTag : JsString
  ciphertext : JsString
  plaintextSha256 : JsString
  plaintextBytes : JsNumber

/-! ## Parsing -/

/-- A property that must be there, and not null. -/
def requireValue (value : Plain) (name message : String) : Except JsString Plain :=
  match property value name with
  | none | some .null => .error (js message)
  | some v => .ok v

/-- `isEncryptedBlobJson(value)`. -/
def isEncryptedBlobJson (value : Plain) : Bool :=
  stringProperty value "format" = some (js "memphis.encrypted-blob.v1") &&
    isNumber value "schemaVersion" 1

/-- `kdf`: its salt. -/
def parseKdf (blob : Plain) : Except JsString Plain := do
  let kdf ← requireObject (property blob "kdf") "encrypted blob kdf must be an object"
  requireLiteral kdf "name" "scrypt" "encrypted blob kdf.name must be scrypt"
  let salt ← requireValue kdf "salt" "encrypted blob kdf.salt is required"
  let _ ← requireValue kdf "N" "encrypted blob kdf.N is required"
  let _ ← requireValue kdf "r" "encrypted blob kdf.r is required"
  let _ ← requireValue kdf "p" "encrypted blob kdf.p is required"
  let _ ← requireValue kdf "keyLength" "encrypted blob kdf.keyLength is required"
  .ok salt

/-- `parseEncryptedBlob(raw)`, on the parsed text. -/
def parseEncryptedBlob (value : Plain) : Except JsString EncryptedBlob := do
  let blob ← requireObject (some value) "encrypted blob must be a JSON object"
  check (isNumber blob "schemaVersion" 1) "encrypted blob schemaVersion must be 1"
  requireLiteral blob "format" "memphis.encrypted-blob.v1"
    "encrypted blob format must be memphis.encrypted-blob.v1"
  requireLiteral blob "algorithm" "aes-256-gcm" "encrypted blob algorithm must be aes-256-gcm"
  let _ ← requireString blob "purpose" "encrypted blob purpose must be a non-empty string"
  let _ ← requireString blob "generatedAt" "encrypted blob generatedAt must be a non-empty string"
  let salt ← parseKdf blob
  let iv ← requireString blob "iv" "encrypted blob iv is required"
  let authTag ← requireString blob "authTag" "encrypted blob authTag is required"
  let ciphertext ← requireString blob "ciphertext" "encrypted blob ciphertext is required"
  let plaintextSha256 ← requireString blob "plaintextSha256"
    "encrypted blob plaintextSha256 is required"
  let plaintextBytes ← requireSize blob "plaintextBytes"
    "encrypted blob plaintextBytes must be a non-negative number"
  .ok { salt, iv, authTag, ciphertext, plaintextSha256, plaintextBytes }

namespace Process

variable (p : Process)

/-- `Buffer.from(value, 'base64')`. -/
def bufferFrom : Plain → Except JsString (List UInt8)
  | .str s => .ok (fromBase64 s)
  | value => p.crypto.bufferFrom value

/-- `decryptBlob({ blob, passphrase })`. -/
def decryptBlob (blob : EncryptedBlob) (passphrase : JsString) : Except JsString (List UInt8) := do
  let salt ← p.bufferFrom blob.salt
  let key ← p.crypto.scrypt passphrase salt
  let plaintext ← p.crypto.decrypt key (fromBase64 blob.iv) (fromBase64 blob.authTag)
    (fromBase64 blob.ciphertext)
  check (bytesOf blob.plaintextSha256 = bytesOf (p.sha256Hex plaintext))
    "encrypted blob plaintext hash mismatch"
  if (JsNumber.ofNat plaintext.length).strictEq blob.plaintextBytes then .ok plaintext
  else .error (js "encrypted blob plaintext size mismatch (expected=" ++
    ofText (numberText blob.plaintextBytes) ++ js ", actual=" ++ ofText (digits plaintext.length) ++
    js ")")

/-- The plaintext of a parsed blob. -/
def openBlob (value : Plain) (passphrase : JsString) : Except JsString (List UInt8) := do
  p.decryptBlob (← parseEncryptedBlob value) passphrase

/-- `encryptBlob(options)`, with the random salt and initialisation vector. -/
def encryptBlob (salt iv plaintext : List UInt8) (passphrase purpose generatedAt : JsString) :
    Except JsString Plain := do
  let key ← p.crypto.scrypt passphrase salt
  let (ciphertext, authTag) := p.crypto.encrypt key iv plaintext
  .ok (.obj [(js "schemaVersion", .num (.ofNat 1)),
    (js "format", .str (js "memphis.encrypted-blob.v1")),
    (js "purpose", .str purpose), (js "generatedAt", .str generatedAt),
    (js "algorithm", .str (js "aes-256-gcm")),
    (js "kdf", .obj [(js "name", .str (js "scrypt")), (js "salt", .str (ofText (toBase64 salt))),
      (js "N", .num (.ofNat 16384)), (js "r", .num (.ofNat 8)), (js "p", .num (.ofNat 1)),
      (js "keyLength", .num (.ofNat 32))]),
    (js "iv", .str (ofText (toBase64 iv))), (js "authTag", .str (ofText (toBase64 authTag))),
    (js "ciphertext", .str (ofText (toBase64 ciphertext))),
    (js "plaintextSha256", .str (p.sha256Hex plaintext)),
    (js "plaintextBytes", .num (.ofNat plaintext.length))])

end Process

end MemphisOS.Incident

/-!
## Encrypted blobs are read back

What an encrypted blob's file is opened to, for any plaintext.
-/

namespace MemphisOS.Incident

open Ecma Bridge

/-- AES-256-GCM: decryption undoes encryption, a ciphertext is as long as its plaintext, and tags
have sixteen bytes. SHA-256 has a digest. -/
structure Crypto.Correct (crypto : Crypto) : Prop where
  decrypt : ∀ key iv plaintext, crypto.decrypt key iv (crypto.encrypt key iv plaintext).2
    (crypto.encrypt key iv plaintext).1 = .ok plaintext
  ciphertext_length : ∀ key iv plaintext,
    (crypto.encrypt key iv plaintext).1.length = plaintext.length
  authTag_length : ∀ key iv plaintext, (crypto.encrypt key iv plaintext).2.length = 16
  sha256Hex_length : ∀ bytes, (crypto.sha256Hex bytes).length = 64

/-- The blob of a ciphertext. -/
def blobValue (purpose generatedAt : JsString) (salt iv authTag ciphertext : List UInt8)
    (plaintextSha256 : JsString) (plaintextBytes : ℕ) : Plain :=
  .obj [(js "schemaVersion", .num (.ofNat 1)),
    (js "format", .str (js "memphis.encrypted-blob.v1")),
    (js "purpose", .str purpose), (js "generatedAt", .str generatedAt),
    (js "algorithm", .str (js "aes-256-gcm")),
    (js "kdf", .obj [(js "name", .str (js "scrypt")), (js "salt", .str (ofText (toBase64 salt))),
      (js "N", .num (.ofNat 16384)), (js "r", .num (.ofNat 8)), (js "p", .num (.ofNat 1)),
      (js "keyLength", .num (.ofNat 32))]),
    (js "iv", .str (ofText (toBase64 iv))), (js "authTag", .str (ofText (toBase64 authTag))),
    (js "ciphertext", .str (ofText (toBase64 ciphertext))),
    (js "plaintextSha256", .str plaintextSha256),
    (js "plaintextBytes", .num (.ofNat plaintextBytes))]

variable {purpose generatedAt plaintextSha256 : JsString} {salt iv authTag ciphertext : List UInt8}
  {plaintextBytes : ℕ}

theorem isDocument_blobValue (hbytes : plaintextBytes < 2 ^ 53) :
    IsDocument (blobValue purpose generatedAt salt iv authTag ciphertext plaintextSha256
      plaintextBytes) := by
  have hkdf : IsDocument (.obj [(js "name", .str (js "scrypt")),
      (js "salt", .str (ofText (toBase64 salt))), (js "N", .num (.ofNat 16384)),
      (js "r", .num (.ofNat 8)), (js "p", .num (.ofNat 1)), (js "keyLength", .num (.ofNat 32))]) :=
    @isDocument_of_names ["name", "salt", "N", "r", "p", "keyLength"] _ rfl (by decide) (by decide)
      (by simp [isDocument_ofNat])
  exact @isDocument_of_names ["schemaVersion", "format", "purpose", "generatedAt", "algorithm",
      "kdf", "iv", "authTag", "ciphertext", "plaintextSha256", "plaintextBytes"] _ rfl (by decide)
    (by decide) (by simp [isDocument_ofNat, isDocument_ofNat hbytes, hkdf, -isDocument_obj])

theorem requireString_of_property {value : Plain} {name message : String} {s : JsString}
    (hproperty : property value name = some (.str s)) (hs : s ≠ []) :
    requireString value name message = .ok s := by
  rw [requireString, hproperty]
  exact if_neg hs

theorem ofText_toBase64_eq_nil {bytes : List UInt8} :
    ofText (toBase64 bytes) = [] ↔ bytes = [] := by
  constructor
  · intro h
    rw [← fromBase64_toBase64 bytes, h]
    rfl
  · rintro rfl
    rfl

/-- A blob with everything in place is rejected only for an empty ciphertext. -/
theorem parseEncryptedBlob_blobValue (hpurpose : purpose ≠ []) (hgenerated : generatedAt ≠ [])
    (hiv : iv ≠ []) (htag : authTag ≠ []) (hsha : plaintextSha256 ≠ [])
    (hbytes : plaintextBytes < 2 ^ 53) :
    parseEncryptedBlob (blobValue purpose generatedAt salt iv authTag ciphertext plaintextSha256
        plaintextBytes) =
      if ciphertext = [] then .error (js "encrypted blob ciphertext is required")
      else .ok
        { salt := .str (ofText (toBase64 salt)), iv := ofText (toBase64 iv)
          authTag := ofText (toBase64 authTag), ciphertext := ofText (toBase64 ciphertext)
          plaintextSha256, plaintextBytes := .ofNat plaintextBytes } := by
  generalize hblob : blobValue purpose generatedAt salt iv authTag ciphertext plaintextSha256
    plaintextBytes = blob
  have hobject : requireObject (some blob) "encrypted blob must be a JSON object" = .ok blob := by
    rw [← hblob]
    rfl
  have hversion : isNumber blob "schemaVersion" 1 = true :=
    isNumber_ofNat (by rw [← hblob]; rfl) (by norm_num)
  have hformat : stringProperty blob "format" = some (js "memphis.encrypted-blob.v1") := by
    rw [← hblob]; simp [stringProperty, property, blobValue, List.lookup_cons]
  have halgorithm : stringProperty blob "algorithm" = some (js "aes-256-gcm") := by
    rw [← hblob]; simp [stringProperty, property, blobValue, List.lookup_cons]
  have hkdf : parseKdf blob = .ok (.str (ofText (toBase64 salt))) := by
    rw [← hblob]
    simp [parseKdf, property, blobValue, List.lookup_cons, requireObject, requireLiteral,
      stringProperty, requireValue]
  have hpurpose' : property blob "purpose" = some (.str purpose) := by
    rw [← hblob]; simp [property, blobValue, List.lookup_cons]
  have hgenerated' : property blob "generatedAt" = some (.str generatedAt) := by
    rw [← hblob]; simp [property, blobValue, List.lookup_cons]
  have hiv' : property blob "iv" = some (.str (ofText (toBase64 iv))) := by
    rw [← hblob]; simp [property, blobValue, List.lookup_cons]
  have htag' : property blob "authTag" = some (.str (ofText (toBase64 authTag))) := by
    rw [← hblob]; simp [property, blobValue, List.lookup_cons]
  have hciphertext' : property blob "ciphertext" = some (.str (ofText (toBase64 ciphertext))) := by
    rw [← hblob]; simp [property, blobValue, List.lookup_cons]
  have hsha' : property blob "plaintextSha256" = some (.str plaintextSha256) := by
    rw [← hblob]; simp [property, blobValue, List.lookup_cons]
  have hbytes' : property blob "plaintextBytes" = some (.num (.ofNat plaintextBytes)) := by
    rw [← hblob]; simp [property, blobValue, List.lookup_cons]
  rw [parseEncryptedBlob, hobject, ok_bind, hversion, check_true, ok_bind, requireLiteral, hformat,
    decide_eq_true rfl, check_true, ok_bind, requireLiteral, halgorithm, decide_eq_true rfl,
    check_true, ok_bind, requireString_of_property hpurpose' hpurpose, ok_bind,
    requireString_of_property hgenerated' hgenerated, ok_bind, hkdf, ok_bind,
    requireString_of_property hiv' (mt ofText_toBase64_eq_nil.mp hiv), ok_bind,
    requireString_of_property htag' (mt ofText_toBase64_eq_nil.mp htag), ok_bind]
  by_cases hempty : ciphertext = []
  · rw [if_pos hempty, requireString, hciphertext', hempty]
    rfl
  · rw [if_neg hempty,
      requireString_of_property hciphertext' (mt ofText_toBase64_eq_nil.mp hempty), ok_bind,
      requireString_of_property hsha' hsha, ok_bind, requireSize_ofNat hbytes' hbytes, ok_bind]

namespace Process

variable (p : Process)

/-- `parseEncryptedBlob(raw)`, of the bytes of a file. -/
def parseBlobFile (raw : List UInt8) : Except JsString EncryptedBlob := do
  parseEncryptedBlob (← p.parse (decodeUtf8 raw))

/-- A plaintext is encrypted, written with an indentation, read back and decrypted. -/
def roundTrip (gap : Text) (salt iv plaintext : List UInt8)
    (passphrase purpose generatedAt : JsString) : Except JsString (List UInt8) := do
  let encryptedBlob ← p.encryptBlob salt iv plaintext passphrase purpose generatedAt
  let blob ← p.parseBlobFile (encodeUtf8 (jsonText gap encryptedBlob))
  p.decryptBlob blob passphrase

variable {p}

theorem parseBlobFile_jsonText {gap : Text} {value : Plain} (hgap : Json.Blank gap)
    (hdocument : IsDocument value) :
    p.parseBlobFile (encodeUtf8 (jsonText gap value)) = parseEncryptedBlob value := by
  rw [parseBlobFile, decodeUtf8_encodeUtf8, parse, hdocument.parseJson hgap]
  rfl

theorem encryptBlob_eq {salt iv plaintext key : List UInt8} {passphrase : JsString}
    (hkey : p.crypto.scrypt passphrase salt = .ok key) (purpose generatedAt : JsString) :
    p.encryptBlob salt iv plaintext passphrase purpose generatedAt =
      .ok (blobValue purpose generatedAt salt iv (p.crypto.encrypt key iv plaintext).2
        (p.crypto.encrypt key iv plaintext).1 (p.sha256Hex plaintext) plaintext.length) := by
  rw [encryptBlob, hkey]
  rfl

/-- What was encrypted is decrypted. -/
theorem decryptBlob_encrypted (hcrypto : p.crypto.Correct) {salt iv plaintext key : List UInt8}
    {passphrase : JsString} (hkey : p.crypto.scrypt passphrase salt = .ok key)
    (hlength : plaintext.length < 2 ^ 53) :
    p.decryptBlob
        { salt := .str (ofText (toBase64 salt)), iv := ofText (toBase64 iv)
          authTag := ofText (toBase64 (p.crypto.encrypt key iv plaintext).2)
          ciphertext := ofText (toBase64 (p.crypto.encrypt key iv plaintext).1)
          plaintextSha256 := p.sha256Hex plaintext, plaintextBytes := .ofNat plaintext.length }
        passphrase = .ok plaintext := by
  rw [decryptBlob, bufferFrom, ok_bind]
  simp only [fromBase64_toBase64]
  rw [hkey, ok_bind, hcrypto.decrypt, ok_bind, decide_eq_true rfl, check_true, ok_bind,
    if_pos (strictEq_ofNat_self hlength)]

/-- The outcome of a round trip: only the blob of an empty plaintext is rejected. -/
theorem roundTrip_eq (hcrypto : p.crypto.Correct) {gap : Text} (hgap : Json.Blank gap)
    {salt iv plaintext key : List UInt8} {passphrase : JsString}
    (hkey : p.crypto.scrypt passphrase salt = .ok key) (hiv : iv.length = 12)
    (hlength : plaintext.length < 2 ^ 53) {purpose generatedAt : JsString} (hpurpose : purpose ≠ [])
    (hgenerated : generatedAt ≠ []) :
    p.roundTrip gap salt iv plaintext passphrase purpose generatedAt =
      if plaintext = [] then .error (js "encrypted blob ciphertext is required")
      else .ok plaintext := by
  have hcount := hcrypto.ciphertext_length key iv plaintext
  have hiv : iv ≠ [] := List.ne_nil_of_length_pos (by omega)
  have htag : (p.crypto.encrypt key iv plaintext).2 ≠ [] :=
    List.ne_nil_of_length_pos (by rw [hcrypto.authTag_length]; omega)
  have hsha : p.sha256Hex plaintext ≠ [] :=
    List.ne_nil_of_length_pos (by rw [sha256Hex, hcrypto.sha256Hex_length]; omega)
  have hempty : (p.crypto.encrypt key iv plaintext).1 = [] ↔ plaintext = [] := by
    rw [← List.length_eq_zero_iff, hcount, List.length_eq_zero_iff]
  rw [roundTrip, encryptBlob_eq hkey, ok_bind,
    parseBlobFile_jsonText hgap (isDocument_blobValue hlength),
    parseEncryptedBlob_blobValue hpurpose hgenerated hiv htag hsha hlength]
  by_cases hplaintext : plaintext = []
  · rw [if_pos (hempty.mpr hplaintext), if_pos hplaintext]
    rfl
  · rw [if_neg (mt hempty.mp hplaintext), if_neg hplaintext, ok_bind,
      decryptBlob_encrypted hcrypto hkey hlength]

/-- **Encrypted blobs.** A blob made of a plaintext is read back and decrypted to it exactly when
the plaintext is not empty. -/
theorem roundTrip_eq_ok_iff (p : Process) (hcrypto : p.crypto.Correct) {gap : Text}
    (hgap : Json.Blank gap) {salt iv plaintext : List UInt8} {passphrase : JsString}
    {key : List UInt8} (hkey : p.crypto.scrypt passphrase salt = .ok key) (hiv : iv.length = 12)
    (hlength : plaintext.length < 2 ^ 53) {purpose generatedAt : JsString} (hpurpose : purpose ≠ [])
    (hgenerated : generatedAt ≠ []) :
    p.roundTrip gap salt iv plaintext passphrase purpose generatedAt = .ok plaintext ↔
      plaintext ≠ [] := by
  rw [roundTrip_eq hcrypto hgap hkey hiv hlength hpurpose hgenerated]
  by_cases hplaintext : plaintext = []
  · rw [if_pos hplaintext]
    exact ⟨fun h => (by cases h), fun h => absurd hplaintext h⟩
  · rw [if_neg hplaintext]
    exact ⟨fun _ => hplaintext, fun _ => rfl⟩

end Process

/-! ## A sample -/

def zeros (n : ℕ) : List UInt8 := List.replicate n 0

/-- What `scrypt` derives from the passphrase `pass` and a salt of sixteen zeros. -/
def sampleKey : List UInt8 :=
  [89, 137, 151, 233, 143, 70, 89, 34, 122, 126, 118, 225, 46, 109, 210, 200, 57, 144, 135, 38, 94,
    226, 73, 246, 49, 193, 75, 229, 30, 54, 178, 6]

/-- The tag of the empty plaintext. -/
def emptyTag : List UInt8 :=
  [83, 94, 98, 36, 64, 94, 182, 196, 25, 154, 223, 118, 82, 251, 104, 189]

/-- The tag of the plaintext `a`. -/
def letterTag : List UInt8 :=
  [235, 60, 37, 21, 184, 30, 64, 91, 239, 178, 206, 130, 180, 98, 158, 200]

/-- AES-256-GCM on the two plaintexts, with an initialisation vector of zeros. -/
def sampleEncrypt (key iv plaintext : List UInt8) : List UInt8 × List UInt8 :=
  if (key, iv, plaintext) = (sampleKey, zeros 12, []) then ([], emptyTag)
  else if (key, iv, plaintext) = (sampleKey, zeros 12, [97]) then ([181], letterTag)
  else (plaintext, zeros 16)

def sampleDecrypt (key iv authTag ciphertext : List UInt8) : Except JsString (List UInt8) :=
  if (key, iv, authTag, ciphertext) = (sampleKey, zeros 12, emptyTag, []) then .ok []
  else if (key, iv, authTag, ciphertext) = (sampleKey, zeros 12, letterTag, [181]) then .ok [97]
  else if authTag = zeros 16 then .ok ciphertext
  else .error (js "Unsupported state or unable to authenticate data")

/-- SHA-256 on the two plaintexts. -/
def sampleDigest (bytes : List UInt8) : JsString :=
  if bytes = [] then js "e3b0c44298fc1c149afbf4c8996fb92427ae41e4649b934ca495991b7852b855"
  else if bytes = [97] then js "ca978112ca1bbdcafac231b39a23dc4da786eff8147c4e72b9807785afee48bb"
  else List.replicate 64 48

def blobCrypto : Crypto where
  PublicKey := Unit
  PrivateKey := Unit
  sha256Hex := sampleDigest
  createPublicKey _ := .ok ()
  createPrivateKey _ := .ok ()
  exportPublicKey _ := []
  sign _ _ := []
  verify _ _ _ := .ok false
  bufferFrom _ := .ok []
  scrypt _ _ := .ok sampleKey
  encrypt := sampleEncrypt
  decrypt := sampleDecrypt

def blobProcess : Process where
  crypto := blobCrypto
  paths :=
    { resolve := id
      resolveFrom := fun _ path => path
      dirname := id
      isAbsolute := fun _ => true }
  argv := []
  env _ := none
  existsSync _ := false
  readFile _ := .error (js "ENOENT")
  trustRootFile _ := none
  parseMessage _ := js "Unexpected token"

theorem blobCrypto_correct : blobCrypto.Correct where
  decrypt key iv plaintext := by
    change sampleDecrypt key iv (sampleEncrypt key iv plaintext).2
      (sampleEncrypt key iv plaintext).1 = .ok plaintext
    rw [sampleEncrypt]
    split_ifs with hempty hletter
    · obtain ⟨rfl, rfl, rfl⟩ : key = sampleKey ∧ iv = zeros 12 ∧ plaintext = [] := by
        simpa using hempty
      rfl
    · obtain ⟨rfl, rfl, rfl⟩ : key = sampleKey ∧ iv = zeros 12 ∧ plaintext = [97] := by
        simpa using hletter
      rfl
    · have hempty : zeros 16 ≠ emptyTag := by decide
      have hletter : zeros 16 ≠ letterTag := by decide
      rw [sampleDecrypt, if_neg (by simp [hempty]), if_neg (by simp [hletter]), if_pos rfl]
  ciphertext_length key iv plaintext := by
    change (sampleEncrypt key iv plaintext).1.length = plaintext.length
    rw [sampleEncrypt]
    split_ifs with hempty hletter
    · obtain ⟨rfl, rfl, rfl⟩ : key = sampleKey ∧ iv = zeros 12 ∧ plaintext = [] := by
        simpa using hempty
      rfl
    · obtain ⟨rfl, rfl, rfl⟩ : key = sampleKey ∧ iv = zeros 12 ∧ plaintext = [97] := by
        simpa using hletter
      rfl
    · rfl
  authTag_length key iv plaintext := by
    change (sampleEncrypt key iv plaintext).2.length = 16
    rw [sampleEncrypt]
    split_ifs <;> rfl
  sha256Hex_length bytes := by
    change (sampleDigest bytes).length = 64
    rw [sampleDigest]
    split_ifs <;> rfl

theorem roundTrip_letter :
    blobProcess.roundTrip [] (zeros 16) (zeros 12) [97] (js "pass") (js "incident-bundle")
        (js "2026-03-08T21:00:00.000Z") = .ok [97] :=
  (blobProcess.roundTrip_eq_ok_iff blobCrypto_correct (fun _ h => absurd h List.not_mem_nil) rfl rfl
    (by decide) (by decide) (by decide)).mpr (by decide)

/-- The blob of an empty file is rejected. -/
theorem roundTrip_empty :
    blobProcess.roundTrip [] (zeros 16) (zeros 12) [] (js "pass") (js "incident-bundle")
        (js "2026-03-08T21:00:00.000Z") ≠ .ok [] := by
  rw [Process.roundTrip_eq blobCrypto_correct (fun _ h => absurd h List.not_mem_nil) rfl rfl
    (by decide) (by decide) (by decide), if_pos rfl]
  intro h
  cases h

end MemphisOS.Incident
