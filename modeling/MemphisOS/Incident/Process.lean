import MemphisOS.Bridge.Envelope
import MemphisOS.Ecma.Base64
import MemphisOS.Ecma.Documents
import MemphisOS.Ecma.Exceptions
import MemphisOS.Ecma.Maps
import MemphisOS.Ecma.StringMethods
import MemphisOS.Ecma.Utf8

/-!
# The scripts' surroundings

What the incident scripts use of their process: arguments, environment, files, path functions
and cryptography.
-/

namespace MemphisOS.Incident

open Ecma Bridge

/-- The cryptographic functions. Messages are those of the exceptions. -/
structure Crypto where
  PublicKey : Type
  PrivateKey : Type
  /-- SHA-256 in hexadecimal. -/
  sha256Hex : List UInt8 → JsString
  createPublicKey : JsString → Except JsString PublicKey
  createPrivateKey : JsString → Except JsString PrivateKey
  /-- The public key of a private one in PEM. -/
  exportPublicKey : PrivateKey → JsString
  sign : PrivateKey → List UInt8 → List UInt8
  verify : PublicKey → List UInt8 → List UInt8 → Except JsString Bool
  /-- `Buffer.from(value, 'base64')` of a value that is no string. -/
  bufferFrom : Plain → Except JsString (List UInt8)
  scrypt : JsString → List UInt8 → Except JsString (List UInt8)
  /-- AES-256-GCM with a key and an initialisation vector: ciphertext and tag. -/
  encrypt : List UInt8 → List UInt8 → List UInt8 → List UInt8 × List UInt8
  /-- The plaintext of a ciphertext under a key, an initialisation vector and a tag. -/
  decrypt : List UInt8 → List UInt8 → List UInt8 → List UInt8 → Except JsString (List UInt8)

/-- The bytes of a string. -/
def bytesOf (s : JsString) : List UInt8 := encodeUtf8 (wellFormed s)

/-- The functions of `node:path`, in the working directory of the process. -/
structure PathFunctions where
  resolve : JsString → JsString
  /-- `resolve` from a directory. -/
  resolveFrom : JsString → JsString → JsString
  dirname : JsString → JsString
  isAbsolute : JsString → Bool

/-- A process of a script. -/
structure Process where
  crypto : Crypto
  paths : PathFunctions
  argv : List JsString
  env : String → Option JsString
  /-- The files that exist, and what reading them gives. -/
  existsSync : JsString → Bool
  readFile : JsString → Except JsString (List UInt8)
  /-- A trust root file at the moment it is looked for, which is not that of the other files. -/
  trustRootFile : JsString → Option (Except JsString (List UInt8))
  /-- The message of the error `JSON.parse` throws on a text. -/
  parseMessage : Text → JsString

namespace Process

variable (p : Process)

def sha256Hex (bytes : List UInt8) : JsString := p.crypto.sha256Hex bytes

/-- The hash of a text, which is hashed in UTF-8. -/
def hashText (t : Text) : JsString := p.sha256Hex (encodeUtf8 t)

/-- `parseArg(flag)`: the argument after the first place of a flag. -/
def parseArg (flag : String) : Option JsString :=
  match p.argv.dropWhile (· ≠ js flag) with
  | _ :: value :: _ => if value = [] then none else some value
  | _ => none

def hasFlag (flag : String) : Bool := js flag ∈ p.argv

/-- `JSON.parse(text)`. -/
def parse (t : Text) : Except JsString Plain :=
  match parseJson t with
  | some value => .ok value
  | none => .error (p.parseMessage t)

/-- `readFileSync(path, 'utf8')`. -/
def readText (path : JsString) : Except JsString Text := (p.readFile path).map decodeUtf8

variable {p} {path : JsString} {value : Plain}

/-- A document that was written is read back. -/
theorem read_document (hread : p.readFile path = .ok (encodeUtf8 (jsonText [] value)))
    (hdocument : IsDocument value) :
    p.readText path = .ok (jsonText [] value) ∧ p.parse (jsonText [] value) = .ok value := by
  constructor
  · simp [readText, hread, Except.map, decodeUtf8_encodeUtf8]
  · simp [parse, hdocument.parseJson (fun _ h => absurd h List.not_mem_nil)]

end Process

/-- A string that counts as true. -/
def present (s : Option JsString) : Bool := s.any (· ≠ [])

/-- `raw.trim().toLowerCase() === word`, for a word in ASCII letters. -/
def spells (raw : JsString) (word : String) : Bool := raw.trim.lowersTo word

/-- `parseOptionalBool(raw)`. -/
def parseOptionalBool (raw : Option JsString) : Option Bool :=
  match raw with
  | none => none
  | some raw => if raw.trim = [] then none else some (spells raw "true")

/-- `{ ...value }` after a `delete`. -/
def withoutMember (name : String) : Plain → Plain
  | .obj members => .obj (members.filter (·.1 ≠ js name))
  | value => value

/-- A property that must be a string, and not an empty one. -/
def requireString (value : Plain) (name message : String) : Except JsString JsString :=
  match property value name with
  | some (.str s) => if s = [] then .error (js message) else .ok s
  | _ => .error (js message)

/-- A property that must be such a string when it is there. -/
def optionalString (value : Plain) (name message : String) : Except JsString (Option JsString) :=
  match property value name with
  | none => .ok none
  | some _ => (requireString value name message).map some

/-- A value that must be an object. -/
def requireObject (value : Option Plain) (message : String) : Except JsString Plain :=
  match value with
  | some (.obj members) => .ok (.obj members)
  | _ => .error (js message)

/-- A property that must be a certain string. -/
def requireLiteral (value : Plain) (name literal message : String) : Except JsString Unit :=
  check (stringProperty value name = some (js literal)) message

/-- A property that must be a finite number, and not a negative one. -/
def requireSize (value : Plain) (name message : String) : Except JsString JsNumber :=
  match property value name with
  | some (.num n) =>
    if n.isFinite && !n.lt (.ofNat 0) then .ok n else .error (js message)
  | _ => .error (js message)

/-- `value[name] === n`. -/
def isNumber (value : Plain) (name : String) (n : ℕ) : Bool :=
  match property value name with
  | some (.num m) => m.strictEq (.ofNat n)
  | _ => false

section Naturals

variable {value : Plain} {name message : String} {n : ℕ}

theorem strictEq_ofNat_self (h : n < 2 ^ 53) :
    (JsNumber.ofNat n).strictEq (.ofNat n) = true :=
  (JsNumber.strictEq_ofNat h).mpr (JsNumber.dropZeroSign_ofNat h)

theorem isNumber_ofNat (hproperty : property value name = some (.num (.ofNat n)))
    (h : n < 2 ^ 53) : isNumber value name n = true := by
  rw [isNumber, hproperty]
  exact strictEq_ofNat_self h

theorem lt_zero_ofNat (h : n < 2 ^ 53) : (JsNumber.ofNat n).lt (.ofNat 0) = false := by
  rw [JsNumber.ofNat_eq h, JsNumber.ofNat_eq (by norm_num : 0 < 2 ^ 53)]
  simp [JsNumber.lt]

theorem requireSize_ofNat (hproperty : property value name = some (.num (.ofNat n)))
    (h : n < 2 ^ 53) : requireSize value name message = .ok (.ofNat n) := by
  rw [requireSize, hproperty]
  simp [JsNumber.isFinite_ofNat h, lt_zero_ofNat h]

end Naturals

end MemphisOS.Incident
