import Mathlib.Data.List.Infix
import Mathlib.Data.List.TakeWhile
import MemphisOS.Ecma.Json

/-!
# Blocks of the native core

The block record of `memphis-core`, its canonical hash, and the code of other crates
that the core calls.
-/

namespace MemphisCore

open Ecma

/-- What the core uses of the crates it depends on. -/
structure Crates where
  /-- The lower-case hexadecimal SHA-256 digest of the UTF-8 encoding of a text. -/
  sha256 : Text → Text
  /-- `chrono`: the instant an RFC 3339 text denotes. -/
  parseFromRfc3339 : Text → Option ℤ
  /-- `ed25519_dalek::VerifyingKey`. -/
  VerifyingKey : Type
  /-- `ed25519_dalek::Signature`. -/
  Signature : Type
  /-- `VerifyingKey::from_bytes` on 32 bytes. -/
  keyFromBytes : List UInt8 → Option VerifyingKey
  /-- `Signature::from_slice`. -/
  signatureFromSlice : List UInt8 → Option Signature
  /-- `VerifyingKey::verify` on the bytes of a text. -/
  verify : VerifyingKey → Text → Signature → Bool
  /-- The bytes of the verifying key of a signing key. -/
  verifyingKeyBytes : List UInt8 → List UInt8
  /-- The bytes of the signature of a text. -/
  sign : List UInt8 → Text → List UInt8

/-! ## Strings of the standard library -/

/-- `char::is_whitespace`. -/
def isWhitespace (c : Char) : Bool :=
  c.toNat ∈ [0x20, 0x85, 0xA0, 0x1680, 0x2028, 0x2029, 0x202F, 0x205F, 0x3000] ||
    (0x9 ≤ c.toNat && c.toNat ≤ 0xD) || (0x2000 ≤ c.toNat && c.toNat ≤ 0x200A)

/-- `str::trim`. -/
def trim (t : Text) : Text := ((t.dropWhile isWhitespace).reverse.dropWhile isWhitespace).reverse

/-- A text that does not start with white space is not blank. -/
theorem trim_cons_ne_nil {c : Char} (hc : isWhitespace c = false) (t : Text) :
    trim (c :: t) ≠ [] := by
  rw [trim, List.dropWhile_cons_of_neg (by simp [hc]), ne_eq, List.reverse_eq_nil_iff,
    List.dropWhile_eq_nil_iff]
  intro hall
  have hblank := hall c (List.mem_reverse.mpr List.mem_cons_self)
  rw [hc] at hblank
  cases hblank

/-- The UTF-8 encoding of a text. -/
def bytes (t : Text) : List UInt8 := t.flatMap String.utf8EncodeChar

/-! ## Blocks -/

inductive BlockType where
  | journal
  | ask
  | decision
  | system
  | systemEvent
  | toolCall
  | toolResult
  | error
  | walletTxRequested
  | walletTxSigned
  | walletTxBroadcast
  | walletTxConfirmed
  | walletTxFailed
  deriving DecidableEq, Repr

/-- The name a block type is serialised under. -/
def BlockType.name : BlockType → String
  | journal => "journal"
  | ask => "ask"
  | decision => "decision"
  | system => "system"
  | systemEvent => "system_event"
  | toolCall => "tool_call"
  | toolResult => "tool_result"
  | error => "error"
  | walletTxRequested => "wallet_tx_requested"
  | walletTxSigned => "wallet_tx_signed"
  | walletTxBroadcast => "wallet_tx_broadcast"
  | walletTxConfirmed => "wallet_tx_confirmed"
  | walletTxFailed => "wallet_tx_failed"

structure BlockData where
  blockType : BlockType
  content : Text
  tags : List Text
  deriving DecidableEq

structure Block where
  index : UInt64
  timestamp : Text
  chain : Text
  data : BlockData
  prevHash : Text
  hash : Text
  signer : Option Text
  signature : Option Text
  deriving DecidableEq

/-- A JSON string. -/
def jsonText {ν : Type} (t : Text) : Json ν := .str (ofText t)

/-- The serialised `BlockData`, as a value whose keys are kept sorted. -/
def BlockData.toValue (data : BlockData) : Json ℕ :=
  .obj [(js "content", jsonText data.content), (js "tags", .arr (data.tags.map jsonText)),
    (js "type", .str (js data.blockType.name))]

/-- The payload of a block's hash: everything but `hash`, `signer` and `signature`. -/
def hashPayload (block : Block) : Json ℕ :=
  .obj [(js "chain", jsonText block.chain), (js "data", block.data.toValue),
    (js "index", .num block.index.toNat), (js "prev_hash", jsonText block.prevHash),
    (js "timestamp", jsonText block.timestamp)]

variable (crates : Crates)

def computeHash (block : Block) : Text :=
  crates.sha256 ((hashPayload block).write digits [] [])

/-- The hash does not depend on who signed the block. -/
theorem computeHash_congr {a b : Block} (hindex : a.index = b.index)
    (htimestamp : a.timestamp = b.timestamp) (hchain : a.chain = b.chain) (hdata : a.data = b.data)
    (hprev : a.prevHash = b.prevHash) : computeHash crates a = computeHash crates b := by
  simp only [computeHash, hashPayload, hindex, htimestamp, hchain, hdata, hprev]

end MemphisCore

/-!
## Block signatures

Signing a block and the three-valued verification of its signature.
-/

namespace MemphisCore

open Ecma

/-- `hex::FromHexError`, as far as `hex::decode` raises it. -/
inductive FromHexError where
  | oddLength
  | invalidHexCharacter (c : UInt8) (index : ℕ)
  deriving DecidableEq

/-- The value of a hexadecimal digit at a position. -/
def hexVal (c : UInt8) (index : ℕ) : Except FromHexError ℕ :=
  match Json.hexValue (Char.ofNat c.toNat) with
  | some n => .ok n
  | none => .error (.invalidHexCharacter c index)

/-- The bytes of the digit pairs from a position on. -/
def hexPairs : List UInt8 → ℕ → Except FromHexError (List UInt8)
  | a :: b :: rest, index => do
    let hi ← hexVal a index
    let lo ← hexVal b (index + 1)
    let tail ← hexPairs rest (index + 2)
    return UInt8.ofNat (16 * hi + lo) :: tail
  | _, _ => .ok []

/-- `hex::decode`. -/
def hexDecode (t : Text) : Except FromHexError (List UInt8) :=
  if (bytes t).length % 2 ≠ 0 then .error .oddLength else hexPairs (bytes t) 0

/-- `hex::encode`. -/
def hexEncode (bs : List UInt8) : Text :=
  bs.flatMap fun b => [Json.hexDigit (b.toNat / 16), Json.hexDigit (b.toNat % 16)]

inductive SignatureError where
  | missingSignature
  | incompleteSignature
  | invalidHex (error : FromHexError)
  | invalidSigner
  | invalidSignature
  deriving DecidableEq

variable (crates : Crates)

def signBlock (block : Block) (signingKeyBytes : List UInt8) : Block :=
  { block with
    hash := computeHash crates block
    signer := some (hexEncode (crates.verifyingKeyBytes signingKeyBytes))
    signature := some (hexEncode (crates.sign signingKeyBytes (computeHash crates block))) }

/-- The verifying key a signer text encodes. -/
def decodeSigner (signerHex : Text) : Except SignatureError crates.VerifyingKey := do
  let signerBytes ← (hexDecode signerHex).mapError .invalidHex
  if signerBytes.length ≠ 32 then throw .invalidSigner
  match crates.keyFromBytes signerBytes with
  | some key => return key
  | none => throw .invalidSigner

/-- The signature a signature text encodes. -/
def decodeSignature (signatureHex : Text) : Except SignatureError crates.Signature := do
  let signatureBytes ← (hexDecode signatureHex).mapError .invalidHex
  match crates.signatureFromSlice signatureBytes with
  | some signature => return signature
  | none => throw .invalidSignature

/-- `Ok(false)` stands both for an unsigned block and for a signature that does not
verify. -/
def verifyBlockSignature (block : Block) : Except SignatureError Bool :=
  match block.signer, block.signature with
  | none, none => .ok false
  | some _, none => .error .incompleteSignature
  | none, some _ => .error .incompleteSignature
  | some signerHex, some signatureHex => do
    let verifyingKey ← decodeSigner crates signerHex
    let signature ← decodeSignature crates signatureHex
    return crates.verify verifyingKey (computeHash crates block) signature

/-- The block is signed and its signature is a valid one of its hash under its signer. -/
def ValidlySigned (block : Block) : Prop :=
  ∃ signerHex signatureHex key signature, block.signer = some signerHex ∧
    block.signature = some signatureHex ∧ decodeSigner crates signerHex = .ok key ∧
    decodeSignature crates signatureHex = .ok signature ∧
    crates.verify key block.hash signature = true

/-- The block carries a well-encoded signer and signature that do not belong to its
content. -/
def WronglySigned (block : Block) : Prop :=
  ∃ signerHex signatureHex key signature, block.signer = some signerHex ∧
    block.signature = some signatureHex ∧ decodeSigner crates signerHex = .ok key ∧
    decodeSignature crates signatureHex = .ok signature ∧
    crates.verify key (computeHash crates block) signature = false

end MemphisCore
