import MemphisOS.Core.Block

/-!
# Block validation, chains and replay

The rules a block has to meet after its predecessor, the in-memory chain that checks
them on append, and the replay of a list of blocks.
-/

namespace MemphisCore

open Ecma

/-- A message when its condition holds. -/
def errorIf (condition : Prop) [Decidable condition] (message : String) : List Text :=
  if condition then [message.toList] else []

/-- `"0".repeat(64)`. -/
def zeroHash : Text := List.replicate 64 '0'

def FromHexError.text : FromHexError → Text
  | oddLength => "Odd number of digits".toList
  | invalidHexCharacter c index =>
    "Invalid character '".toList ++ Char.ofNat c.toNat :: "' at position ".toList ++ digits index

def SignatureError.text : SignatureError → Text
  | missingSignature => "block has neither signer nor signature".toList
  | incompleteSignature => "signer and signature must both be present".toList
  | invalidHex error => "invalid hex payload: ".toList ++ error.text
  | invalidSigner => "invalid signer key encoding".toList
  | invalidSignature => "invalid signature encoding".toList

variable (crates : Crates)

/-! ## Rules -/

/-- The rules on the chain name, the content, the timestamp and the hash. -/
def fieldErrors (block : Block) : List Text :=
  errorIf (trim block.chain = []) "chain must not be empty" ++
  errorIf ('\x00' ∈ block.chain) "chain contains invalid null byte" ++
  errorIf (['.', '.'] <:+: block.chain ∨ '/' ∈ block.chain ∨ '\\' ∈ block.chain)
    "chain contains invalid path characters" ++
  errorIf (trim block.data.content = []) "content must not be empty" ++
  errorIf (crates.parseFromRfc3339 block.timestamp = none) "timestamp must be RFC3339" ++
  errorIf (block.hash ≠ computeHash crates block) "hash mismatch"

/-- The rule on the signature. -/
def signatureErrors (requireSignature : Bool) (block : Block) : List Text :=
  match verifyBlockSignature crates block with
  | .ok true => []
  | .ok false => errorIf (requireSignature = true) "signature required in strict mode"
  | .error err => ["signature validation failed: ".toList ++ err.text]

/-- The rules that tie a block to its predecessor. -/
def linkErrors (block : Block) : Option Block → List Text
  | none =>
    errorIf (block.index ≠ 0 ∧ block.index ≠ 1) "genesis must have index 0 or 1" ++
    errorIf (block.prevHash ≠ zeroHash) "genesis must have zero prev_hash"
  | some p =>
    errorIf (block.index ≠ p.index + 1) "index not sequential" ++
    errorIf (block.prevHash ≠ p.hash) "prev_hash doesn't match previous block" ++
    match crates.parseFromRfc3339 p.timestamp, crates.parseFromRfc3339 block.timestamp with
    | none, _ => ["previous block timestamp must be RFC3339".toList]
    | some prevTs, some blockTs => errorIf (blockTs < prevTs) "timestamp before previous block"
    | some _, none => []

def validateBlockInternal (block : Block) (prev : Option Block) (requireSignature : Bool) :
    Except (List Text) Unit :=
  let errors := fieldErrors crates block ++ signatureErrors crates requireSignature block ++
    linkErrors crates block prev
  if errors = [] then .ok () else .error errors

def validateBlock (block : Block) (prev : Option Block) : Except (List Text) Unit :=
  validateBlockInternal crates block prev false

def validateBlockStrict (block : Block) (prev : Option Block) : Except (List Text) Unit :=
  validateBlockInternal crates block prev true

/-! ## Chains -/

structure MemoryChain where
  name : Text
  blocks : List Block

def MemoryChain.new (name : Text) : MemoryChain := ⟨name, []⟩

/-- Push the block when it is valid after the last one. -/
def MemoryChain.append (chain : MemoryChain) (block : Block) :
    Except (List Text) MemoryChain := do
  validateBlock crates block chain.blocks.getLast?
  return { chain with blocks := chain.blocks ++ [block] }

/-- `append` in strict mode. -/
def MemoryChain.appendStrict (chain : MemoryChain) (block : Block) :
    Except (List Text) MemoryChain := do
  validateBlockStrict crates block chain.blocks.getLast?
  return { chain with blocks := chain.blocks ++ [block] }

/-! ## Replay -/

structure ReplaySnapshot where
  blocks : ℕ
  lastHash : Option Text
  stateHash : Text
  deriving DecidableEq

structure ReplayReport where
  accepted : ℕ
  rejected : ℕ
  errors : List Text
  snapshot : ReplaySnapshot
  deriving DecidableEq

/-- The hash a snapshot uses for a block. -/
def snapshotHash (block : Block) : Text :=
  if trim block.hash = [] then computeHash crates block else block.hash

def snapshot (chain : MemoryChain) : ReplaySnapshot where
  blocks := chain.blocks.length
  lastHash := chain.blocks.getLast?.map (snapshotHash crates)
  stateHash := crates.sha256 (chain.blocks.flatMap (snapshotHash crates))

/-- The texts one after another with a separator between them. -/
def join (separator : String) (parts : List Text) : Text :=
  Json.joinWith separator.toList parts

/-- The loop variables of `replay`. -/
structure ReplayState where
  chain : MemoryChain
  accepted : ℕ
  rejected : ℕ
  errors : List Text

/-- One round of the loop of `replay`. -/
def replayStep (state : ReplayState) (block : Block) : ReplayState :=
  match validateBlock crates block state.chain.blocks.getLast? with
  | .ok () =>
    { state with
      chain := { state.chain with blocks := state.chain.blocks ++ [block] }
      accepted := state.accepted + 1 }
  | .error errs =>
    { state with
      rejected := state.rejected + 1
      errors := state.errors ++
        ["block_index_".toList ++ digits block.index.toNat ++ ": ".toList ++ join "; " errs] }

/-- The loop variables after all rounds. -/
def replayLoop (chainName : Text) (blocks : List Block) : ReplayState :=
  blocks.foldl (replayStep crates) ⟨.new chainName, 0, 0, []⟩

def replay (chainName : Text) (blocks : List Block) : ReplayReport :=
  let state := replayLoop crates chainName blocks
  ⟨state.accepted, state.rejected, state.errors, snapshot crates state.chain⟩

/-! ## When the rules accept -/

/-- Every rule but the one on the signature holds. -/
def OtherRulesHold (block : Block) (prev : Option Block) : Prop :=
  fieldErrors crates block = [] ∧ linkErrors crates block prev = []

variable {crates} {block : Block} {prev : Option Block} {requireSignature : Bool}

theorem errorIf_eq_nil {condition : Prop} [Decidable condition] {message : String} :
    errorIf condition message = [] ↔ ¬condition := by
  simp [errorIf]

/-- Acceptance is the conjunction of the rules. -/
theorem validateBlockInternal_eq_ok :
    validateBlockInternal crates block prev requireSignature = .ok () ↔
      OtherRulesHold crates block prev ∧
        signatureErrors crates requireSignature block = [] := by
  simp only [validateBlockInternal, OtherRulesHold, List.append_eq_nil_iff]
  constructor
  · intro h
    split at h
    · next hnil => exact ⟨⟨hnil.1.1, hnil.2⟩, hnil.1.2⟩
    · cases h
  · rintro ⟨⟨hfields, hlink⟩, hsignature⟩
    rw [if_pos ⟨⟨hfields, hsignature⟩, hlink⟩]

/-- The rule on the signature passes a block only when verification raised no error,
and in strict mode only when it said yes. -/
theorem signatureErrors_eq_nil : signatureErrors crates requireSignature block = [] ↔
    verifyBlockSignature crates block = .ok true ∨
      (requireSignature = false ∧ verifyBlockSignature crates block = .ok false) := by
  unfold signatureErrors
  cases verifyBlockSignature crates block with
  | ok valid =>
    cases valid with
    | true => simp only [true_or]
    | false => simp only [errorIf_eq_nil, Except.ok.injEq, Bool.false_eq_true, false_or,
        and_true, Bool.not_eq_true]
  | error err => simp only [List.cons_ne_nil, reduceCtorEq, and_false, or_self]

/-- The field rules fix the hash. -/
theorem hash_eq_of_fieldErrors (h : fieldErrors crates block = []) :
    block.hash = computeHash crates block := by
  simp only [fieldErrors, List.append_eq_nil_iff, errorIf_eq_nil, not_not] at h
  exact h.2

end MemphisCore

/-!
## The native append

What `chain_append` of `memphis-napi` does with a deserialised chain and block: it signs
an unsigned block when a signing key is configured, validates it and pushes it.
-/

namespace MemphisCore

open Ecma

/-- The environment variables that are set to valid Unicode. -/
abbrev Env := String → Option Text

def parseBoolEnv (env : Env) (name : String) (default : Bool) : Bool :=
  match env name with
  | some v => (trim v).map Char.toLower = "true".toList
  | none => default

def requireSignedBlocks (env : Env) : Bool :=
  parseBoolEnv env "RUST_CHAIN_REQUIRE_SIGNATURES" false

def signerKeyFromEnv (env : Env) : Except Text (Option (List UInt8)) :=
  match env "RUST_CHAIN_SIGNER_KEY_HEX" with
  | none => .ok none
  | some raw =>
    if trim raw = [] then .ok none
    else
      match hexDecode (trim raw) with
      | .error e => .error ("invalid RUST_CHAIN_SIGNER_KEY_HEX: ".toList ++ e.text)
      | .ok keyBytes =>
        if keyBytes.length = 32 then .ok (some keyBytes)
        else .error "invalid RUST_CHAIN_SIGNER_KEY_HEX: expected 32-byte hex".toList

variable (crates : Crates)

def maybeSignUnsignedBlock (env : Env) (block : Block) : Except Text Block :=
  if block.signer.isSome ∨ block.signature.isSome then .ok block
  else
    match signerKeyFromEnv env with
    | .error e => .error e
    | .ok none => .ok block
    | .ok (some key) => .ok (signBlock crates block key)

/-- The three answers of `chain_append`. -/
inductive AppendAnswer where
  | failed (error : Text)
  | rejected (errors : List Text)
  | appended (chain : List Block)
  deriving DecidableEq

/-- `chain_append` after its arguments have been deserialised. -/
def appendBlock (env : Env) (blocks : List Block) (block : Block) : AppendAnswer :=
  match maybeSignUnsignedBlock crates env block with
  | .error e => .failed e
  | .ok block =>
    let validation :=
      if requireSignedBlocks env then validateBlockStrict crates block blocks.getLast?
      else validateBlock crates block blocks.getLast?
    match validation with
    | .error errors => .rejected errors
    | .ok () => .appended (blocks ++ [block])

end MemphisCore
