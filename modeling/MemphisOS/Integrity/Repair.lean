import MemphisOS.Bridge.Envelope
import MemphisOS.Ecma.Equality
import MemphisOS.Sequences.Parts

/-!
# Repairing a chain

`verifyChainIntegrity` checks the hash, the link and the signature of every block.
`repairChain` keeps the leading blocks whose hash and link are right and does not look at
signatures.
-/

namespace MemphisOS.Integrity

open Ecma Sequences
open Bridge (truthy)

structure Block where
  index : JsNumber
  timestamp : JsString
  data : Option Plain
  hash : JsString
  previousHash : JsString
  signature : Option JsString
  publicKey : Option JsString

/-- What the integrity manager uses of `node:crypto`. -/
structure CryptoHost where
  /-- The lower-case hexadecimal SHA-256 digest of the UTF-8 encoding of a text. -/
  sha256 : Text → Text
  /-- `verify.verify(publicKey, signature, 'hex')` of a text; `none` when it throws. -/
  verify : JsString → JsString → Text → Option Bool

inductive ErrorType where
  | hashMismatch
  | chainBroken
  | invalidSignature
  deriving DecidableEq

inductive Severity where
  | low
  | medium
  | high
  | critical
  deriving DecidableEq

structure IntegrityError where
  type : ErrorType
  blockIndex : ℕ
  severity : Severity
  expected : Option JsString
  actual : Option JsString

structure IntegrityResult where
  isValid : Bool
  errors : List IntegrityError
  blockCount : ℕ
  timestamp : JsString

structure RepairResult where
  repaired : Bool
  removedBlocks : Option ℕ
  remainingBlocks : Option ℕ
  message : Text

variable (host : CryptoHost)

/-- The object that is hashed; `JSON.stringify` leaves undefined data out. -/
def Block.hashed (block : Block) : Plain :=
  .obj ([(js "index", .num block.index), (js "timestamp", .str block.timestamp)] ++
    (block.data.map fun data => (js "data", data)).toList ++
    [(js "previousHash", .str block.previousHash)])

def computeHash (block : Block) : JsString := ofText (host.sha256 (jsonText [] block.hashed))

/-- Updating the verifier with the text of undefined data throws. -/
def verifySignature (block : Block) : Bool :=
  if !truthy (block.signature.map .str) || !truthy (block.publicKey.map .str) then false
  else
    match block.publicKey, block.signature, block.data with
    | some publicKey, some signature, some data =>
      (host.verify publicKey signature (jsonText [] data)).getD false
    | _, _, _ => false

/-- The errors of one block; there is no block before the first. -/
def blockErrors (i : ℕ) (prevBlock : Option Block) (block : Block) : List IntegrityError :=
  let computedHash := computeHash host block
  (if computedHash ≠ block.hash then
    [⟨.hashMismatch, i, .critical, some block.hash, some computedHash⟩] else []) ++
  (match prevBlock with
    | none => []
    | some prevBlock =>
      if block.previousHash ≠ prevBlock.hash then
        [⟨.chainBroken, i, .critical, some prevBlock.hash, some block.previousHash⟩] else []) ++
  (if truthy (block.signature.map .str) && !verifySignature host block then
    [⟨.invalidSignature, i, .high, none, none⟩] else [])

def chainErrors (i : ℕ) (prevBlock : Option Block) : List Block → List IntegrityError
  | [] => []
  | block :: blocks => blockErrors host i prevBlock block ++ chainErrors (i + 1) (some block) blocks

def verifyChainIntegrity (now : JsString) (blocks : List Block) : IntegrityResult :=
  let errors := chainErrors host 0 none blocks
  ⟨errors.isEmpty, errors, blocks.length, now⟩

/-- The loop that looks for the last valid block, from position `i` on. -/
def lastValidIndex (lastValid i : ℤ) (prevBlock : Option Block) : List Block → ℤ
  | [] => lastValid
  | block :: blocks =>
    if computeHash host block ≠ block.hash then lastValid
    else
      match prevBlock with
      | none => lastValidIndex i (i + 1) (some block) blocks
      | some prevBlock =>
        if block.previousHash ≠ prevBlock.hash then lastValid
        else lastValidIndex i (i + 1) (some block) blocks

/-- The result and the blocks the chain is left with. -/
def repairChain (now : JsString) (blocks : List Block) : RepairResult × List Block :=
  if (verifyChainIntegrity host now blocks).isValid then
    (⟨false, none, none, "Chain is valid, no repair needed".toList⟩, blocks)
  else
    let last := lastValidIndex host (-1) 0 none blocks
    let kept := blocks.take (last + 1).toNat
    let removedCount := blocks.length - (last + 1).toNat
    (⟨true, some removedCount, some kept.length,
      "Removed ".toList ++ digits removedCount ++ " corrupted blocks".toList⟩, kept)

/-! ## The checks of a block -/

/-- The hash of a block is right and it names the hash of the block before it. -/
def linksRight (prevBlock : Option Block) (block : Block) : Bool :=
  decide (computeHash host block = block.hash) &&
    prevBlock.all fun prevBlock => decide (block.previousHash = prevBlock.hash)

/-- A block has no signature or a valid one. -/
def signatureRight (block : Block) : Bool :=
  !truthy (block.signature.map .str) || verifySignature host block

variable {host} {blocks p : List Block} {now : JsString}

theorem isEmpty_append {α : Type} (l l' : List α) :
    (l ++ l').isEmpty = (l.isEmpty && l'.isEmpty) := by
  cases l <;> rfl

theorem blockErrors_eq_nil (i : ℕ) (prevBlock : Option Block) (block : Block) :
    (blockErrors host i prevBlock block).isEmpty =
      (linksRight host prevBlock block && signatureRight host block) := by
  unfold blockErrors
  dsimp only
  rw [isEmpty_append, isEmpty_append, linksRight]
  have hhash : (if computeHash host block ≠ block.hash then
      [(⟨.hashMismatch, i, .critical, some block.hash, some (computeHash host block)⟩ :
        IntegrityError)] else []).isEmpty = decide (computeHash host block = block.hash) := by
    by_cases h : computeHash host block = block.hash
    · rw [if_neg (not_not.mpr h), decide_eq_true h]
      rfl
    · rw [if_pos h, decide_eq_false h]
      rfl
  have hsignature : (if truthy (block.signature.map .str) && !verifySignature host block then
      [(⟨.invalidSignature, i, .high, none, none⟩ : IntegrityError)] else []).isEmpty =
        signatureRight host block := by
    rw [signatureRight]
    cases truthy (block.signature.map .str) <;> cases verifySignature host block <;> rfl
  rw [hhash, hsignature]
  congr 2
  cases prevBlock with
  | none => rfl
  | some prevBlock =>
    by_cases h : block.previousHash = prevBlock.hash
    · simp [h]
    · simp [h]

/-- A chain passes verification when every block passes its checks. -/
theorem chainErrors_eq_nil (i : ℕ) (prevBlock : Option Block) (blocks : List Block) :
    (chainErrors host i prevBlock blocks).isEmpty =
      (allGood (linksRight host) prevBlock blocks && blocks.all (signatureRight host)) := by
  rw [← allGood_and]
  induction blocks generalizing i prevBlock with
  | nil => rfl
  | cons block blocks ih =>
    rw [chainErrors, isEmpty_append, blockErrors_eq_nil, ih, allGood]

theorem isValid_eq (now : JsString) (blocks : List Block) :
    (verifyChainIntegrity host now blocks).isValid =
      (allGood (linksRight host) none blocks && blocks.all (signatureRight host)) :=
  chainErrors_eq_nil 0 none blocks

/-- The loop stops at the end of the leading blocks with the right hash and link. -/
theorem lastValidIndex_eq (i : ℤ) (prevBlock : Option Block) (blocks : List Block) :
    lastValidIndex host (i - 1) i prevBlock blocks =
      i - 1 + (goodPrefix (linksRight host) prevBlock blocks).length := by
  induction blocks generalizing i prevBlock with
  | nil => rw [lastValidIndex, goodPrefix, List.length_nil, Nat.cast_zero, add_zero]
  | cons block blocks ih =>
    have hnext := ih (i + 1) (some block)
    rw [add_sub_cancel_right] at hnext
    unfold lastValidIndex
    rw [goodPrefix, linksRight]
    by_cases hhash : computeHash host block = block.hash
    · rw [if_neg (not_not.mpr hhash), decide_eq_true hhash, Bool.true_and]
      cases prevBlock with
      | none =>
        rw [Option.all_none, if_pos rfl, List.length_cons]
        dsimp only
        rw [hnext]
        push_cast
        ring
      | some prevBlock =>
        rw [Option.all_some]
        dsimp only
        by_cases hlink : block.previousHash = prevBlock.hash
        · rw [if_neg (not_not.mpr hlink), if_pos (decide_eq_true hlink), hnext, List.length_cons]
          push_cast
          ring
        · rw [if_pos hlink, decide_eq_false hlink, if_neg Bool.false_ne_true, List.length_nil,
            Nat.cast_zero, add_zero]
    · rw [if_pos hhash, decide_eq_false hhash, Bool.false_and, if_neg Bool.false_ne_true,
        List.length_nil, Nat.cast_zero, add_zero]

/-- What repair leaves of a chain: all of a valid one, and of another the leading blocks with the
right hash and link. -/
theorem blocks_repairChain (now : JsString) (blocks : List Block) :
    (repairChain host now blocks).2 = goodPrefix (linksRight host) none blocks := by
  rw [repairChain]
  split
  · next hvalid =>
    rw [isValid_eq, Bool.and_eq_true] at hvalid
    exact (goodPrefix_eq_self hvalid.1).symm
  · have hlast := @lastValidIndex_eq host 0 none blocks
    rw [zero_sub] at hlast
    have hcount : (lastValidIndex host (-1) 0 none blocks + 1).toNat =
        (goodPrefix (linksRight host) none blocks).length := by omega
    dsimp only
    rw [hcount]
    exact (List.prefix_iff_eq_take.mp (goodPrefix_isPrefix (linksRight host) none blocks)).symm

/-! ## When repair is right -/

/-- The repaired chain passes verification, it is the longest leading part of the chain that
does, and another repair changes nothing. -/
def RepairsRight (host : CryptoHost) (now : JsString) (blocks : List Block) : Prop :=
  let repaired := (repairChain host now blocks).2
  (verifyChainIntegrity host now repaired).isValid = true ∧
    repaired <+: blocks ∧
    (∀ p, p <+: blocks → (verifyChainIntegrity host now p).isValid = true →
      p.length ≤ repaired.length) ∧
    (repairChain host now repaired).2 = repaired

/-- In every leading part of the chain with right hashes and links, no block carries a signature
that is not valid. -/
def LeadingSignaturesRight (host : CryptoHost) (blocks : List Block) : Prop :=
  ∀ p, p <+: blocks → allGood (linksRight host) none p = true →
    p.all (signatureRight host) = true

/-- **Repair does what verification asks for exactly when no block before the first wrong hash
or link carries a signature that is not valid.** -/
theorem repairsRight_iff (host : CryptoHost) (now : JsString) (blocks : List Block) :
    RepairsRight host now blocks ↔ LeadingSignaturesRight host blocks := by
  unfold RepairsRight LeadingSignaturesRight
  dsimp only
  rw [blocks_repairChain, blocks_repairChain, isValid_eq]
  have hgood := allGood_goodPrefix (linksRight host) none blocks
  constructor
  · rintro ⟨hvalid, -, -, -⟩ p hp hright
    rw [Bool.and_eq_true] at hvalid
    obtain ⟨rest, hrest⟩ := prefix_goodPrefix hp hright
    rw [← hrest, List.all_append, Bool.and_eq_true] at hvalid
    exact hvalid.2.1
  · intro hsignatures
    have hpre := goodPrefix_isPrefix (linksRight host) none blocks
    refine ⟨?_, hpre, ?_, goodPrefix_eq_self hgood⟩
    · rw [hgood, hsignatures _ hpre hgood, Bool.and_self]
    · intro p hp hvalid
      rw [isValid_eq, Bool.and_eq_true] at hvalid
      exact (prefix_goodPrefix hp hvalid.1).length_le

/-- A block with the right hash that is signed but names no public key. -/
def keylessBlock (host : CryptoHost) : Block :=
  let block : Block := ⟨.ofNat 0, js "2026-01-01T00:00:00.000Z", some (.str (js "note")), [],
    ofText (List.replicate 64 '0'), some (js "aa"), none⟩
  { block with hash := computeHash host block }

/-- The block fails verification under every implementation of the platform and stays in the
repaired chain. -/
theorem isValid_keylessBlock (host : CryptoHost) (now : JsString) :
    (verifyChainIntegrity host now (repairChain host now [keylessBlock host]).2).isValid =
      false := by
  have hlinks : linksRight host none (keylessBlock host) = true :=
    Bool.and_eq_true_iff.mpr ⟨decide_eq_true rfl, rfl⟩
  rw [blocks_repairChain, goodPrefix, if_pos hlinks, isValid_eq, Bool.and_eq_false_iff]
  exact .inr rfl

/-- So repair does not always give a chain that passes, whatever is hashed and verified how. -/
theorem keyless_block_kept :
    (¬ ∃ (host : CryptoHost) (now : JsString), RepairsRight host now [keylessBlock host]) ∧
      ¬ ∀ (host : CryptoHost) (now : JsString) (blocks : List Block),
        RepairsRight host now blocks := by
  have hwrong : ∀ (host : CryptoHost) (now : JsString),
      ¬ RepairsRight host now [keylessBlock host] := fun host now hright =>
    Bool.false_ne_true ((isValid_keylessBlock host now).symm.trans hright.1)
  refine ⟨fun ⟨host, now, hright⟩ => hwrong host now hright, fun hall => ?_⟩
  let host : CryptoHost := ⟨id, fun _ _ _ => none⟩
  exact hwrong host [] (hall host [] [keylessBlock host])

end MemphisOS.Integrity
