import MemphisOS.Core.Soul
import MemphisOS.Systems.Transition

/-!
# Signatures over whole runs

Which signed blocks non-strict validation accepts, and what that means for a chain that
is built by any sequence of appends and replays.
-/

namespace MemphisCore

open Ecma

variable {crates : Crates} {block : Block} {prev : Option Block}

/-! ## One block -/

/-- Verification says yes exactly to a decodable signature that verifies. -/
theorem verifyBlockSignature_eq_true : verifyBlockSignature crates block = .ok true ↔
    ∃ signerHex signatureHex key signature, block.signer = some signerHex ∧
      block.signature = some signatureHex ∧ decodeSigner crates signerHex = .ok key ∧
      decodeSignature crates signatureHex = .ok signature ∧
      crates.verify key (computeHash crates block) signature = true := by
  unfold verifyBlockSignature
  cases hsigner : block.signer with
  | none => cases hsignature : block.signature <;> simp
  | some signerHex =>
    cases hsignature : block.signature with
    | none => simp
    | some signatureHex =>
      cases hkey : decodeSigner crates signerHex with
      | error e => simp [bind, Except.bind, hkey]
      | ok key =>
        cases hsig : decodeSignature crates signatureHex with
        | error e => simp [bind, Except.bind, hkey, hsig]
        | ok signature => simp [bind, Except.bind, pure, Except.pure, hkey, hsig]

/-- Verification says no to an unsigned block and to a wrong signature alike. -/
theorem verifyBlockSignature_eq_false : verifyBlockSignature crates block = .ok false ↔
    (block.signer = none ∧ block.signature = none) ∨ WronglySigned crates block := by
  unfold verifyBlockSignature WronglySigned
  cases hsigner : block.signer with
  | none => cases hsignature : block.signature <;> simp
  | some signerHex =>
    cases hsignature : block.signature with
    | none => simp
    | some signatureHex =>
      cases hkey : decodeSigner crates signerHex with
      | error e => simp [bind, Except.bind, hkey]
      | ok key =>
        cases hsig : decodeSignature crates signatureHex with
        | error e => simp [bind, Except.bind, hkey, hsig]
        | ok signature => simp [bind, Except.bind, pure, Except.pure, hkey, hsig]

/-- Both fields of a signature are present. -/
def Signed (block : Block) : Prop := block.signer.isSome ∧ block.signature.isSome

instance : Decidable (Signed block) := inferInstanceAs (Decidable (_ ∧ _))

/-- A block whose hash is its own is signed validly when verification says so. -/
theorem validlySigned_iff (hhash : block.hash = computeHash crates block) :
    ValidlySigned crates block ↔ verifyBlockSignature crates block = .ok true := by
  rw [verifyBlockSignature_eq_true, ValidlySigned, hhash]

/-- A wrong signature is not a valid one. -/
theorem WronglySigned.not_validlySigned (h : WronglySigned crates block)
    (hhash : block.hash = computeHash crates block) : ¬ValidlySigned crates block := by
  rw [validlySigned_iff hhash, verifyBlockSignature_eq_false.mpr (.inr h)]
  simp

/-- Strict validation accepts validly signed blocks only. -/
theorem validlySigned_of_validateBlockStrict
    (h : validateBlockStrict crates block prev = .ok ()) : ValidlySigned crates block := by
  obtain ⟨⟨hfields, -⟩, hsignature⟩ := validateBlockInternal_eq_ok.mp h
  rw [validlySigned_iff (hash_eq_of_fieldErrors hfields)]
  simpa using signatureErrors_eq_nil.mp hsignature

/-- Non-strict validation accepts what the other rules accept, unless decoding the
signature fails. -/
theorem validateBlock_eq_ok : validateBlock crates block prev = .ok () ↔
    OtherRulesHold crates block prev ∧ ∃ valid, verifyBlockSignature crates block = .ok valid := by
  rw [validateBlock, validateBlockInternal_eq_ok, signatureErrors_eq_nil]
  simp [Bool.exists_bool, or_comm]

/-- A signed block that non-strict validation accepts is signed validly or wrongly. -/
theorem validlySigned_or_wronglySigned (h : validateBlock crates block prev = .ok ())
    (hsigned : Signed block) : ValidlySigned crates block ∨ WronglySigned crates block := by
  obtain ⟨⟨hfields, -⟩, valid, hvalid⟩ := validateBlock_eq_ok.mp h
  rw [validlySigned_iff (hash_eq_of_fieldErrors hfields)]
  cases valid with
  | true => exact .inl hvalid
  | false =>
    rcases verifyBlockSignature_eq_false.mp hvalid with ⟨hsigner, -⟩ | hwrong
    · simp [Signed, hsigner] at hsigned
    · exact .inr hwrong

/-- Whether acceptance of a block implies that its signature, if any, is valid. -/
def SignatureRespected (crates : Crates) (block : Block) (prev : Option Block) : Prop :=
  validateBlock crates block prev = .ok () → Signed block → ValidlySigned crates block

/-- A wrong signature goes unnoticed exactly when no other rule rejects the block. -/
theorem signatureRespected_iff : SignatureRespected crates block prev ↔
    ¬WronglySigned crates block ∨ ¬OtherRulesHold crates block prev := by
  constructor
  · intro h
    by_contra hnot
    push Not at hnot
    obtain ⟨hwrong, hrules⟩ := hnot
    have hfalse := verifyBlockSignature_eq_false.mpr (.inr hwrong)
    have haccepted := validateBlock_eq_ok.mpr ⟨hrules, false, hfalse⟩
    have hsigned : Signed block := by
      obtain ⟨_, _, _, _, hsigner, hsignature, -⟩ := hwrong
      simp [Signed, hsigner, hsignature]
    exact hwrong.not_validlySigned (hash_eq_of_fieldErrors hrules.1) (h haccepted hsigned)
  · rintro (hwrong | hrules) haccepted hsigned
    · exact (validlySigned_or_wronglySigned haccepted hsigned).resolve_right hwrong
    · exact absurd (validateBlock_eq_ok.mp haccepted).1 hrules

/-! ## Runs -/

/-- The ways a chain is extended or rebuilt. -/
inductive ChainOp where
  | append (block : Block)
  | appendStrict (block : Block)
  | chainAppend (env : Env) (block : Block)
  | replay (blocks : List Block)

/-- The chain after an operation; a rejected block leaves it unchanged. -/
def ChainOp.run (crates : Crates) (chain : MemoryChain) : ChainOp → MemoryChain
  | .append block => (chain.append crates block).toOption.getD chain
  | .appendStrict block => (chain.appendStrict crates block).toOption.getD chain
  | .chainAppend env block =>
    match appendBlock crates env chain.blocks block with
    | .appended blocks => { chain with blocks := blocks }
    | _ => chain
  | .replay blocks => (replayLoop crates chain.name blocks).chain

/-- The blocks whose signature an operation checks in non-strict mode. -/
def ChainOp.checked (crates : Crates) : ChainOp → List Block
  | .append block => [block]
  | .appendStrict _ => []
  | .chainAppend env block =>
    if requireSignedBlocks env then []
    else (maybeSignUnsignedBlock crates env block).toOption.toList
  | .replay blocks => blocks

/-- A chain and the operations on it, starting empty. -/
def chainSystem (crates : Crates) (name : Text) : TransitionSystem MemoryChain ChainOp :=
  .ofFunction (.new name) (ChainOp.run crates)

/-- No block the operation checks in non-strict mode is wrongly signed. -/
def NoWrongSignature (crates : Crates) (_ : MemoryChain) (op : ChainOp) : Prop :=
  ∀ block ∈ op.checked crates, ¬WronglySigned crates block

/-- Every signed block of a chain is validly signed. -/
def AllValidlySigned (crates : Crates) (blocks : List Block) : Prop :=
  ∀ block ∈ blocks, Signed block → ValidlySigned crates block

theorem AllValidlySigned.concat {blocks : List Block} (h : AllValidlySigned crates blocks)
    (hblock : Signed block → ValidlySigned crates block) :
    AllValidlySigned crates (blocks ++ [block]) := by
  intro b hb
  rcases List.mem_append.mp hb with hb | hb
  · exact h b hb
  · obtain rfl := List.mem_singleton.mp hb
    exact hblock

theorem append_eq_ok {chain chain' : MemoryChain} (h : chain.append crates block = .ok chain') :
    validateBlock crates block chain.blocks.getLast? = .ok () ∧
      chain'.blocks = chain.blocks ++ [block] := by
  cases hvalid : validateBlock crates block chain.blocks.getLast? with
  | error e => simp [MemoryChain.append, hvalid, bind, Except.bind] at h
  | ok u =>
    simp only [MemoryChain.append, hvalid, bind, Except.bind, pure, Except.pure,
      Except.ok.injEq] at h
    exact ⟨rfl, h ▸ rfl⟩

theorem appendStrict_eq_ok {chain chain' : MemoryChain}
    (h : chain.appendStrict crates block = .ok chain') :
    validateBlockStrict crates block chain.blocks.getLast? = .ok () ∧
      chain'.blocks = chain.blocks ++ [block] := by
  cases hvalid : validateBlockStrict crates block chain.blocks.getLast? with
  | error e => simp [MemoryChain.appendStrict, hvalid, bind, Except.bind] at h
  | ok u =>
    simp only [MemoryChain.appendStrict, hvalid, bind, Except.bind, pure, Except.pure,
      Except.ok.injEq] at h
    exact ⟨rfl, h ▸ rfl⟩

/-- `chain_append` pushes a block only after validating it. -/
theorem appendBlock_eq_appended {env : Env} {blocks blocks' : List Block}
    (h : appendBlock crates env blocks block = .appended blocks') :
    ∃ signed, maybeSignUnsignedBlock crates env block = .ok signed ∧
      blocks' = blocks ++ [signed] ∧
      (if requireSignedBlocks env then validateBlockStrict crates signed blocks.getLast?
        else validateBlock crates signed blocks.getLast?) = .ok () := by
  unfold appendBlock at h
  split at h
  · cases h
  · next signed hsigned =>
    refine ⟨signed, hsigned, ?_⟩
    generalize (if requireSignedBlocks env then validateBlockStrict crates signed blocks.getLast?
      else validateBlock crates signed blocks.getLast?) = validation at h
    cases validation with
    | error es => cases h
    | ok u =>
      injection h with h
      exact ⟨h.symm, rfl⟩

/-- One round of a replay keeps the chain validly signed. -/
theorem allValidlySigned_replayStep {state : ReplayState}
    (hstate : AllValidlySigned crates state.chain.blocks) (hblock : ¬WronglySigned crates block) :
    AllValidlySigned crates (replayStep crates state block).chain.blocks := by
  unfold replayStep
  split
  · next hvalid =>
    apply hstate.concat
    intro hsigned
    exact (validlySigned_or_wronglySigned hvalid hsigned).resolve_right hblock
  · exact hstate

/-- A replay of blocks without wrong signatures builds a validly signed chain. -/
theorem allValidlySigned_replayLoop (name : Text) {blocks : List Block}
    (hblocks : ∀ block ∈ blocks, ¬WronglySigned crates block) :
    AllValidlySigned crates (replayLoop crates name blocks).chain.blocks := by
  have hloop : ∀ state : ReplayState, AllValidlySigned crates state.chain.blocks →
      AllValidlySigned crates (blocks.foldl (replayStep crates) state).chain.blocks := by
    induction blocks with
    | nil => exact fun state hstate => hstate
    | cons block blocks ih =>
      intro state hstate
      rw [List.foldl_cons]
      apply ih (fun b hb => hblocks b (by simp [hb]))
      exact allValidlySigned_replayStep hstate (hblocks block (by simp))
  exact hloop _ (by simp [AllValidlySigned, MemoryChain.new])

/-- An operation that checks no wrong signature keeps the chain validly signed. -/
theorem allValidlySigned_run {chain : MemoryChain} {op : ChainOp}
    (hchain : AllValidlySigned crates chain.blocks) (hop : NoWrongSignature crates chain op) :
    AllValidlySigned crates (op.run crates chain).blocks := by
  cases op with
  | append block =>
    cases happend : chain.append crates block with
    | error e => simpa [ChainOp.run, happend, Except.toOption] using hchain
    | ok chain' =>
      obtain ⟨hvalid, hblocks⟩ := append_eq_ok happend
      have hwrong := hop block (by simp [ChainOp.checked])
      simp only [ChainOp.run, happend, Except.toOption, Option.getD_some, hblocks]
      exact hchain.concat fun hsigned =>
        (validlySigned_or_wronglySigned hvalid hsigned).resolve_right hwrong
  | appendStrict block =>
    cases happend : chain.appendStrict crates block with
    | error e => simpa [ChainOp.run, happend, Except.toOption] using hchain
    | ok chain' =>
      obtain ⟨hvalid, hblocks⟩ := appendStrict_eq_ok happend
      simp only [ChainOp.run, happend, Except.toOption, Option.getD_some, hblocks]
      exact hchain.concat fun _ => validlySigned_of_validateBlockStrict hvalid
  | chainAppend env block =>
    cases happend : appendBlock crates env chain.blocks block with
    | failed e => simpa [ChainOp.run, happend] using hchain
    | rejected es => simpa [ChainOp.run, happend] using hchain
    | appended blocks =>
      obtain ⟨signed, hsigned, rfl, hvalid⟩ := appendBlock_eq_appended happend
      simp only [ChainOp.run, happend]
      apply hchain.concat
      intro hboth
      by_cases hstrict : requireSignedBlocks env = true
      · rw [if_pos hstrict] at hvalid
        exact validlySigned_of_validateBlockStrict hvalid
      · rw [if_neg hstrict] at hvalid
        have hwrong := hop signed (by simp [ChainOp.checked, hstrict, hsigned, Except.toOption])
        exact (validlySigned_or_wronglySigned hvalid hboth).resolve_right hwrong
  | replay blocks => exact allValidlySigned_replayLoop chain.name hop

/-- **Signatures.** Non-strict validation lets a signed block through only with a valid
signature, exactly except for decodable wrong signatures on blocks that break no other
rule; and a chain built by operations that present no such block holds none. -/
theorem signed_blocks_valid_iff_not_wronglySigned (crates : Crates) :
    (∀ block prev, SignatureRespected crates block prev ↔
      ¬WronglySigned crates block ∨ ¬OtherRulesHold crates block prev) ∧
    ∀ name chain, ((chainSystem crates name).restrict (NoWrongSignature crates)).Reachable chain →
      AllValidlySigned crates chain.blocks := by
  refine ⟨fun block prev => signatureRespected_iff, fun name chain hreach => ?_⟩
  apply hreach.invariant
  · rintro s rfl
    simp [AllValidlySigned, MemoryChain.new]
  · rintro s op t hs ⟨hguard, rfl⟩
    exact allValidlySigned_run hs hguard

/-! ## A block with a wrong signature -/

/-- Crates whose functions answer as the real ones do on `forgedBlock`: the digest is the
one of its payload, the signer is a point of the curve, and a signature of zero bytes
verifies under no such key. -/
def sampleCrates : Crates where
  sha256 _ := "36b58d29145d671d03a5f373f13e76fdd86ebbc34f9612847d15582c1613dcb4".toList
  parseFromRfc3339 _ := some 1773003600
  VerifyingKey := List UInt8
  Signature := List UInt8
  keyFromBytes := some
  signatureFromSlice bs := if bs.length = 64 then some bs else none
  verify _ _ _ := false
  verifyingKeyBytes := id
  sign _ _ := List.replicate 64 0

/-- A genesis block whose signature is 64 zero bytes. -/
def forgedBlock : Block where
  index := 0
  timestamp := "2026-03-08T21:00:00Z".toList
  chain := "journal".toList
  data := ⟨.journal, "ok".toList, []⟩
  prevHash := zeroHash
  hash := "36b58d29145d671d03a5f373f13e76fdd86ebbc34f9612847d15582c1613dcb4".toList
  signer := some "d75a980182b10ab7d54bfed3c964073a0ee172f3daa62325af021a68f707511a".toList
  signature := some (List.replicate 128 '0')

/-- The forged block is accepted and appended although its signature is not valid. -/
theorem forgedBlock_accepted :
    validateBlock sampleCrates forgedBlock none = .ok () ∧ Signed forgedBlock ∧
      ¬ValidlySigned sampleCrates forgedBlock ∧
      ((MemoryChain.new "journal".toList).append sampleCrates forgedBlock).toOption.map
        MemoryChain.blocks = some [forgedBlock] := by
  refine ⟨by decide +kernel, by decide +kernel, ?_, by decide +kernel⟩
  rintro ⟨_, _, _, _, _, _, _, _, hverify⟩
  exact absurd hverify Bool.false_ne_true

end MemphisCore
