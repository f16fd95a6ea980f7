import MemphisOS.Core.SignedRuns
import MemphisOS.Ecma.JsonRoundTrip
import MemphisOS.Ecma.NumeralLaws

/-!
# Replay

A replay keeps the blocks that append accepts. They form a chain, replaying them again
changes nothing, and the state hash fixes them.
-/

namespace MemphisCore

open Ecma

variable {crates : Crates}

/-! ## Accepted blocks -/

variable (crates) in
/-- Each block is valid after the ones before it. -/
inductive Appended : List Block → Prop
  | nil : Appended []
  | concat {blocks : List Block} {block : Block} : Appended blocks →
      validateBlock crates block blocks.getLast? = .ok () → Appended (blocks ++ [block])

variable (crates) in
/-- The chain that appending the blocks one after another builds; a rejected block is left out. -/
def appendAll (chain : MemoryChain) (blocks : List Block) : MemoryChain :=
  blocks.foldl (fun chain block => (chain.append crates block).toOption.getD chain) chain

variable (crates) in
/-- What holds between the rounds of a replay, with the blocks seen so far. -/
structure ReplayInv (chainName : Text) (seen : List Block) (state : ReplayState) : Prop where
  chain : state.chain = appendAll crates (.new chainName) seen
  appended : Appended crates state.chain.blocks
  sublist : state.chain.blocks.Sublist seen
  accepted : state.accepted = state.chain.blocks.length
  total : state.accepted + state.rejected = seen.length
  errors : state.errors.length = state.rejected

theorem ReplayInv.step {chainName : Text} {seen : List Block} {state : ReplayState}
    (h : ReplayInv crates chainName seen state) (block : Block) :
    ReplayInv crates chainName (seen ++ [block]) (replayStep crates state block) := by
  have hchain : appendAll crates (.new chainName) (seen ++ [block]) =
      (state.chain.append crates block).toOption.getD state.chain := by
    rw [h.chain, appendAll, List.foldl_append]
    rfl
  have htotal := h.total
  unfold replayStep
  cases hvalid : validateBlock crates block state.chain.blocks.getLast? with
  | ok u =>
    have happend : state.chain.append crates block =
        .ok { state.chain with blocks := state.chain.blocks ++ [block] } := by
      simp only [MemoryChain.append, hvalid]
      rfl
    exact
      { chain := by
          rw [hchain, happend]
          rfl
        appended := h.appended.concat hvalid
        sublist := h.sublist.append_right [block]
        accepted := by simp [h.accepted]
        total := by
          simp only [List.length_append, List.length_singleton]
          omega
        errors := h.errors }
  | error errs =>
    have happend : state.chain.append crates block = .error errs := by
      simp only [MemoryChain.append, hvalid]
      rfl
    exact
      { chain := by
          rw [hchain, happend]
          rfl
        appended := h.appended
        sublist := h.sublist.trans (List.sublist_append_left seen [block])
        accepted := h.accepted
        total := by
          simp only [List.length_append, List.length_singleton]
          omega
        errors := by simp [h.errors] }

/-- The invariant after all rounds. -/
theorem replayInv_replayLoop (chainName : Text) (blocks : List Block) :
    ReplayInv crates chainName blocks (replayLoop crates chainName blocks) := by
  induction blocks using List.reverseRecOn with
  | nil => exact ⟨rfl, .nil, .refl _, rfl, rfl, rfl⟩
  | append_singleton blocks block ih =>
    rw [replayLoop, List.foldl_append, ← replayLoop]
    exact ih.step block

/-- Blocks that are valid one after another are all accepted. -/
theorem replayLoop_of_appended {blocks : List Block} (h : Appended crates blocks)
    (chainName : Text) :
    replayLoop crates chainName blocks = ⟨⟨chainName, blocks⟩, blocks.length, 0, []⟩ := by
  induction h with
  | nil => rfl
  | concat h hvalid ih =>
    rw [replayLoop, List.foldl_append, ← replayLoop, ih]
    simp only [List.foldl_cons, List.foldl_nil, replayStep, hvalid, List.length_append,
      List.length_singleton]

/-! ## Valid chains -/

variable (crates) in
/-- The block follows the other one. -/
structure Follows (previous block : Block) : Prop where
  index : block.index = previous.index + 1
  prevHash : block.prevHash = previous.hash
  timestamp : ∃ earlier later, crates.parseFromRfc3339 previous.timestamp = some earlier ∧
    crates.parseFromRfc3339 block.timestamp = some later ∧ earlier ≤ later

variable (crates) in
/-- The first block is a genesis block, every other one follows the one before it, and every
hash is the block's own. -/
structure ValidChain (blocks : List Block) : Prop where
  genesis : ∀ block ∈ blocks.head?, (block.index = 0 ∨ block.index = 1) ∧ block.prevHash = zeroHash
  follows : blocks.IsChain (Follows crates)
  hashes : ∀ block ∈ blocks, block.hash = computeHash crates block

theorem genesis_of_linkErrors {block : Block} (h : linkErrors crates block none = []) :
    (block.index = 0 ∨ block.index = 1) ∧ block.prevHash = zeroHash := by
  simp only [linkErrors, List.append_eq_nil_iff, errorIf_eq_nil, not_and, not_not] at h
  exact ⟨or_iff_not_imp_left.mpr h.1, h.2⟩

theorem follows_of_linkErrors {previous block : Block}
    (hfields : fieldErrors crates block = [])
    (h : linkErrors crates block (some previous) = []) : Follows crates previous block := by
  simp only [fieldErrors, List.append_eq_nil_iff, errorIf_eq_nil] at hfields
  obtain ⟨⟨-, htimestamp⟩, -⟩ := hfields
  obtain ⟨later, hlater⟩ := Option.ne_none_iff_exists'.mp htimestamp
  simp only [linkErrors, List.append_eq_nil_iff, errorIf_eq_nil, not_not] at h
  obtain ⟨⟨hindex, hprev⟩, h⟩ := h
  cases hearlier : crates.parseFromRfc3339 previous.timestamp with
  | none => simp [hearlier] at h
  | some earlier =>
    simp only [hearlier, hlater, errorIf_eq_nil, not_lt] at h
    exact ⟨hindex, hprev, earlier, later, hearlier, hlater, h⟩

/-- Blocks that are valid one after another are a chain. -/
theorem Appended.validChain {blocks : List Block} (h : Appended crates blocks) :
    ValidChain crates blocks := by
  induction h with
  | nil => exact ⟨by simp, .nil, by simp⟩
  | @concat blocks block h hvalid ih =>
    obtain ⟨⟨hfields, hlink⟩, -⟩ := validateBlock_eq_ok.mp hvalid
    refine ⟨?_, ?_, ?_⟩
    · rcases List.eq_nil_or_concat' blocks with rfl | ⟨init, previous, rfl⟩
      · simpa using genesis_of_linkErrors hlink
      · have hhead := ih.genesis
        rw [List.head?_append] at hhead ⊢
        simpa using hhead
    · refine List.isChain_append.mpr ⟨ih.follows, .singleton _, ?_⟩
      intro previous hprevious next hnext
      obtain rfl : block = next := by simpa using hnext
      rw [Option.mem_def.mp hprevious] at hlink
      exact follows_of_linkErrors hfields hlink
    · intro b hb
      rcases List.mem_append.mp hb with hb | hb
      · exact ih.hashes b hb
      · rw [List.mem_singleton.mp hb]
        exact hash_eq_of_fieldErrors hfields

/-! ## What hashes fix -/

/-- The two blocks have the same content. -/
structure SameContent (a b : Block) : Prop where
  index : a.index = b.index
  timestamp : a.timestamp = b.timestamp
  chain : a.chain = b.chain
  data : a.data = b.data
  prevHash : a.prevHash = b.prevHash

/-- The text that is hashed for a block. -/
def hashText (block : Block) : Text := (hashPayload block).write digits [] []

theorem BlockType.name_injective {a b : BlockType} (h : js a.name = js b.name) : a = b := by
  have hname : a.name = b.name := String.toList_injective (ofText_injective h)
  cases a <;> cases b <;> first | rfl | exact absurd hname (by decide)

theorem jsonText_injective : Function.Injective (jsonText : Text → Json ℕ) := by
  intro s t h
  exact ofText_injective (Json.str.inj h)

theorem BlockData.toValue_injective {a b : BlockData} (h : a.toValue = b.toValue) : a = b := by
  simp only [BlockData.toValue, Json.obj.injEq, List.cons.injEq, Prod.mk.injEq, true_and, and_true,
    Json.arr.injEq, Json.str.injEq] at h
  obtain ⟨hcontent, htags, htype⟩ := h
  cases a
  cases b
  simp only at hcontent htags htype
  rw [jsonText_injective hcontent, jsonText_injective.list_map htags,
    BlockType.name_injective htype]

/-- The hashed text fixes the content of a block. -/
theorem hashText_injective {a b : Block} (h : hashText a = hashText b) : SameContent a b := by
  have hnumbers : ∀ v : Json ℕ,
      v.AllNumbers (Json.WritesBack digits fun t => some (digitsValue t)) :=
    Json.allNumbers_of_forall fun n =>
      ⟨digits_ne_nil n, fun c hc => isNumberChar_digits hc,
        congrArg some (digitsValue_digits n)⟩
  have hpayload := Json.write_injective (by simp [Json.Blank]) (hnumbers _) (hnumbers _) h
  simp only [hashPayload, Json.obj.injEq, List.cons.injEq, Prod.mk.injEq, true_and, and_true,
    Json.num.injEq] at hpayload
  obtain ⟨hchain, hdata, hindex, hprev, htimestamp⟩ := hpayload
  exact ⟨UInt64.toNat_inj.mp hindex, jsonText_injective htimestamp, jsonText_injective hchain,
    BlockData.toValue_injective hdata, jsonText_injective hprev⟩

/-- Pieces of one length are found again in what they are joined to. -/
theorem map_eq_of_flatMap_eq {α β : Type} {f : α → List β} {k : ℕ} (hk : 0 < k)
    (hf : ∀ a, (f a).length = k) {as bs : List α} (h : as.flatMap f = bs.flatMap f) :
    as.map f = bs.map f := by
  have hne : ∀ a t, f a ++ t ≠ [] := by
    intro a t hnil
    have hlength := hf a
    rw [(List.append_eq_nil_iff.mp hnil).1, List.length_nil] at hlength
    omega
  induction as generalizing bs with
  | nil =>
    cases bs with
    | nil => rfl
    | cons b bs => exact absurd h.symm (hne b _)
  | cons a as ih =>
    cases bs with
    | nil => exact absurd h (hne a _)
    | cons b bs =>
      rw [List.flatMap_cons, List.flatMap_cons] at h
      obtain ⟨hhead, htail⟩ := List.append_inj h ((hf a).trans (hf b).symm)
      rw [List.map_cons, List.map_cons, hhead, ih htail]

variable (crates) in
/-- The blocks a replay accepts. -/
def acceptedBlocks (chainName : Text) (blocks : List Block) : List Block :=
  (replayLoop crates chainName blocks).chain.blocks

variable (crates) in
/-- The texts a replay hashes for the blocks it accepts and for its snapshot. -/
def hashedTexts (accepted : List Block) : Set Text :=
  { t | t ∈ accepted.map hashText ∨ t = accepted.flatMap (computeHash crates) }

/-- The snapshot of accepted blocks is made of their hashes. -/
theorem stateHash_of_validChain {blocks : List Block} (h : ValidChain crates blocks) (name : Text) :
    (snapshot crates ⟨name, blocks⟩).stateHash =
      crates.sha256 (blocks.flatMap (computeHash crates)) := by
  have hhash : ∀ block ∈ blocks, snapshotHash crates block = computeHash crates block := by
    intro block hblock
    unfold snapshotHash
    split
    · rfl
    · exact h.hashes block hblock
  rw [snapshot, List.flatMap_congr hhash]

/-- Chains with one state hash have the same contents, unless the digest collides on the texts
that were hashed. -/
theorem sameContent_of_stateHash {as bs : List Block} (hlength : ∀ t, (crates.sha256 t).length = 64)
    (hinj : Set.InjOn crates.sha256 (hashedTexts crates as ∪ hashedTexts crates bs))
    (h : crates.sha256 (as.flatMap (computeHash crates)) =
      crates.sha256 (bs.flatMap (computeHash crates))) : List.Forall₂ SameContent as bs := by
  have hstream := hinj (.inl (.inr rfl)) (.inr (.inr rfl)) h
  have hhashes : as.map (computeHash crates) = bs.map (computeHash crates) :=
    map_eq_of_flatMap_eq (by norm_num) (fun block => hlength (hashText block)) hstream
  have hmember : ∀ (blocks : List Block) {block : Block}, block ∈ blocks →
      hashText block ∈ hashedTexts crates blocks :=
    fun blocks block hblock => .inl (List.mem_map_of_mem hblock)
  refine List.forall₂_iff_get.mpr ⟨by simpa using congrArg List.length hhashes, ?_⟩
  intro i hi hj
  have hget : computeHash crates as[i] = computeHash crates bs[i] := by
    simpa [hi, hj] using congrArg (fun hashes => hashes[i]?) hhashes
  exact hashText_injective (hinj (.inl (hmember as (List.getElem_mem hi)))
    (.inr (hmember bs (List.getElem_mem hj))) hget)

/-- **Replay.** The counts add up, the accepted blocks are those that appending keeps and form a
valid chain, replaying them again accepts them all with the same snapshot, and another replay
with the same state hash has accepted the same contents. -/
theorem replay_sound (crates : Crates) (chainName : Text) (blocks : List Block) :
    let report := replay crates chainName blocks
    let accepted := acceptedBlocks crates chainName blocks
    report.accepted + report.rejected = blocks.length ∧ report.errors.length = report.rejected ∧
      report.accepted = accepted.length ∧ accepted.Sublist blocks ∧
      accepted = (appendAll crates (.new chainName) blocks).blocks ∧ ValidChain crates accepted ∧
      replay crates chainName accepted = ⟨accepted.length, 0, [], report.snapshot⟩ ∧
      ∀ chainName' blocks', (∀ t, (crates.sha256 t).length = 64) →
        Set.InjOn crates.sha256 (hashedTexts crates accepted ∪
          hashedTexts crates (acceptedBlocks crates chainName' blocks')) →
        report.snapshot.stateHash = (replay crates chainName' blocks').snapshot.stateHash →
        List.Forall₂ SameContent accepted (acceptedBlocks crates chainName' blocks') := by
  have hstate : ∀ name bs, (replay crates name bs).snapshot.stateHash =
      crates.sha256 ((acceptedBlocks crates name bs).flatMap (computeHash crates)) := fun name bs =>
    stateHash_of_validChain (replayInv_replayLoop name bs).appended.validChain _
  have hinv : ReplayInv crates chainName blocks (replayLoop crates chainName blocks) :=
    replayInv_replayLoop chainName blocks
  have hagain := replayLoop_of_appended hinv.appended chainName
  refine ⟨hinv.total, hinv.errors, hinv.accepted, hinv.sublist, congrArg MemoryChain.blocks hinv.chain,
    hinv.appended.validChain, ?_, ?_⟩
  · rw [replay, acceptedBlocks, hagain]
    rfl
  · intro chainName' blocks' hlength hinj hhash
    rw [hstate, hstate] at hhash
    exact sameContent_of_stateHash hlength hinj hhash

/-- `forgedBlock` without its signature. -/
def sampleGenesis : Block := { forgedBlock with signer := none, signature := none }

/-- Crates with the digests of the block and of its state. -/
def replayCrates : Crates :=
  { sampleCrates with
    sha256 := fun t =>
      if t = hashText sampleGenesis then
        "36b58d29145d671d03a5f373f13e76fdd86ebbc34f9612847d15582c1613dcb4".toList
      else "b464debd11b71f2fffbedeae05850e36cb6cb730822b9c1430a75b6f443871cf".toList }

/-- Two replays of the block, one of them with a block that is rejected. -/
theorem replay_sound_sample :
    List.Forall₂ SameContent (acceptedBlocks replayCrates "journal".toList [sampleGenesis])
      (acceptedBlocks replayCrates "journal".toList [sampleGenesis, sampleGenesis]) := by
  have haccepted : acceptedBlocks replayCrates "journal".toList [sampleGenesis] =
      [sampleGenesis] := by decide +kernel
  have haccepted' : acceptedBlocks replayCrates "journal".toList [sampleGenesis, sampleGenesis] =
      [sampleGenesis] := by decide +kernel
  refine (replay_sound replayCrates "journal".toList [sampleGenesis]).2.2.2.2.2.2.2 _ _ ?_ ?_ ?_
  · intro t
    simp only [replayCrates]
    split_ifs <;> decide
  · rw [haccepted, haccepted', Set.union_self]
    have hdigest : replayCrates.sha256 (hashText sampleGenesis) ≠
        replayCrates.sha256 ([sampleGenesis].flatMap (computeHash replayCrates)) := by
      decide +kernel
    have hmember : ∀ t ∈ [sampleGenesis].map hashText, t = hashText sampleGenesis := by
      intro t ht
      rw [List.map_singleton] at ht
      exact List.mem_singleton.mp ht
    intro s hs t ht h
    rcases hs with hs | hs
    · rw [hmember s hs] at h ⊢
      rcases ht with ht | ht
      · rw [hmember t ht]
      · rw [ht] at h
        exact absurd h hdigest
    · rw [hs] at h ⊢
      rcases ht with ht | ht
      · rw [hmember t ht] at h
        exact absurd h.symm hdigest
      · rw [ht]
  · decide +kernel

end MemphisCore
