import MemphisOS.Sequences.Linked
import MemphisOS.Sync.Convergence

/-!
# Merged hash chains

A valid hash chain has consecutive indices, and each block names the hash of the one before
it. The resolver looks at single blocks. Its result is a valid hash chain exactly when the
two chains do not fork and the later start of the two follows a block of the other chain.
-/

namespace MemphisOS.Sync

open Ecma

/-! ## Valid hash chains -/

/-- A block with an integer index and a hash. -/
structure Block.Hashed (block : Block) : Prop where
  index : ∃ number, block.index = some number ∧ number.isInteger = true
  hash : ∃ hash, block.hash = some hash ∧ hash ≠ []

/-- The integer a block has as its index. -/
def position (block : Block) : ℤ := ((block.index.bind JsNumber.toRat?).getD 0).num

/-- The block names the hash of the one before it. -/
def NamesHash (a b : Block) : Prop := b.prevHash = a.hash

/-- A valid hash chain. -/
structure ValidChain (blocks : List Block) : Prop where
  hashed : ∀ block ∈ blocks, block.Hashed
  linked : blocks.IsChain (Linked.Precedes position NamesHash)

/-- Blocks with one hash are one block. -/
def HashesIdentify (blocks : List Block) : Prop :=
  ∀ a ∈ blocks, ∀ b ∈ blocks, a.hash = b.hash → a = b

/-- Where both chains have a block at an index, it has one hash. -/
def NoFork (a b : List Block) : Prop :=
  ∀ block ∈ a, ∀ block' ∈ b, position block = position block' → block.hash = block'.hash

/-- When the other chain starts earlier, the first block follows one of its blocks. -/
def StartFollows (a b : List Block) : Prop :=
  ∀ first ∈ a.head?, (∃ block ∈ b, position block < position first) →
    ∃ block ∈ b, Linked.Precedes position NamesHash block first

variable {host : SyncHost} {strategy : ConflictResolutionStrategy}
  {localBlocks remoteBlocks blocks : List Block} {a b : Block}

/-! ## The order of the result -/

/-- The place of the index of a block among the numbers. -/
theorem Block.Hashed.rank_sortIndex (h : a.Hashed) :
    (sortIndex a).rank = (((position a : ℚ) : WithTop ℚ) : WithBot (WithTop ℚ)) ∧
      sortIndex a ≠ .nan := by
  obtain ⟨number, hnumber, hinteger⟩ := h.index
  rw [sortIndex, position, hnumber, Option.getD_some, Option.bind_some]
  cases number with
  | nan => cases hinteger
  | infinity => cases hinteger
  | negZero => exact ⟨by simp [JsNumber.rank, JsNumber.toRat?], by simp⟩
  | finite q hq =>
    have hnum : q = q.num := Rat.eq_num_of_isInt hinteger
    refine ⟨?_, by simp⟩
    rw [JsNumber.toRat?, Option.getD_some, JsNumber.rank, ← hnum]

/-- Hashed blocks are sorted by index, then by time. -/
theorem sortsBefore_iff (ha : a.Hashed) (hb : b.Hashed) :
    sortsBefore host a b = true ↔ position a < position b ∨
      (position a = position b ∧
        (blockTimestamp host a).le (blockTimestamp host b) = true) := by
  obtain ⟨ranka, hnana⟩ := ha.rank_sortIndex
  obtain ⟨rankb, hnanb⟩ := hb.rank_sortIndex
  have heq : (sortIndex a).strictEq (sortIndex b) = true ↔ position a = position b := by
    rw [JsNumber.strictEq_iff, ranka, rankb]
    simp [hnana, hnanb]
  have hlt : (sortIndex b).lt (sortIndex a) = true ↔ position b < position a := by
    rw [JsNumber.lt_iff, ranka, rankb]
    simp [hnana, hnanb]
  unfold sortsBefore
  split
  · next h =>
    have hposition := heq.mp h
    simp [hposition]
  · next h =>
    have hposition : position a ≠ position b := fun hp => h (heq.mpr hp)
    rw [Bool.not_eq_true', ← Bool.not_eq_true, hlt]
    constructor
    · intro hnot
      exact .inl (by omega)
    · rintro (hlt | ⟨hp, -⟩)
      · omega
      · exact absurd hp hposition

/-- The result is sorted by index. -/
theorem pairwise_resolveChainConflicts (hhashed : ∀ block ∈
    resolveChainConflicts host strategy localBlocks remoteBlocks, block.Hashed) :
    (resolveChainConflicts host strategy localBlocks remoteBlocks).Pairwise
      fun a b => position a ≤ position b := by
  have hentries : ∀ block ∈ (mergedEntries host strategy localBlocks remoteBlocks).map Prod.snd,
      block.Hashed := fun block h => hhashed block (List.mem_mergeSort.mpr h)
  have hsorted := @List.pairwise_mergeSort_of_mem _ (sortsBefore host)
    ((mergedEntries host strategy localBlocks remoteBlocks).map Prod.snd)
    (by
      intro a ha b hb c hc hab hbc
      rw [sortsBefore_iff (hentries a ha) (hentries b hb)] at hab
      rw [sortsBefore_iff (hentries b hb) (hentries c hc)] at hbc
      rw [sortsBefore_iff (hentries a ha) (hentries c hc)]
      rcases hab with hab | ⟨hab, hta⟩
      · rcases hbc with hbc | ⟨hbc, -⟩
        · exact .inl (by omega)
        · exact .inl (by omega)
      · rcases hbc with hbc | ⟨hbc, htb⟩
        · exact .inl (by omega)
        · refine .inr ⟨by omega, ?_⟩
          rw [JsNumber.le_iff] at hta htb ⊢
          exact ⟨hta.1, htb.2.1, hta.2.2.trans htb.2.2⟩)
    (by
      intro a ha b hb
      rw [Bool.or_eq_true, sortsBefore_iff (hentries a ha) (hentries b hb),
        sortsBefore_iff (hentries b hb) (hentries a ha)]
      rcases lt_trichotomy (position a) (position b) with h | h | h
      · exact .inl (.inl h)
      · rcases JsNumber.le_or_le (blockTimestamp_ne_nan host a)
          (blockTimestamp_ne_nan host b) with ht | ht
        · exact .inl (.inr ⟨h, ht⟩)
        · exact .inr (.inr ⟨h.symm, ht⟩)
      · exact .inr (.inl h))
  refine hsorted.imp_of_mem fun {a b} ha hb h => ?_
  rw [sortsBefore_iff (hhashed a ha) (hhashed b hb)] at h
  rcases h with h | ⟨h, -⟩
  · exact h.le
  · exact h.le

/-! ## The blocks of the result -/

theorem ValidChain.pairwise_lt (h : ValidChain blocks) :
    blocks.Pairwise fun a b => position a < position b :=
  Linked.pairwise_lt_of_isChain h.linked

/-- The key of a hashed block gives its hash. -/
theorem hash_eq_of_blockKey_eq (ha : a.Hashed) (hb : b.Hashed)
    (h : blockKey host a = blockKey host b) : a.hash = b.hash := by
  obtain ⟨_ | ⟨u, s⟩, ha, hne⟩ := ha.hash
  · exact absurd rfl hne
  obtain ⟨_ | ⟨v, t⟩, hb, hne'⟩ := hb.hash
  · exact absurd rfl hne'
  rw [blockKey, blockKey, ha, hb] at h
  rw [ha, hb, List.append_cancel_left h]

/-- The keys of a valid chain are different. -/
theorem ValidChain.keysDistinct (h : ValidChain blocks) (hidentify : HashesIdentify blocks) :
    KeysDistinct host blocks := by
  rw [KeysDistinct, List.Nodup, List.pairwise_map]
  refine h.pairwise_lt.imp_of_mem fun {a b} ha hb hlt hkey => ?_
  have hhash := hash_eq_of_blockKey_eq (h.hashed a ha) (h.hashed b hb) hkey
  obtain rfl := hidentify a ha b hb hhash
  exact lt_irrefl _ hlt

theorem HashesIdentify.left (h : HashesIdentify (localBlocks ++ remoteBlocks)) :
    HashesIdentify localBlocks := fun a ha b hb =>
  h a (List.mem_append_left _ ha) b (List.mem_append_left _ hb)

theorem HashesIdentify.right (h : HashesIdentify (localBlocks ++ remoteBlocks)) :
    HashesIdentify remoteBlocks := fun a ha b hb =>
  h a (List.mem_append_right _ ha) b (List.mem_append_right _ hb)

theorem hashed_of_mem_append (hlocal : ValidChain localBlocks) (hremote : ValidChain remoteBlocks)
    (hb : b ∈ localBlocks ++ remoteBlocks) : b.Hashed := by
  rcases List.mem_append.mp hb with h | h
  · exact hlocal.hashed b h
  · exact hremote.hashed b h

section Merged

variable (hlocal : ValidChain localBlocks) (hremote : ValidChain remoteBlocks)
  (hidentify : HashesIdentify (localBlocks ++ remoteBlocks))

include hlocal hremote hidentify

/-- The result has the blocks of both chains, whatever the strategy. -/
theorem mem_resolve_iff : b ∈ resolveChainConflicts host strategy localBlocks remoteBlocks ↔
    b ∈ localBlocks ++ remoteBlocks := by
  have hkeysl : KeysDistinct host localBlocks := hlocal.keysDistinct hidentify.left
  have hkeysr : KeysDistinct host remoteBlocks := hremote.keysDistinct hidentify.right
  have hhashed : ∀ block ∈ localBlocks ++ remoteBlocks, block.Hashed := fun _ =>
    hashed_of_mem_append hlocal hremote
  have hsame : ∀ a ∈ localBlocks ++ remoteBlocks, ∀ b ∈ localBlocks ++ remoteBlocks,
      blockKey host a = blockKey host b → a = b := fun a ha b hb hkey =>
    hidentify a ha b hb (hash_eq_of_blockKey_eq (hhashed a ha) (hhashed b hb) hkey)
  rw [mem_resolveChainConflicts hkeysl hkeysr, List.mem_append]
  constructor
  · intro hmerge
    cases hl : held host localBlocks (blockKey host b) with
    | none =>
      rw [hl, Option.merge_none_left] at hmerge
      exact .inr ((held_eq_some hkeysr).mp hmerge).1
    | some l =>
      have hlmem := (held_eq_some hkeysl).mp hl
      cases hr : held host remoteBlocks (blockKey host b) with
      | none =>
        rw [hl, hr, Option.merge_none_right] at hmerge
        exact .inl (Option.some.inj hmerge ▸ hlmem.1)
      | some r =>
        have hrmem := (held_eq_some hkeysr).mp hr
        rw [hl, hr, Option.merge_some_some] at hmerge
        obtain rfl := Option.some.inj hmerge
        rcases winner_eq host strategy l r with hw | hw
        · exact .inl (by rw [hw]; exact hlmem.1)
        · exact .inr (by rw [hw]; exact hrmem.1)
  · intro hb
    have hb' := List.mem_append.mpr hb
    have heq : ∀ held? : Option Block, (∀ c ∈ held?, c ∈ localBlocks ++ remoteBlocks ∧
        blockKey host c = blockKey host b) → held? = none ∨ held? = some b := by
      intro held? h
      cases held? with
      | none => exact .inl rfl
      | some c => exact .inr (congrArg some (hsame c (h c rfl).1 b hb' (h c rfl).2))
    have hl := heq (held host localBlocks (blockKey host b)) fun c hc =>
      ⟨List.mem_append_left _ ((held_eq_some hkeysl).mp hc).1, blockKey_of_held hc⟩
    have hr := heq (held host remoteBlocks (blockKey host b)) fun c hc =>
      ⟨List.mem_append_right _ ((held_eq_some hkeysr).mp hc).1, blockKey_of_held hc⟩
    have hself : winner host strategy b b = b := by
      rcases winner_eq host strategy b b with h | h <;> exact h
    rcases hb with hb | hb
    · rw [(held_eq_some hkeysl).mpr ⟨hb, rfl⟩]
      rcases hr with hr | hr <;> rw [hr]
      · rfl
      · rw [Option.merge_some_some, hself]
    · rw [(held_eq_some hkeysr).mpr ⟨hb, rfl⟩]
      rcases hl with hl | hl <;> rw [hl]
      · rfl
      · rw [Option.merge_some_some, hself]

/-- Without a fork, the positions of the result go up. -/
theorem pairwise_lt_resolve (hfork : NoFork localBlocks remoteBlocks) :
    (resolveChainConflicts host strategy localBlocks remoteBlocks).Pairwise
      fun a b => position a < position b := by
  have hmem : ∀ block, block ∈ resolveChainConflicts host strategy localBlocks remoteBlocks →
      block ∈ localBlocks ++ remoteBlocks := fun block =>
    (mem_resolve_iff hlocal hremote hidentify).mp
  have hkeys : KeysDistinct host (resolveChainConflicts host strategy localBlocks remoteBlocks) :=
    keysDistinct_resolveChainConflicts (hlocal.keysDistinct hidentify.left)
      (hremote.keysDistinct hidentify.right)
  have hdistinct : ∀ a ∈ localBlocks ++ remoteBlocks, ∀ b ∈ localBlocks ++ remoteBlocks,
      position a = position b → a = b := by
    intro a ha b hb hposition
    rcases List.mem_append.mp ha with hal | har <;> rcases List.mem_append.mp hb with hbl | hbr
    · exact Linked.eq_of_position_eq hlocal.pairwise_lt hal hbl hposition
    · exact hidentify a ha b hb (hfork a hal b hbr hposition)
    · exact (hidentify b hb a ha (hfork b hbl a har hposition.symm)).symm
    · exact Linked.eq_of_position_eq hremote.pairwise_lt har hbr hposition
  exact Linked.pairwise_lt_of_le
    (pairwise_resolveChainConflicts fun block h =>
      hashed_of_mem_append hlocal hremote (hmem block h))
    (List.Nodup.of_map _ hkeys) fun a ha b hb => hdistinct a (hmem a ha) b (hmem b hb)

end Merged

/-- The first block of a valid chain stands lowest. -/
theorem ValidChain.position_head_le {first : Block} (h : ValidChain blocks)
    (hfirst : first ∈ blocks.head?) (hb : b ∈ blocks) : position first ≤ position b := by
  cases blocks with
  | nil => cases hb
  | cons block rest =>
    obtain rfl := Option.some.inj hfirst
    rcases List.mem_cons.mp hb with rfl | hb
    · exact le_refl _
    · exact ((List.pairwise_cons.mp h.pairwise_lt).1 b hb).le

/-- A block of a valid chain with nothing below it is the first. -/
theorem ValidChain.head_of_lowest (h : ValidChain blocks) (hb : b ∈ blocks)
    (hlowest : ¬∃ a ∈ blocks, position a < position b) : b ∈ blocks.head? := by
  cases blocks with
  | nil => cases hb
  | cons block rest =>
    rcases List.mem_cons.mp hb with rfl | hb
    · rfl
    · exact absurd ⟨block, List.mem_cons_self, (List.pairwise_cons.mp h.pairwise_lt).1 b hb⟩
        hlowest

/-- In two chains of which each starts on the other, a block above another has a
predecessor. -/
theorem ValidChain.exists_precedes (h : ValidChain blocks) (hstart : StartFollows blocks localBlocks)
    (hb : b ∈ blocks) (hlower : ∃ a ∈ blocks ++ localBlocks, position a < position b) :
    ∃ c ∈ blocks ++ localBlocks, Linked.Precedes position NamesHash c b := by
  by_cases hown : ∃ a ∈ blocks, position a < position b
  · obtain ⟨c, hc, hprecedes⟩ := (Linked.isChain_iff h.pairwise_lt).mp h.linked b hb hown
    exact ⟨c, List.mem_append_left _ hc, hprecedes⟩
  · obtain ⟨a, ha, hlt⟩ := hlower
    have hother : a ∈ localBlocks := by
      rcases List.mem_append.mp ha with hmem | hmem
      · exact absurd ⟨a, hmem, hlt⟩ hown
      · exact hmem
    obtain ⟨c, hc, hprecedes⟩ := hstart b (h.head_of_lowest hb hown) ⟨a, hother, hlt⟩
    exact ⟨c, List.mem_append_right _ hc, hprecedes⟩

/-- In a valid merge, the start of a chain above the other follows a block of it. -/
theorem startFollows_of_valid {a b merged : List Block} (ha : ValidChain a)
    (hmerged : ValidChain merged) (hmem : ∀ block, block ∈ merged ↔ block ∈ a ∨ block ∈ b) :
    StartFollows a b := by
  intro first hfirst hlower
  have hfirstmem := List.mem_of_mem_head? hfirst
  obtain ⟨lower, hlowermem, hlt⟩ := hlower
  obtain ⟨c, hc, hprecedes⟩ := (Linked.isChain_iff hmerged.pairwise_lt).mp hmerged.linked first
    ((hmem first).mpr (.inl hfirstmem)) ⟨lower, (hmem lower).mpr (.inr hlowermem), hlt⟩
  rcases (hmem c).mp hc with hown | hother
  · have hle := ha.position_head_le hfirst hown
    have hposition := hprecedes.1
    omega
  · exact ⟨c, hother, hprecedes⟩

/-- **Merged chains.** The result of a merge is a valid hash chain exactly when the chains do
not fork and the start of each follows the other chain. -/
theorem merge_validChain (host : SyncHost) (strategy : ConflictResolutionStrategy)
    (localBlocks remoteBlocks : List Block) (hlocal : ValidChain localBlocks)
    (hremote : ValidChain remoteBlocks)
    (hidentify : HashesIdentify (localBlocks ++ remoteBlocks)) :
    ValidChain (resolveChainConflicts host strategy localBlocks remoteBlocks) ↔
      NoFork localBlocks remoteBlocks ∧ StartFollows localBlocks remoteBlocks ∧
        StartFollows remoteBlocks localBlocks := by
  have hmem : ∀ block, block ∈ resolveChainConflicts host strategy localBlocks remoteBlocks ↔
      block ∈ localBlocks ∨ block ∈ remoteBlocks := fun block =>
    (mem_resolve_iff hlocal hremote hidentify).trans List.mem_append
  constructor
  · intro hvalid
    refine ⟨fun a ha b hb hposition => ?_, startFollows_of_valid hlocal hvalid hmem,
      startFollows_of_valid hremote hvalid fun block => (hmem block).trans or_comm⟩
    exact congrArg Block.hash (Linked.eq_of_position_eq hvalid.pairwise_lt
      ((hmem a).mpr (.inl ha)) ((hmem b).mpr (.inr hb)) hposition)
  · rintro ⟨hfork, hlocalStart, hremoteStart⟩
    refine ⟨fun block hblock => hashed_of_mem_append hlocal hremote
      (List.mem_append.mpr ((hmem block).mp hblock)), ?_⟩
    rw [Linked.isChain_iff (pairwise_lt_resolve hlocal hremote hidentify hfork)]
    rintro b hb ⟨a, ha, hlt⟩
    have hlower := (hmem a).mp ha
    rcases (hmem b).mp hb with hbl | hbr
    · obtain ⟨c, hc, hprecedes⟩ := hlocal.exists_precedes hlocalStart hbl
        ⟨a, List.mem_append.mpr hlower, hlt⟩
      exact ⟨c, (hmem c).mpr (List.mem_append.mp hc), hprecedes⟩
    · obtain ⟨c, hc, hprecedes⟩ := hremote.exists_precedes hremoteStart hbr
        ⟨a, List.mem_append.mpr hlower.symm, hlt⟩
      exact ⟨c, (hmem c).mpr (List.mem_append.mp hc).symm, hprecedes⟩

/-! ## A sample -/

/-- A block with its hash and the hash of the block before it. -/
def chainBlock (index : ℕ) (hash prevHash : String) : Block :=
  { index := some (.ofNat index), timestamp := none, hash := some (js hash), chain := none
    data := none, prevHash := some (js prevHash) }

theorem hashed_chainBlock {index : ℕ} {hash prevHash : String} (hindex : index < 2 ^ 53)
    (hhash : js hash ≠ []) : (chainBlock index hash prevHash).Hashed :=
  ⟨⟨_, rfl, by rw [JsNumber.ofNat_eq hindex]; rfl⟩, ⟨_, rfl, hhash⟩⟩

theorem position_chainBlock {index : ℕ} (hash prevHash : String) (hindex : index < 2 ^ 53) :
    position (chainBlock index hash prevHash) = index := by
  rw [position, chainBlock, Option.bind_some, JsNumber.ofNat_eq hindex, JsNumber.toRat?,
    Option.getD_some, Rat.num_natCast]

/-- Two blocks in a row. -/
theorem validChain_pair {hash prevHash hash' : String} (hhash : js hash ≠ [])
    (hhash' : js hash' ≠ []) :
    ValidChain [chainBlock 0 hash prevHash, chainBlock 1 hash' hash] := by
  refine ⟨fun block hblock => ?_, .cons_cons ⟨?_, rfl⟩ (.singleton _)⟩
  · rcases List.mem_cons.mp hblock with rfl | hblock
    · exact hashed_chainBlock (by norm_num) hhash
    · obtain rfl := List.mem_singleton.mp hblock
      exact hashed_chainBlock (by norm_num) hhash'
  · rw [position_chainBlock _ _ (by norm_num), position_chainBlock _ _ (by norm_num)]
    norm_num

/-- A first block and two blocks that follow it. -/
def genesis : Block := chainBlock 0 "hash-0" "root"

def ours : Block := chainBlock 1 "hash-1" "hash-0"

def theirs : Block := chainBlock 1 "hash-2" "hash-0"

theorem validChain_ours : ValidChain [genesis, ours] := validChain_pair (by decide) (by decide)

theorem validChain_theirs : ValidChain [genesis, theirs] := validChain_pair (by decide) (by decide)

theorem hashesIdentify_sample : HashesIdentify [genesis, ours, theirs] := by
  have hne : js "hash-0" ≠ js "hash-1" ∧ js "hash-0" ≠ js "hash-2" ∧ js "hash-1" ≠ js "hash-2" := by
    decide
  intro a ha b hb hhash
  simp only [List.mem_cons, List.not_mem_nil, or_false] at ha hb
  rcases ha with rfl | rfl | rfl <;> rcases hb with rfl | rfl | rfl <;>
    first
    | rfl
    | simp_all [genesis, ours, theirs, chainBlock, eq_comm]

theorem HashesIdentify.mono {blocks' : List Block} (h : HashesIdentify blocks)
    (hsub : blocks' ⊆ blocks) : HashesIdentify blocks' :=
  fun a ha b hb => h a (hsub ha) b (hsub hb)

/-- A replica that lags behind catches up. -/
theorem merge_validChain_sample :
    ValidChain (resolveChainConflicts sampleHost .lastWriteWins [genesis] [genesis, ours]) := by
  have hgenesis : position genesis = 0 := position_chainBlock _ _ (by norm_num)
  have hours : position ours = 1 := position_chainBlock _ _ (by norm_num)
  have hfirst : ValidChain [genesis] :=
    ⟨fun block h => validChain_ours.hashed block (List.mem_cons.mpr (.inl (List.mem_singleton.mp h))),
      .singleton _⟩
  refine (merge_validChain sampleHost .lastWriteWins [genesis] [genesis, ours] hfirst
    validChain_ours (hashesIdentify_sample.mono (by simp))).mpr ⟨?_, ?_, ?_⟩
  · intro a ha b hb hposition
    obtain rfl := List.mem_singleton.mp ha
    rcases List.mem_cons.mp hb with rfl | hb
    · rfl
    · obtain rfl := List.mem_singleton.mp hb
      omega
  · rintro first hhead ⟨lower, hlower, hlt⟩
    obtain rfl := Option.some.inj hhead
    rcases List.mem_cons.mp hlower with rfl | hlower
    · omega
    · obtain rfl := List.mem_singleton.mp hlower
      omega
  · rintro first hhead ⟨lower, hlower, hlt⟩
    obtain rfl := Option.some.inj hhead
    obtain rfl := List.mem_singleton.mp hlower
    omega

/-- A merge of two forks of one chain keeps both blocks of the fork. -/
theorem fork_breaks_chain : ValidChain [genesis, ours] ∧ ValidChain [genesis, theirs] ∧
    ∀ strategy,
      ¬ValidChain (resolveChainConflicts sampleHost strategy [genesis, ours] [genesis, theirs]) := by
  refine ⟨validChain_ours, validChain_theirs, fun strategy hvalid => ?_⟩
  have hmem : ∀ block ∈ [genesis, ours] ++ [genesis, theirs],
      block ∈ resolveChainConflicts sampleHost strategy [genesis, ours] [genesis, theirs] :=
    fun block => (mem_resolve_iff validChain_ours validChain_theirs
      (hashesIdentify_sample.mono (by simp))).mpr
  have hposition : position ours = position theirs := by
    rw [ours, theirs, position_chainBlock _ _ (by norm_num), position_chainBlock _ _ (by norm_num)]
  have heq := Linked.eq_of_position_eq hvalid.pairwise_lt (hmem ours (by simp))
    (hmem theirs (by simp)) hposition
  have hhash : js "hash-1" = js "hash-2" := Option.some.inj (congrArg Block.hash heq)
  exact absurd hhash (by decide)

end MemphisOS.Sync
