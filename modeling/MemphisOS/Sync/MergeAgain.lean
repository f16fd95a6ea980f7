import MemphisOS.Ecma.Numerals
import MemphisOS.Sequences.Linked
import MemphisOS.Sync.Convergence
import MemphisOS.Sync.Resolver

/-!
# The difference of two replicas

`detectChainDiff` compares the last blocks under each key. Blocks of both replicas count as equal
when their fingerprints are, which are texts of five of their properties.
-/

namespace MemphisOS.Sync

open Ecma

structure DiffConflict where
  key : JsString
  localBlock : Block
  remoteBlock : Block

structure ChainDiffResult where
  localOnly : List Block
  remoteOnly : List Block
  conflicts : List DiffConflict

variable (host : SyncHost)

/-- The text of a property in a template. There is no JSON text of `undefined`. -/
def propertyText : Option Plain → Text
  | some value => stableStringify host value
  | none => "undefined".toList

/-- `Object.entries` of what a fingerprint is made from, each value with its text. -/
def fingerprintEntries (block : Block) : List (JsString × Option Plain) :=
  [(js "index", block.index.map .num),
    (js "timestamp", block.timestamp.map .str),
    (js "hash", block.hash.map .str),
    (js "chain", block.chain.map .str),
    (js "data", some (block.data.getD (.obj [])))]

def blockFingerprint (block : Block) : Text :=
  '{' :: Json.joinWith [',']
    ((sortEntries host ((fingerprintEntries block).map fun m => (m.1, propertyText host m.2))).map
      fun m => Json.quote m.1 ++ ':' :: m.2) ++ ['}']

/-- `new Map(blocks.map((b) => [blockKey(b), b]))`. -/
def blockMap (blocks : List Block) : List (JsString × Block) :=
  defineMembers (blocks.map fun block => (blockKey host block, block))

/-- The blocks of a map under keys that another map lacks. -/
def onlyIn (own other : List (JsString × Block)) : List Block :=
  (own.filter fun entry => (other.lookup entry.1).isNone).map Prod.snd

def detectChainDiff (localBlocks remoteBlocks : List Block) : ChainDiffResult :=
  let localMap := blockMap host localBlocks
  let remoteMap := blockMap host remoteBlocks
  { localOnly := onlyIn localMap remoteMap
    remoteOnly := onlyIn remoteMap localMap
    conflicts := localMap.filterMap fun entry =>
      (remoteMap.lookup entry.1).bind fun remoteBlock =>
        if blockFingerprint host entry.2 ≠ blockFingerprint host remoteBlock then
          some ⟨entry.1, entry.2, remoteBlock⟩
        else none }

/-- The keys under which the first loop finds a remote block. -/
def commonKeys (localBlocks remoteBlocks : List Block) : List JsString :=
  ((blockMap host localBlocks).filter fun entry =>
    ((blockMap host remoteBlocks).lookup entry.1).isSome).map Prod.fst

variable {host} {blocks localBlocks remoteBlocks : List Block} {key : JsString} {block : Block}

theorem localEntries_eq_blockMap (blocks : List Block) :
    localEntries host blocks = blockMap host blocks := by
  rw [localEntries, blockMap, defineMembers, List.foldl_map]

theorem nodup_blockMap (blocks : List Block) : ((blockMap host blocks).map Prod.fst).Nodup :=
  defineMembers_nodup _

/-- The map holds the last block under each key. -/
theorem lookup_blockMap (blocks : List Block) (key : JsString) :
    (blockMap host blocks).lookup key = held host blocks.reverse key := by
  rw [blockMap, lookup_defineMembers, ← List.map_reverse]
  induction blocks.reverse with
  | nil => rfl
  | cons first rest ih =>
    rw [List.map_cons, List.lookup_cons, held, List.find?_cons]
    by_cases hkey : blockKey host first = key
    · rw [hkey, beq_self_eq_true, decide_eq_true rfl]
    · rw [beq_false_of_ne (Ne.symm hkey), decide_eq_false hkey]
      exact ih

/-- The keys of a map are those of the blocks. -/
theorem mem_keys_blockMap :
    key ∈ (blockMap host blocks).map Prod.fst ↔ key ∈ blocks.map (blockKey host) := by
  constructor
  · intro hkey
    obtain ⟨entry, hentry, rfl⟩ := List.mem_map.mp hkey
    obtain ⟨block, hblock, rfl⟩ := List.mem_map.mp (mem_of_mem_defineMembers hentry)
    exact List.mem_map_of_mem hblock
  · intro hkey
    obtain ⟨block, hblock, rfl⟩ := List.mem_map.mp hkey
    cases hfound : (blockMap host blocks).lookup (blockKey host block) with
    | none =>
      rw [lookup_blockMap] at hfound
      exact absurd rfl (held_eq_none.mp hfound block (List.mem_reverse.mpr hblock))
    | some found => exact List.mem_map.mpr ⟨_, mem_of_lookup_eq_some hfound, rfl⟩

/-- A map finds something under the keys of the blocks. -/
theorem isSome_lookup_blockMap :
    ((blockMap host blocks).lookup key).isSome = true ↔ key ∈ blocks.map (blockKey host) := by
  rw [← mem_keys_blockMap, Option.isSome_iff_exists]
  constructor
  · rintro ⟨found, hfound⟩
    exact List.mem_map.mpr ⟨_, mem_of_lookup_eq_some hfound, rfl⟩
  · intro hkey
    obtain ⟨entry, hentry, rfl⟩ := List.mem_map.mp hkey
    exact ⟨entry.2, lookup_of_mem (nodup_blockMap blocks) hentry⟩

end MemphisOS.Sync

/-!
## Merging again

A merge holds every key of both replicas once and is sorted by index. The remote blocks it has
taken in change nothing when they are merged again.
-/

namespace MemphisOS.Sync

open Ecma

/-- What holds of blocks that are read from JSON. -/
structure Block.FromJson (block : Block) : Prop where
  /-- The index is a number with a literal. -/
  index : ∀ n ∈ block.index, ∃ literal, readNumber literal = some n
  /-- Objects have different keys, in the order of enumeration. -/
  data : ∀ value ∈ block.data, OwnOrdered value

variable {host : SyncHost} {strategy : ConflictResolutionStrategy}
  {blocks localBlocks remoteBlocks : List Block} {a b c block : Block}

theorem readNumber_ne_nan {literal : Text} {n : JsNumber} (h : readNumber literal = some n) :
    n ≠ .nan := by
  obtain ⟨⟨negative, q⟩, -, rfl⟩ := Option.map_eq_some_iff.mp h
  exact JsNumber.ofRat_ne_nan _ _

theorem Block.FromJson.sortIndex_ne_nan (h : block.FromJson) : sortIndex block ≠ .nan := by
  cases hindex : block.index with
  | none =>
    rw [sortIndex, hindex, Option.getD_none]
    exact JsNumber.ofRat_ne_nan _ _
  | some n =>
    obtain ⟨literal, hliteral⟩ := h.index n hindex
    rw [sortIndex, hindex, Option.getD_some]
    exact readNumber_ne_nan hliteral

theorem fromJson_sampleBlock {n : ℕ} (hn : n < 2 ^ 53) (content : String) :
    (sampleBlock n content).FromJson := by
  refine ⟨?_, ?_⟩
  · rintro _ ⟨⟩
    rw [JsNumber.ofNat_eq hn]
    exact ⟨_, (writesBack_finite _).2.2⟩
  · rintro _ ⟨⟩
    rw [ownOrdered_obj]
    exact ⟨⟨List.nodup_singleton _, List.pairwise_singleton _ _⟩,
      List.forall_mem_singleton.mpr trivial⟩

/-! ## The order of the result -/

/-- Blocks are sorted by index, and with one index by time. -/
theorem sortsBefore_iff_rank (ha : a.FromJson) (hb : b.FromJson) :
    sortsBefore host a b = true ↔ (sortIndex a).rank < (sortIndex b).rank ∨
      (sortIndex a).rank = (sortIndex b).rank ∧
        (blockTimestamp host a).rank ≤ (blockTimestamp host b).rank := by
  have hna := ha.sortIndex_ne_nan
  have hnb := hb.sortIndex_ne_nan
  rw [sortsBefore]
  split
  · next heq =>
    have hrank := (JsNumber.strictEq_iff.mp heq).2.2
    rw [JsNumber.le_iff]
    constructor
    · exact fun h => .inr ⟨hrank, h.2.2⟩
    · rintro (h | h)
      · exact absurd hrank h.ne
      · exact ⟨blockTimestamp_ne_nan host a, blockTimestamp_ne_nan host b, h.2⟩
  · next hne =>
    have hrank : (sortIndex a).rank ≠ (sortIndex b).rank := fun h =>
      hne (JsNumber.strictEq_iff.mpr ⟨hna, hnb, h⟩)
    rw [Bool.not_eq_true', ← Bool.not_eq_true, JsNumber.lt_iff]
    constructor
    · exact fun h => .inl (lt_of_le_of_ne (not_lt.mp fun hlt => h ⟨hnb, hna, hlt⟩) hrank)
    · rintro (h | h) ⟨-, -, hlt⟩
      · exact lt_asymm h hlt
      · exact hrank h.1

theorem sortsBefore_trans (ha : a.FromJson) (hb : b.FromJson) (hc : c.FromJson)
    (hab : sortsBefore host a b = true) (hbc : sortsBefore host b c = true) :
    sortsBefore host a c = true := by
  rw [sortsBefore_iff_rank ha hb] at hab
  rw [sortsBefore_iff_rank hb hc] at hbc
  rw [sortsBefore_iff_rank ha hc]
  rcases hab with hab | ⟨hab, hta⟩
  · rcases hbc with hbc | ⟨hbc, -⟩
    · exact .inl (hab.trans hbc)
    · exact .inl (hbc ▸ hab)
  · rcases hbc with hbc | ⟨hbc, htb⟩
    · exact .inl (hab ▸ hbc)
    · exact .inr ⟨hab.trans hbc, hta.trans htb⟩

theorem sortsBefore_total (ha : a.FromJson) (hb : b.FromJson) :
    (sortsBefore host a b || sortsBefore host b a) = true := by
  rw [Bool.or_eq_true, sortsBefore_iff_rank ha hb, sortsBefore_iff_rank hb ha]
  rcases lt_trichotomy (sortIndex a).rank (sortIndex b).rank with h | h | h
  · exact .inl (.inl h)
  · rcases le_total (blockTimestamp host a).rank (blockTimestamp host b).rank with ht | ht
    · exact .inl (.inr ⟨h, ht⟩)
    · exact .inr (.inr ⟨h.symm, ht⟩)
  · exact .inr (.inl h)

/-- The result has blocks of the two replicas only. -/
theorem mem_of_mem_resolve (hlocal : KeysDistinct host localBlocks)
    (hremote : KeysDistinct host remoteBlocks)
    (h : block ∈ resolveChainConflicts host strategy localBlocks remoteBlocks) :
    block ∈ localBlocks ++ remoteBlocks := by
  have hmerge := (mem_resolveChainConflicts hlocal hremote).mp h
  cases hl : held host localBlocks (blockKey host block) with
  | none =>
    rw [hl, Option.merge_none_left] at hmerge
    exact List.mem_append_right _ ((held_eq_some hremote).mp hmerge).1
  | some localBlock =>
    cases hr : held host remoteBlocks (blockKey host block) with
    | none =>
      rw [hl, hr, Option.merge_none_right] at hmerge
      exact List.mem_append_left _ ((held_eq_some hlocal).mp (hl.trans hmerge)).1
    | some remoteBlock =>
      rw [hl, hr, Option.merge_some_some] at hmerge
      obtain rfl := Option.some.inj hmerge
      rcases winner_eq host strategy localBlock remoteBlock with hw | hw
      · rw [hw]
        exact List.mem_append_left _ ((held_eq_some hlocal).mp hl).1
      · rw [hw]
        exact List.mem_append_right _ ((held_eq_some hremote).mp hr).1

/-- The result is in the order of the sort. -/
theorem pairwise_sortsBefore_resolve (h : ∀ block ∈
    resolveChainConflicts host strategy localBlocks remoteBlocks, block.FromJson) :
    (resolveChainConflicts host strategy localBlocks remoteBlocks).Pairwise
      fun a b => sortsBefore host a b = true := by
  have hentries : ∀ block ∈ (mergedEntries host strategy localBlocks remoteBlocks).map Prod.snd,
      block.FromJson := fun block hblock => h block (List.mem_mergeSort.mpr hblock)
  exact @List.pairwise_mergeSort_of_mem _ (sortsBefore host) _
    (fun a ha b hb c hc => sortsBefore_trans (hentries a ha) (hentries b hb) (hentries c hc))
    fun a ha b hb => sortsBefore_total (hentries a ha) (hentries b hb)

/-! ## Merging again -/

/-- A remote block that is found under its key and wins changes nothing. -/
theorem mergeRemote_eq_self {merged : List (JsString × Block)} {remoteBlock : Block}
    (hfound : merged.lookup (blockKey host remoteBlock) = some a)
    (hwins : winner host strategy a remoteBlock = a) :
    mergeRemote host strategy merged remoteBlock = merged := by
  have hset : a = remoteBlock →
      setMember (blockKey host remoteBlock) remoteBlock merged = merged := fun ha =>
    setMember_eq_self (ha ▸ hfound)
  rw [mergeRemote, hfound]
  cases strategy with
  | preferLocal => rfl
  | preferRemote => exact hset hwins.symm
  | lastWriteWins =>
    dsimp only
    split
    · next hle => exact hset ((if_pos hle).symm.trans hwins).symm
    · rfl

/-- So do remote blocks that are all found and win. -/
theorem foldl_mergeRemote_eq_self {merged : List (JsString × Block)}
    (h : ∀ remoteBlock ∈ remoteBlocks, ∃ a, merged.lookup (blockKey host remoteBlock) = some a ∧
      winner host strategy a remoteBlock = a) :
    remoteBlocks.foldl (mergeRemote host strategy) merged = merged := by
  induction remoteBlocks with
  | nil => rfl
  | cons first rest ih =>
    obtain ⟨⟨a, hfound, hwins⟩, hrest⟩ := List.forall_mem_cons.mp h
    rw [List.foldl_cons, mergeRemote_eq_self hfound hwins]
    exact ih hrest

/-- The winner wins again over the block it has been compared with. -/
theorem winner_winner_remote (host : SyncHost) (strategy : ConflictResolutionStrategy)
    (localBlock remoteBlock : Block) :
    winner host strategy (winner host strategy localBlock remoteBlock) remoteBlock =
      winner host strategy localBlock remoteBlock := by
  have hself : winner host strategy remoteBlock remoteBlock = remoteBlock :=
    or_self_iff.mp (winner_eq host strategy remoteBlock remoteBlock)
  cases strategy with
  | preferLocal => rfl
  | preferRemote => rfl
  | lastWriteWins =>
    by_cases hle : (blockTimestamp host localBlock).le (blockTimestamp host remoteBlock) = true
    · rw [winner_of_le hle, hself]
    · rw [winner_of_not_le hle, winner_of_not_le hle]

/-- The map of blocks with different keys lists them. -/
theorem blockMap_of_keysDistinct (h : KeysDistinct host blocks) :
    blockMap host blocks = blocks.map fun block => (blockKey host block, block) := by
  refine defineMembers_of_nodup ?_
  rw [List.map_map]
  exact h

/-- Merging the remote blocks again leaves the map of the merge as it is. -/
theorem mergedEntries_again (hlocal : KeysDistinct host localBlocks)
    (hremote : KeysDistinct host remoteBlocks) :
    mergedEntries host strategy (resolveChainConflicts host strategy localBlocks remoteBlocks)
        remoteBlocks =
      (resolveChainConflicts host strategy localBlocks remoteBlocks).map
        fun block => (blockKey host block, block) := by
  have hmerged := @keysDistinct_resolveChainConflicts host strategy _ _ hlocal hremote
  rw [← blockMap_of_keysDistinct hmerged, ← localEntries_eq_blockMap]
  refine foldl_mergeRemote_eq_self fun remoteBlock hmem => ?_
  have hheld := (held_eq_some hremote).mpr ⟨hmem, rfl⟩
  rw [lookup_localEntries hmerged, held_resolveChainConflicts hlocal hremote, hheld]
  cases held host localBlocks (blockKey host remoteBlock) with
  | none =>
    have hself := winner_eq host strategy remoteBlock remoteBlock
    exact ⟨remoteBlock, Option.merge_none_left, or_self_iff.mp hself⟩
  | some localBlock =>
    exact ⟨_, Option.merge_some_some, winner_winner_remote host strategy localBlock remoteBlock⟩

/-! ## The size of the result -/

/-- The keys of the result are those of the replicas. -/
theorem mem_keys_resolve (hlocal : KeysDistinct host localBlocks)
    (hremote : KeysDistinct host remoteBlocks) (key : JsString) :
    key ∈ (resolveChainConflicts host strategy localBlocks remoteBlocks).map (blockKey host) ↔
      key ∈ localBlocks.map (blockKey host) ∨ key ∈ remoteBlocks.map (blockKey host) := by
  rw [← List.mem_append, ← List.map_append]
  constructor
  · intro hkey
    obtain ⟨block, hblock, rfl⟩ := List.mem_map.mp hkey
    exact List.mem_map_of_mem (mem_of_mem_resolve hlocal hremote hblock)
  · intro hkey
    have hheld : ∀ blocks : List Block, key ∈ blocks.map (blockKey host) →
        held host blocks key ≠ none := by
      rintro blocks hmem hnone
      obtain ⟨block, hblock, hkey⟩ := List.mem_map.mp hmem
      exact held_eq_none.mp hnone block hblock hkey
    cases hmerge : held host (resolveChainConflicts host strategy localBlocks remoteBlocks) key with
    | some block =>
      have hmerged := @keysDistinct_resolveChainConflicts host strategy _ _ hlocal hremote
      obtain ⟨hblock, rfl⟩ := (held_eq_some hmerged).mp hmerge
      exact List.mem_map_of_mem hblock
    | none =>
      rw [held_resolveChainConflicts hlocal hremote, Option.merge_eq_none_iff] at hmerge
      rw [List.map_append, List.mem_append] at hkey
      rcases hkey with hkey | hkey
      · exact absurd hmerge.1 (hheld _ hkey)
      · exact absurd hmerge.2 (hheld _ hkey)

/-- The keys of the local blocks, and those of the remote blocks that the local ones lack. -/
theorem perm_keys_resolve (hlocal : KeysDistinct host localBlocks)
    (hremote : KeysDistinct host remoteBlocks) :
    ((resolveChainConflicts host strategy localBlocks remoteBlocks).map (blockKey host)).Perm
      ((blockMap host localBlocks).map Prod.fst ++ ((blockMap host remoteBlocks).filter fun entry =>
        ((blockMap host localBlocks).lookup entry.1).isNone).map Prod.fst) := by
  have hmerged := @keysDistinct_resolveChainConflicts host strategy _ _ hlocal hremote
  have hrest : ∀ key, key ∈ ((blockMap host remoteBlocks).filter fun entry =>
      ((blockMap host localBlocks).lookup entry.1).isNone).map Prod.fst ↔
        key ∈ remoteBlocks.map (blockKey host) ∧ key ∉ localBlocks.map (blockKey host) := by
    intro key
    rw [← @isSome_lookup_blockMap host localBlocks, ← mem_keys_blockMap, Bool.not_eq_true,
      Option.isSome_eq_false_iff]
    constructor
    · intro hkey
      obtain ⟨entry, hentry, rfl⟩ := List.mem_map.mp hkey
      obtain ⟨hentry, hnone⟩ := List.mem_filter.mp hentry
      exact ⟨List.mem_map_of_mem hentry, hnone⟩
    · rintro ⟨hkey, hnone⟩
      obtain ⟨entry, hentry, rfl⟩ := List.mem_map.mp hkey
      exact List.mem_map_of_mem (List.mem_filter.mpr ⟨hentry, hnone⟩)
  have hdistinct : ((blockMap host localBlocks).map Prod.fst ++
      ((blockMap host remoteBlocks).filter fun entry =>
        ((blockMap host localBlocks).lookup entry.1).isNone).map Prod.fst).Nodup := by
    refine List.nodup_append.mpr ⟨nodup_blockMap _,
      (nodup_blockMap _).sublist (List.filter_sublist.map _), ?_⟩
    rintro key hkey _ hother rfl
    exact ((hrest key).mp hother).2 (mem_keys_blockMap.mp hkey)
  refine (List.perm_ext_iff_of_nodup hmerged hdistinct).mpr fun key => ?_
  rw [mem_keys_resolve hlocal hremote, List.mem_append, mem_keys_blockMap, hrest]
  by_cases hkey : key ∈ localBlocks.map (blockKey host)
  · simp [hkey]
  · simp [hkey]

/-- The local keys are those of the local blocks only and the common ones. -/
theorem length_blockMap (localBlocks remoteBlocks : List Block) :
    (blockMap host localBlocks).length =
      (detectChainDiff host localBlocks remoteBlocks).localOnly.length +
        (commonKeys host localBlocks remoteBlocks).length := by
  rw [detectChainDiff, onlyIn, commonKeys, List.length_map, List.length_map,
    List.length_eq_length_filter_add fun entry : JsString × Block =>
      ((blockMap host remoteBlocks).lookup entry.1).isNone]
  simp only [Option.not_isNone]

/-! ## The merge -/

/-- What merging twice, and merging at all, should do. -/
structure MergesAgain (host : SyncHost) (strategy : ConflictResolutionStrategy)
    (localBlocks remoteBlocks : List Block) : Prop where
  again : resolveChainConflicts host strategy
      (resolveChainConflicts host strategy localBlocks remoteBlocks) remoteBlocks =
    resolveChainConflicts host strategy localBlocks remoteBlocks
  once : ∀ key, ((resolveChainConflicts host strategy localBlocks remoteBlocks).map
      (blockKey host)).count key =
    if key ∈ localBlocks.map (blockKey host) ∨ key ∈ remoteBlocks.map (blockKey host) then 1 else 0
  sorted : (resolveChainConflicts host strategy localBlocks remoteBlocks).Pairwise
    fun a b => (sortIndex a).le (sortIndex b) = true
  size : (resolveChainConflicts host strategy localBlocks remoteBlocks).length =
    (detectChainDiff host localBlocks remoteBlocks).localOnly.length +
      (detectChainDiff host localBlocks remoteBlocks).remoteOnly.length +
      (commonKeys host localBlocks remoteBlocks).length

/-- **A merge holds every key once, is sorted, has the size the difference tells, and merging the
remote blocks again changes nothing.** -/
theorem merges_again (host : SyncHost) (strategy : ConflictResolutionStrategy)
    (localBlocks remoteBlocks : List Block) (hlocal : KeysDistinct host localBlocks)
    (hremote : KeysDistinct host remoteBlocks)
    (hjson : ∀ block ∈ localBlocks ++ remoteBlocks, block.FromJson) :
    MergesAgain host strategy localBlocks remoteBlocks := by
  have hmerged := @keysDistinct_resolveChainConflicts host strategy _ _ hlocal hremote
  have hread : ∀ block ∈ resolveChainConflicts host strategy localBlocks remoteBlocks,
      block.FromJson := fun block h => hjson block (mem_of_mem_resolve hlocal hremote h)
  have hordered := pairwise_sortsBefore_resolve hread
  refine ⟨?_, ?_, ?_, ?_⟩
  · rw [resolveChainConflicts, mergedEntries_again hlocal hremote, List.map_map]
    exact (congrArg (List.mergeSort · (sortsBefore host)) (List.map_id _)).trans
      (List.mergeSort_of_pairwise hordered)
  · intro key
    rw [hmerged.count]
    exact if_congr (mem_keys_resolve hlocal hremote key) rfl rfl
  · refine hordered.imp_of_mem fun {a b} ha hb h => ?_
    rw [sortsBefore_iff_rank (hread a ha) (hread b hb)] at h
    refine JsNumber.le_iff.mpr
      ⟨(hread a ha).sortIndex_ne_nan, (hread b hb).sortIndex_ne_nan, ?_⟩
    rcases h with h | h
    · exact h.le
    · exact h.1.le
  · have hlength := (@perm_keys_resolve host strategy _ _ hlocal hremote).length_eq
    simp only [List.length_append, List.length_map] at hlength
    have hremoteOnly : (detectChainDiff host localBlocks remoteBlocks).remoteOnly.length =
        ((blockMap host remoteBlocks).filter fun entry =>
          ((blockMap host localBlocks).lookup entry.1).isNone).length := List.length_map _
    rw [hlength, length_blockMap localBlocks remoteBlocks, hremoteOnly, add_right_comm]

/-- Two blocks of one index, which the diff counts once. -/
theorem merges_again_sample :
    MergesAgain sampleHost .lastWriteWins [sampleBlock 1 "local"] [sampleBlock 1 "remote"] := by
  refine merges_again sampleHost .lastWriteWins [sampleBlock 1 "local"] [sampleBlock 1 "remote"]
    (keysDistinct_singleton _) (keysDistinct_singleton _) ?_
  refine List.forall_mem_cons.mpr ⟨?_, List.forall_mem_singleton.mpr ?_⟩
  · exact fromJson_sampleBlock (by norm_num) "local"
  · exact fromJson_sampleBlock (by norm_num) "remote"

end MemphisOS.Sync
