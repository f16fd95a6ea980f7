import MemphisOS.Ecma.Maps
import MemphisOS.Ecma.NumberOrder

/-!
# Blocks of synchronised chains

A chain is stored as a JSON array of blocks. Blocks of two replicas are matched by a key: the
hash, or the index, or the time and the content.
-/

namespace MemphisOS.Sync

open Ecma

/-- A stored block. `prevHash` is carried along with the other members and read by no function
of the synchronisation. -/
structure Block where
  index : Option JsNumber
  timestamp : Option JsString
  hash : Option JsString
  chain : Option JsString
  data : Option Plain
  prevHash : Option JsString

/-- What the language leaves to the implementation: `Date.parse` and `localeCompare`. -/
structure SyncHost where
  dateParse : JsString → JsNumber
  localeCompare : JsString → JsString → ℤ

variable (host : SyncHost)

/-- `Object.entries(value).sort(([a], [b]) => a.localeCompare(b))`. -/
def sortEntries (entries : List (JsString × Text)) : List (JsString × Text) :=
  entries.mergeSort fun a b => host.localeCompare a.1 b.1 ≤ 0

def stableStringify : Plain → Text :=
  Json.fold (jsonText [] .null) (fun b => jsonText [] (.bool b)) (fun n => jsonText [] (.num n))
    (fun s => jsonText [] (.str s))
    (fun items => '[' :: Json.joinWith [','] items ++ [']'])
    (fun members => '{' :: Json.joinWith [',']
      ((sortEntries host members).map fun m => Json.quote m.1 ++ ':' :: m.2) ++ ['}'])

def blockKey (block : Block) : JsString :=
  match block.hash, block.index with
  | some (u :: hash), _ => js "hash:" ++ u :: hash
  | _, some index => js "idx:" ++ ofText (numberText index)
  | _, none => js "ts:" ++ block.timestamp.getD (js "unknown") ++ js ":" ++
      ofText (stableStringify host (block.data.getD (.obj [])))

def blockTimestamp (block : Block) : JsNumber :=
  match block.timestamp with
  | some (u :: timestamp) =>
    let raw := host.dateParse (u :: timestamp)
    if raw.isFinite then raw else .ofNat 0
  | _ => .ofNat 0

/-- The time of a block is a number, whatever its `timestamp` is. -/
theorem isFinite_blockTimestamp (block : Block) : (blockTimestamp host block).isFinite = true := by
  unfold blockTimestamp
  split
  · dsimp only
    split
    · assumption
    · exact JsNumber.isFinite_ofNat (by norm_num)
  · exact JsNumber.isFinite_ofNat (by norm_num)

end MemphisOS.Sync

/-!
## The conflict resolver

`resolveChainConflicts` merges the blocks of two replicas. Key by key, its result is what one
replica alone holds, or the winner of the two blocks that both hold.
-/

namespace MemphisOS.Sync

open Ecma

inductive ConflictResolutionStrategy where
  | lastWriteWins
  | preferLocal
  | preferRemote
  deriving DecidableEq

variable (host : SyncHost) (strategy : ConflictResolutionStrategy)

/-- The first loop: the local blocks under their keys. -/
def localEntries (blocks : List Block) : List (JsString × Block) :=
  blocks.foldl (fun merged block => setMember (blockKey host block) block merged) []

/-- One turn of the second loop. -/
def mergeRemote (merged : List (JsString × Block)) (remoteBlock : Block) :
    List (JsString × Block) :=
  let key := blockKey host remoteBlock
  match merged.lookup key with
  | none => setMember key remoteBlock merged
  | some localBlock =>
    match strategy with
    | .preferLocal => merged
    | .preferRemote => setMember key remoteBlock merged
    | .lastWriteWins =>
      if (blockTimestamp host localBlock).le (blockTimestamp host remoteBlock) then
        setMember key remoteBlock merged
      else merged

/-- The index blocks are sorted by: `Number.MAX_SAFE_INTEGER` for a block without one. -/
def sortIndex (block : Block) : JsNumber := block.index.getD (.ofNat (2 ^ 53 - 1))

/-- The comparison of the sort is not positive. The difference of two numbers is positive
exactly when the second is smaller; it is `NaN`, which counts as zero, when one of them is. -/
def sortsBefore (a b : Block) : Bool :=
  if (sortIndex a).strictEq (sortIndex b) then (blockTimestamp host a).le (blockTimestamp host b)
  else !(sortIndex b).lt (sortIndex a)

/-- The map `merged` after both loops. -/
def mergedEntries (localBlocks remoteBlocks : List Block) : List (JsString × Block) :=
  remoteBlocks.foldl (mergeRemote host strategy) (localEntries host localBlocks)

def resolveChainConflicts (localBlocks remoteBlocks : List Block) : List Block :=
  ((mergedEntries host strategy localBlocks remoteBlocks).map Prod.snd).mergeSort (sortsBefore host)

/-! ## Key by key -/

/-- Which of two blocks with one key stays. -/
def winner (localBlock remoteBlock : Block) : Block :=
  match strategy with
  | .preferLocal => localBlock
  | .preferRemote => remoteBlock
  | .lastWriteWins =>
    if (blockTimestamp host localBlock).le (blockTimestamp host remoteBlock) then remoteBlock
    else localBlock

/-- The block a replica holds under a key. -/
def held (blocks : List Block) (key : JsString) : Option Block :=
  blocks.find? fun block => blockKey host block = key

/-- No two blocks of a replica have one key. -/
def KeysDistinct (blocks : List Block) : Prop := (blocks.map (blockKey host)).Nodup

variable {host strategy} {blocks localBlocks remoteBlocks : List Block}
  {merged : List (JsString × Block)} {key : JsString} {block : Block}

/-- The block found under a key has that key. -/
theorem blockKey_of_held (h : held host blocks key = some block) : blockKey host block = key := by
  have hfound := List.find?_some h
  exact of_decide_eq_true hfound

theorem held_eq_some (h : KeysDistinct host blocks) :
    held host blocks key = some block ↔ block ∈ blocks ∧ blockKey host block = key := by
  constructor
  · intro hheld
    exact ⟨List.mem_of_find?_eq_some hheld, blockKey_of_held hheld⟩
  · rintro ⟨hmem, rfl⟩
    induction blocks with
    | nil => cases hmem
    | cons first rest ih =>
      rw [KeysDistinct, List.map_cons, List.nodup_cons] at h
      rw [held, List.find?_cons]
      rcases List.mem_cons.mp hmem with rfl | hmem
      · rw [decide_eq_true rfl]
      · have hne : blockKey host first ≠ blockKey host block := by
          intro heq
          exact h.1 (heq ▸ List.mem_map_of_mem hmem)
        rw [decide_eq_false hne]
        exact ih h.2 hmem

theorem held_eq_none : held host blocks key = none ↔
    ∀ block ∈ blocks, blockKey host block ≠ key := by
  simp [held]

/-- The first loop finds under each key the block the replica holds. -/
theorem lookup_localEntries (h : KeysDistinct host blocks) (key : JsString) :
    (localEntries host blocks).lookup key = held host blocks key := by
  have hentries : localEntries host blocks =
      defineMembers (blocks.map fun block => (blockKey host block, block)) := by
    rw [localEntries, defineMembers, List.foldl_map]
  have hkeys : ((blocks.map fun block => (blockKey host block, block)).map Prod.fst).Nodup := by
    rw [List.map_map]
    exact h
  rw [hentries, defineMembers_of_nodup hkeys]
  clear h hentries hkeys
  induction blocks with
  | nil => rfl
  | cons first rest ih =>
    rw [List.map_cons, List.lookup_cons, held, List.find?_cons]
    by_cases hkey : blockKey host first = key
    · rw [hkey, beq_self_eq_true, decide_eq_true rfl]
    · rw [beq_false_of_ne (Ne.symm hkey), decide_eq_false hkey]
      exact ih

/-- One turn changes what is found under the key of the remote block only. -/
theorem lookup_mergeRemote (merged : List (JsString × Block)) (remoteBlock : Block)
    (key : JsString) : (mergeRemote host strategy merged remoteBlock).lookup key =
      if key = blockKey host remoteBlock then
        Option.merge (winner host strategy) (merged.lookup key) (some remoteBlock)
      else merged.lookup key := by
  by_cases hkey : key = blockKey host remoteBlock
  · subst hkey
    rw [if_pos rfl, mergeRemote]
    cases hlocal : merged.lookup (blockKey host remoteBlock) with
    | none => simp [lookup_setMember]
    | some localBlock =>
      cases strategy with
      | preferLocal => simp [hlocal, winner]
      | preferRemote => simp [lookup_setMember, winner]
      | lastWriteWins =>
        simp only [winner, Option.merge_some_some]
        split
        · rw [lookup_setMember, if_pos rfl]
        · exact hlocal
  · rw [if_neg hkey, mergeRemote]
    have hset : (setMember (blockKey host remoteBlock) remoteBlock merged).lookup key =
        merged.lookup key := by
      rw [lookup_setMember, if_neg hkey]
    cases merged.lookup (blockKey host remoteBlock) with
    | none => exact hset
    | some localBlock =>
      cases strategy with
      | preferLocal => rfl
      | preferRemote => exact hset
      | lastWriteWins =>
        dsimp only
        split
        · exact hset
        · rfl

/-- The second loop merges key by key. -/
theorem lookup_foldl_mergeRemote (h : KeysDistinct host remoteBlocks)
    (merged : List (JsString × Block)) (key : JsString) :
    (remoteBlocks.foldl (mergeRemote host strategy) merged).lookup key =
      Option.merge (winner host strategy) (merged.lookup key) (held host remoteBlocks key) := by
  induction remoteBlocks generalizing merged with
  | nil => exact Option.merge_none_right.symm
  | cons first rest ih =>
    rw [KeysDistinct, List.map_cons, List.nodup_cons] at h
    rw [List.foldl_cons, ih h.2, lookup_mergeRemote, held, held, List.find?_cons]
    by_cases hkey : key = blockKey host first
    · have hrest : rest.find? (fun block => blockKey host block = key) = none := by
        refine held_eq_none.mpr fun block hblock heq => h.1 ?_
        rw [← hkey, ← heq]
        exact List.mem_map_of_mem hblock
      rw [if_pos hkey, decide_eq_true hkey.symm, hrest, Option.merge_none_right]
    · rw [if_neg hkey, decide_eq_false (Ne.symm hkey)]

/-- The keys of the merged blocks are different. -/
theorem nodup_mergedEntries (localBlocks remoteBlocks : List Block) :
    ((mergedEntries host strategy localBlocks remoteBlocks).map Prod.fst).Nodup := by
  have hstep : ∀ (merged : List (JsString × Block)) (remoteBlock : Block),
      (merged.map Prod.fst).Nodup →
      ((mergeRemote host strategy merged remoteBlock).map Prod.fst).Nodup := by
    intro merged remoteBlock hmerged
    have hset := nodup_setMember hmerged (blockKey host remoteBlock) remoteBlock
    unfold mergeRemote
    dsimp only
    split
    · exact hset
    · split
      · exact hmerged
      · exact hset
      · split
        · exact hset
        · exact hmerged
  have hlocal : ((localEntries host localBlocks).map Prod.fst).Nodup := by
    rw [localEntries, ← List.foldl_map (f := fun block => (blockKey host block, block))
      (g := fun own m => setMember m.1 m.2 own)]
    exact defineMembers_nodup _
  rw [mergedEntries]
  generalize localEntries host localBlocks = merged at hlocal ⊢
  induction remoteBlocks generalizing merged with
  | nil => exact hlocal
  | cons first rest ih => exact ih _ (hstep merged first hlocal)

/-- The winner is one of the two blocks. -/
theorem winner_eq (host : SyncHost) (strategy : ConflictResolutionStrategy)
    (localBlock remoteBlock : Block) :
    winner host strategy localBlock remoteBlock = localBlock ∨
      winner host strategy localBlock remoteBlock = remoteBlock := by
  cases strategy with
  | preferLocal => exact .inl rfl
  | preferRemote => exact .inr rfl
  | lastWriteWins =>
    rw [winner]
    split
    · exact .inr rfl
    · exact .inl rfl

theorem blockKey_of_merge (h : Option.merge (winner host strategy) (held host localBlocks key)
    (held host remoteBlocks key) = some block) : blockKey host block = key := by
  cases hlocal : held host localBlocks key with
  | none =>
    rw [hlocal, Option.merge_none_left] at h
    exact blockKey_of_held h
  | some localBlock =>
    cases hremote : held host remoteBlocks key with
    | none =>
      rw [hlocal, hremote, Option.merge_none_right] at h
      exact blockKey_of_held (hlocal.trans h)
    | some remoteBlock =>
      rw [hlocal, hremote, Option.merge_some_some] at h
      obtain rfl := Option.some.inj h
      rcases winner_eq host strategy localBlock remoteBlock with hw | hw
      · rw [hw]
        exact blockKey_of_held hlocal
      · rw [hw]
        exact blockKey_of_held hremote

/-- The map finds the winner under each key. -/
theorem lookup_mergedEntries (hlocal : KeysDistinct host localBlocks)
    (hremote : KeysDistinct host remoteBlocks) (key : JsString) :
    (mergedEntries host strategy localBlocks remoteBlocks).lookup key =
      Option.merge (winner host strategy) (held host localBlocks key)
        (held host remoteBlocks key) := by
  rw [mergedEntries, lookup_foldl_mergeRemote hremote, lookup_localEntries hlocal]

/-- Every block is stored under its own key. -/
theorem blockKey_of_mem_mergedEntries (hlocal : KeysDistinct host localBlocks)
    (hremote : KeysDistinct host remoteBlocks) {entry : JsString × Block}
    (h : entry ∈ mergedEntries host strategy localBlocks remoteBlocks) :
    blockKey host entry.2 = entry.1 := by
  have hfound := lookup_of_mem (nodup_mergedEntries localBlocks remoteBlocks) h
  rw [lookup_mergedEntries hlocal hremote] at hfound
  exact blockKey_of_merge hfound

/-- **The blocks of the result, key by key.** -/
theorem mem_resolveChainConflicts (hlocal : KeysDistinct host localBlocks)
    (hremote : KeysDistinct host remoteBlocks) :
    block ∈ resolveChainConflicts host strategy localBlocks remoteBlocks ↔
      Option.merge (winner host strategy) (held host localBlocks (blockKey host block))
        (held host remoteBlocks (blockKey host block)) = some block := by
  rw [resolveChainConflicts, List.mem_mergeSort, List.mem_map,
    ← lookup_mergedEntries hlocal hremote]
  constructor
  · rintro ⟨entry, hmem, rfl⟩
    rw [blockKey_of_mem_mergedEntries hlocal hremote hmem]
    exact lookup_of_mem (nodup_mergedEntries localBlocks remoteBlocks) hmem
  · intro hfound
    exact ⟨_, mem_of_lookup_eq_some hfound, rfl⟩

/-- The keys of the result are different. -/
theorem keysDistinct_resolveChainConflicts (hlocal : KeysDistinct host localBlocks)
    (hremote : KeysDistinct host remoteBlocks) :
    KeysDistinct host (resolveChainConflicts host strategy localBlocks remoteBlocks) := by
  have hkeys : ((mergedEntries host strategy localBlocks remoteBlocks).map Prod.snd).map
      (blockKey host) = (mergedEntries host strategy localBlocks remoteBlocks).map Prod.fst := by
    rw [List.map_map]
    exact List.map_congr_left fun _ h => blockKey_of_mem_mergedEntries hlocal hremote h
  rw [KeysDistinct, resolveChainConflicts,
    ((List.mergeSort_perm _ (sortsBefore host)).map (blockKey host)).nodup_iff, hkeys]
  exact nodup_mergedEntries localBlocks remoteBlocks

/-- What the result holds under a key. -/
theorem held_resolveChainConflicts (hlocal : KeysDistinct host localBlocks)
    (hremote : KeysDistinct host remoteBlocks) (key : JsString) :
    held host (resolveChainConflicts host strategy localBlocks remoteBlocks) key =
      Option.merge (winner host strategy) (held host localBlocks key)
        (held host remoteBlocks key) := by
  apply Option.ext
  intro block
  rw [held_eq_some (keysDistinct_resolveChainConflicts hlocal hremote),
    mem_resolveChainConflicts hlocal hremote]
  constructor
  · rintro ⟨hmerge, rfl⟩
    exact hmerge
  · intro hmerge
    rw [blockKey_of_merge hmerge]
    exact ⟨hmerge, rfl⟩

end MemphisOS.Sync
