import MemphisOS.Ecma.Tallies
import MemphisOS.Ecma.NumeralLaws
import MemphisOS.Ecma.Trees
import MemphisOS.Sequences.Recency
import MemphisOS.Systems.Transition

/-!
# The chain cache

A cache of blocks under keys that join the name of a chain and an index by a colon. A map of the
blocks, a map of their sizes and a counter are changed one after another.
-/

namespace MemphisOS.Caches

open Ecma Sequences

structure ChainCache where
  maxBlocks : JsNumber
  /-- The blocks, the one used last at the end. -/
  blocks : List (JsString × JsTree) := []
  blockSizes : List (JsString × ℕ) := []
  hits : ℕ := 0
  misses : ℕ := 0
  writes : ℕ := 0
  invalidations : ℕ := 0
  estimatedBytes : ℕ := 0

namespace ChainCache

/-- The constructor, with the option `maxBlocks`. -/
def new (maxBlocks : Option JsNumber) : ChainCache where
  maxBlocks := (JsNumber.ofNat 1).max (maxBlocks.getD (.ofNat 512))

def makeKey (chain : JsString) (index : JsNumber) : JsString :=
  chain ++ js ":" ++ ofText (numberText index)

/-- The estimated size of a block; `JSON.stringify` throws on it, or gives no text to measure. -/
def estimateBlockBytes (key : JsString) (value : JsTree) : Option ℕ :=
  match value.stringify [] with
  | some (some text) => some (key.length * 2 + (ofText text).length * 2)
  | _ => none

def keys (self : ChainCache) : List JsString := self.blocks.map Prod.fst

/-- `get`, and what it returns. A block is an object, and so counts as true. -/
def get (self : ChainCache) (chain : JsString) (index : JsNumber) : Option JsTree × ChainCache :=
  match self.blocks.lookup (makeKey chain index) with
  | some value =>
    (some value, { self with
      hits := self.hits + 1
      blocks := setMember (makeKey chain index) value
        (deleteEntry (makeKey chain index) self.blocks) })
  | none => (none, { self with misses := self.misses + 1 })

/-- The part of the operations that takes a block and its size out. -/
def remove (self : ChainCache) (key : JsString) : ChainCache :=
  { self with
    blocks := deleteEntry key self.blocks
    blockSizes := deleteEntry key self.blockSizes
    estimatedBytes := self.estimatedBytes - (self.blockSizes.lookup key).getD 0 }

/-- The part of `set` that takes out a block that is replaced. Its size stays. -/
def replace (self : ChainCache) (key : JsString) : ChainCache :=
  if (self.blocks.lookup key).isSome then
    { self with
      blocks := deleteEntry key self.blocks
      estimatedBytes := self.estimatedBytes - (self.blockSizes.lookup key).getD 0 }
  else self

/-- The part of `set` that evicts the oldest block. -/
def evict (self : ChainCache) : ChainCache :=
  if self.maxBlocks.exceededBy self.blocks.length then
    match self.blocks.head? with
    | some oldest => if oldest.1 = [] then self else self.remove oldest.1
    | none => self
  else self

/-- The part of `set` that stores the block. -/
def store (self : ChainCache) (key : JsString) (value : JsTree) : ChainCache :=
  { self with blocks := setMember key value self.blocks }

/-- The part of `set` that counts the block. -/
def count (self : ChainCache) (key : JsString) (estimate : ℕ) : ChainCache :=
  { self with
    blockSizes := setMember key estimate self.blockSizes
    estimatedBytes := self.estimatedBytes + estimate
    writes := self.writes + 1 }

/-- `set`. It may throw when the block is already stored. -/
def set (self : ChainCache) (chain : JsString) (index : JsNumber) (value : JsTree) : ChainCache :=
  let key := makeKey chain index
  let stored := (self.replace key).store key value
  match estimateBlockBytes key value with
  | none => stored
  | some estimate => (stored.count key estimate).evict

/-- `invalidateChain`, and what it returns. -/
def invalidateChain (self : ChainCache) (chain : JsString) : ℕ × ChainCache :=
  let toRemove := self.keys.filter fun key => (chain ++ js ":").isPrefixOf key
  let removed := toRemove.foldl remove self
  (toRemove.length, if 0 < toRemove.length then
    { removed with invalidations := removed.invalidations + 1 } else removed)

/-- `invalidateBlock`, and what it returns. -/
def invalidateBlock (self : ChainCache) (chain : JsString) (index : JsNumber) : Bool × ChainCache :=
  if (self.blocks.lookup (makeKey chain index)).isSome then
    let removed := self.remove (makeKey chain index)
    (true, { removed with invalidations := removed.invalidations + 1 })
  else (false, self)

def clear (self : ChainCache) : ChainCache :=
  if 0 < self.blocks.length then
    { self with
      blocks := []
      blockSizes := []
      estimatedBytes := 0
      invalidations := self.invalidations + 1 }
  else self

end ChainCache

/-! ## Runs -/

inductive ChainCacheCall where
  | get (chain : JsString) (index : JsNumber)
  | set (chain : JsString) (index : JsNumber) (value : JsTree)
  | invalidateBlock (chain : JsString) (index : JsNumber)
  | invalidateChain (chain : JsString)
  | clear

/-- A cache, and the keys that were used so far. -/
structure ChainCacheRun where
  cache : ChainCache
  uses : List JsString

namespace ChainCacheRun

open ChainCache

/-- A key is used when a block is set, and when one is found. -/
def next (s : ChainCacheRun) : ChainCacheCall → ChainCacheRun
  | .get chain index =>
    ⟨(s.cache.get chain index).2,
      if ((s.cache.get chain index).1).isSome then s.uses ++ [makeKey chain index] else s.uses⟩
  | .set chain index value => ⟨s.cache.set chain index value, s.uses ++ [makeKey chain index]⟩
  | .invalidateBlock chain index => ⟨(s.cache.invalidateBlock chain index).2, s.uses⟩
  | .invalidateChain chain => ⟨(s.cache.invalidateChain chain).2, s.uses⟩
  | .clear => ⟨s.cache.clear, s.uses⟩

/-- A new cache, and calls in any order. -/
def system (maxBlocks : Option JsNumber) : TransitionSystem ChainCacheRun ChainCacheCall :=
  .ofFunction ⟨.new maxBlocks, []⟩ next

/-- The maps of the cache have the same keys, its counter is the sum of the sizes, and its blocks
are in the order of their last uses. -/
structure Tallied (s : ChainCacheRun) : Prop where
  one_le : s.cache.maxBlocks.exceededBy 1 = false
  keys : (s.cache.blockSizes.map Prod.fst).Perm s.cache.keys
  bytes : s.cache.estimatedBytes = totalSize id s.cache.blockSizes
  recency : Recency s.uses s.cache.keys.reverse
  named : ∀ key ∈ s.cache.keys, ∃ chain index, key = makeKey chain index

/-- Besides, the cache is within its limit. -/
structure Accounted (s : ChainCacheRun) : Prop extends Tallied s where
  bounded : s.cache.maxBlocks.exceededBy s.cache.blocks.length = false

/-- A call loses only what it may: `set` keeps its own block and loses at most one other, which was
used least recently, and `invalidateChain` loses exactly the blocks of its chain. -/
structure Loses (s : ChainCacheRun) (call : ChainCacheCall) : Prop where
  stored : ∀ chain index value, call = .set chain index value →
    makeKey chain index ∈ (s.next call).cache.keys
  one : ∀ chain index value, call = .set chain index value → ∀ gone ∈ s.cache.keys,
    gone ∉ (s.next call).cache.keys → ∀ gone' ∈ s.cache.keys,
      gone' ∉ (s.next call).cache.keys → gone' = gone
  least : ∀ chain index value, call = .set chain index value → ∀ gone ∈ s.cache.keys,
    gone ∉ (s.next call).cache.keys → ∀ kept ∈ (s.next call).cache.keys,
      UsedLater (s.next call).uses kept gone
  invalidated : ∀ chain, call = .invalidateChain chain → ∀ chain' index,
    makeKey chain' index ∈ (s.next call).cache.keys ↔
      makeKey chain' index ∈ s.cache.keys ∧ chain' ≠ chain

/-- A block that is set is written as JSON, and no block is cached of a chain whose name begins with
that of a chain to invalidate and a colon. -/
def Separable (s : ChainCacheRun) : ChainCacheCall → Prop
  | .set _ _ value => ∃ text, value.stringify [] = some (some text)
  | .invalidateChain chain => ∀ chain' index, makeKey chain' index ∈ s.cache.keys →
      ¬chain ++ js ":" <+: chain'
  | _ => True

end ChainCacheRun

/-! ## Keys -/

namespace ChainCache

variable {self : ChainCache} {chain chain' key : JsString} {index : JsNumber} {value : JsTree}

theorem colon_eq : js ":" = [58] := by decide

/-- A key begins with a name and a colon if it is of that chain, or the name of its chain does. -/
theorem prefix_makeKey_iff :
    chain ++ js ":" <+: makeKey chain' index ↔ chain' = chain ∨ chain ++ js ":" <+: chain' := by
  rw [makeKey, List.append_assoc]
  constructor
  · intro h
    rcases List.prefix_or_prefix_of_prefix h (List.prefix_append chain' _) with hshort | ⟨q, hq⟩
    · exact .inr hshort
    · rw [← hq, List.prefix_append_right_inj, colon_eq] at h
      rw [colon_eq] at hq ⊢
      rcases q.eq_nil_or_concat' with rfl | ⟨r, u, rfl⟩
      · rw [List.append_nil] at hq
        exact .inr (hq ▸ List.prefix_rfl)
      · rw [← List.append_assoc] at hq
        obtain ⟨hchain, hu⟩ := List.append_inj' hq rfl
        cases r with
        | nil => exact .inl (by rwa [List.append_nil] at hchain)
        | cons v r =>
          -- the index has no colon
          rw [hu, List.cons_append, List.singleton_append, List.cons_prefix_cons] at h
          exact absurd (h.2.subset (List.mem_append_right r List.mem_cons_self))
            (colon_not_mem_ofText_numberText index)
  · rintro (rfl | ⟨rest, rfl⟩)
    · rw [← List.append_assoc]
      exact List.prefix_append _ _
    · rw [List.append_assoc]
      exact List.prefix_append _ _

theorem makeKey_ne_nil : makeKey chain index ≠ [] := by
  rw [makeKey, colon_eq]
  simp

/-! ## Operations -/

theorem keys_remove (self : ChainCache) (key : JsString) :
    (self.remove key).keys = self.keys.filter fun k => k ≠ key :=
  keys_deleteEntry key self.blocks

/-- Looking a block up moves it to the end. -/
theorem get_cases (self : ChainCache) (chain : JsString) (index : JsNumber) :
    (∃ value, makeKey chain index ∈ self.keys ∧ (self.get chain index).1 = some value ∧
        (self.get chain index).2 = { self with
          hits := self.hits + 1
          blocks := deleteEntry (makeKey chain index) self.blocks ++
            [(makeKey chain index, value)] }) ∨
      (self.get chain index).1 = none ∧
        (self.get chain index).2 = { self with misses := self.misses + 1 } := by
  rw [get]
  cases hlookup : self.blocks.lookup (makeKey chain index) with
  | none => exact .inr ⟨rfl, rfl⟩
  | some value =>
    refine .inl ⟨value, ?_, rfl, ?_⟩
    · exact lookup_isSome_iff.mp (by rw [hlookup]; rfl)
    · dsimp only
      rw [setMember_of_not_mem (not_mem_keys_deleteEntry _ _)]

theorem lookup_getD (sizes : List (JsString × ℕ)) (key : JsString) :
    (sizes.lookup key).getD 0 = sizeAt id key sizes := by
  rw [sizeAt, Option.map_id]
  rfl

/-- What `set` stores comes to the end, and a block that is replaced is discounted. -/
theorem store_replace (hsize : key ∉ self.keys → sizeAt id key self.blockSizes = 0)
    (value : JsTree) : (self.replace key).store key value = { self with
      blocks := deleteEntry key self.blocks ++ [(key, value)]
      estimatedBytes := self.estimatedBytes - sizeAt id key self.blockSizes } := by
  rw [replace]
  by_cases hkey : (self.blocks.lookup key).isSome = true
  · rw [if_pos hkey, store, setMember_of_not_mem (not_mem_keys_deleteEntry _ _), lookup_getD]
  · have hnot : key ∉ self.blocks.map Prod.fst := fun h => hkey (lookup_isSome_iff.mpr h)
    rw [if_neg hkey, store, setMember_of_not_mem hnot, deleteEntry_of_not_mem hnot, hsize hnot,
      Nat.sub_zero]

/-- Evicting takes the oldest block out of a cache that is over its limit. -/
theorem evict_cases (hzero : self.maxBlocks.exceededBy 0 = false) (hnil : [] ∉ self.keys) :
    self.maxBlocks.exceededBy self.blocks.length = false ∧ self.evict = self ∨
      ∃ oldest rest, self.maxBlocks.exceededBy self.blocks.length = true ∧
        self.blocks = oldest :: rest ∧ self.evict = self.remove oldest.1 := by
  rw [evict]
  by_cases hover : self.maxBlocks.exceededBy self.blocks.length = true
  · rw [if_pos hover]
    cases hblocks : self.blocks with
    | nil =>
      rw [hblocks, List.length_nil, Nat.cast_zero, hzero] at hover
      cases hover
    | cons oldest rest =>
      have hne : oldest.1 ≠ [] := by
        intro hempty
        rw [keys, hblocks, List.map_cons, hempty] at hnil
        exact hnil List.mem_cons_self
      rw [List.head?_cons]
      dsimp only
      rw [if_neg hne]
      exact .inr ⟨oldest, rest, hblocks ▸ hover, rfl, rfl⟩
  · rw [if_neg hover]
    exact .inl ⟨Bool.eq_false_iff.mpr hover, rfl⟩

end ChainCache

namespace ChainCacheRun

open ChainCache

variable {s : ChainCacheRun} {cache : ChainCache} {uses : List JsString}
  {chain : JsString} {index : JsNumber} {value : JsTree} {key : JsString}

theorem Tallied.nodup (h : Tallied s) : s.cache.keys.Nodup :=
  List.nodup_reverse.mp h.recency.nodup

theorem Tallied.nodup_sizes (h : Tallied s) : (s.cache.blockSizes.map Prod.fst).Nodup :=
  h.keys.nodup_iff.mpr h.nodup

/-- Taking a block out keeps the tally. -/
theorem Tallied.remove (h : Tallied ⟨cache, uses⟩) (key : JsString) :
    Tallied ⟨cache.remove key, uses⟩ where
  one_le := h.one_le
  keys := by
    rw [keys_remove]
    exact keys_deleteEntry key cache.blockSizes ▸ h.keys.filter _
  bytes := by
    have htotal := totalSize_deleteEntry id key h.nodup_sizes
    have hbytes := h.bytes
    dsimp only [ChainCache.remove] at htotal hbytes ⊢
    rw [lookup_getD, hbytes]
    omega
  recency := by
    rw [keys_remove]
    exact h.recency.forget (List.reverse_sublist.mpr List.filter_sublist)
  named := by
    intro k hk
    rw [keys_remove] at hk
    exact h.named k (List.mem_of_mem_filter hk)

/-- Taking blocks out leaves a cache within its limit. -/
theorem Accounted.remove (h : Accounted ⟨cache, uses⟩) (key : JsString) :
    Accounted ⟨cache.remove key, uses⟩ where
  toTallied := h.toTallied.remove key
  bounded := JsNumber.not_exceededBy_mono
    (Nat.cast_le.mpr (List.length_filter_le _ cache.blocks)) h.bounded

theorem Tallied.zero (h : Tallied s) : s.cache.maxBlocks.exceededBy 0 = false :=
  JsNumber.not_exceededBy_mono zero_le_one h.one_le

theorem Tallied.nil_not_mem (h : Tallied s) : [] ∉ s.cache.keys := by
  intro hnil
  obtain ⟨chain, index, hkey⟩ := h.named [] hnil
  exact makeKey_ne_nil hkey.symm

theorem Tallied.sizeAt_eq_zero (h : Tallied s) (hkey : key ∉ s.cache.keys) :
    sizeAt id key s.cache.blockSizes = 0 :=
  sizeAt_of_not_mem fun hmem => hkey (h.keys.mem_iff.mp hmem)

/-- The keys once a key is used. -/
theorem keys_use (blocks : List (JsString × JsTree)) (key : JsString) (value : JsTree) :
    ((deleteEntry key blocks ++ [(key, value)]).map Prod.fst).reverse =
      key :: ((blocks.map Prod.fst).filter fun k => k ≠ key).reverse := by
  rw [List.map_append, keys_deleteEntry, List.reverse_append]
  rfl

theorem perm_use {l : List JsString} (hl : l.Nodup) (hkey : key ∈ l) :
    l.Perm ((l.filter fun k => k ≠ key) ++ [key]) := by
  have herase : l.erase key = l.filter fun k => k ≠ key := by
    rw [hl.erase_eq_filter]
    exact List.filter_congr fun k _ =>
      Bool.eq_iff_iff.mpr (by rw [bne_iff_ne, decide_eq_true_eq])
  rw [← herase]
  exact (List.perm_cons_erase hkey).trans (List.perm_append_singleton key _).symm

/-- A key that is used comes to the front of the order. -/
theorem recency_use {blocks : List (JsString × JsTree)}
    (h : Recency uses (blocks.map Prod.fst).reverse) (key : JsString) (value : JsTree) :
    Recency (uses ++ [key]) ((deleteEntry key blocks ++ [(key, value)]).map Prod.fst).reverse := by
  rw [keys_use]
  refine (h.forget (List.reverse_sublist.mpr List.filter_sublist)).use ?_
  simp

/-- The cache with a block that was set, before one is evicted. -/
def counted (cache : ChainCache) (key : JsString) (value : JsTree) (estimate : ℕ) : ChainCache :=
  ((cache.replace key).store key value).count key estimate

theorem counted_eq (h : Tallied ⟨cache, uses⟩) (key : JsString) (value : JsTree) (estimate : ℕ) :
    counted cache key value estimate = { cache with
      blocks := deleteEntry key cache.blocks ++ [(key, value)]
      blockSizes := setMember key estimate cache.blockSizes
      estimatedBytes := cache.estimatedBytes - sizeAt id key cache.blockSizes + estimate
      writes := cache.writes + 1 } := by
  rw [counted, store_replace h.sizeAt_eq_zero, count]

/-- Setting a block keeps the tally. -/
theorem Tallied.counted (h : Tallied ⟨cache, uses⟩) (chain : JsString) (index : JsNumber)
    (value : JsTree) (estimate : ℕ) :
    Tallied ⟨counted cache (makeKey chain index) value estimate,
      uses ++ [makeKey chain index]⟩ := by
  rw [counted_eq h]
  refine ⟨h.one_le, ?_, ?_, recency_use h.recency _ _, ?_⟩
  · rw [keys_setMember, ChainCache.keys, List.map_append, keys_deleteEntry]
    have hperm := h.keys
    by_cases hkey : makeKey chain index ∈ cache.keys
    · rw [if_pos (hperm.mem_iff.mpr hkey)]
      exact hperm.trans (perm_use h.nodup hkey)
    · rw [if_neg fun hmem => hkey (hperm.mem_iff.mp hmem),
        List.filter_eq_self.mpr fun k hk => decide_eq_true (by rintro rfl; exact hkey hk)]
      exact hperm.append_right _
  · have htotal := totalSize_setMember id (makeKey chain index) estimate h.nodup_sizes
    have hle := sizeAt_le_totalSize id (makeKey chain index) h.nodup_sizes
    have hbytes := h.bytes
    dsimp only [id] at htotal hle hbytes ⊢
    omega
  · intro key hkey
    rw [ChainCache.keys, List.map_append, keys_deleteEntry] at hkey
    rcases List.mem_append.mp hkey with hkey | hkey
    · exact h.named key (List.mem_of_mem_filter hkey)
    · exact ⟨chain, index, List.mem_singleton.mp hkey⟩

/-- Looking a block up keeps the account. -/
theorem Accounted.get (h : Accounted s) (chain : JsString) (index : JsNumber) :
    Accounted (s.next (.get chain index)) := by
  obtain ⟨value, hmem, hvalue, hget⟩ | ⟨hvalue, hget⟩ := get_cases s.cache chain index
  · rw [next, hvalue, hget]
    have hkeys : ((deleteEntry (makeKey chain index) s.cache.blocks ++
        [(makeKey chain index, value)]).map Prod.fst).Perm s.cache.keys := by
      rw [List.map_append, keys_deleteEntry]
      exact (perm_use h.nodup hmem).symm
    refine ⟨⟨h.one_le, h.keys.trans hkeys.symm, h.bytes, recency_use h.recency _ _, ?_⟩, ?_⟩
    · exact fun key hkey => h.named key (hkeys.mem_iff.mp hkey)
    · have hlength := hkeys.length_eq
      rw [List.length_map, ChainCache.keys, List.length_map] at hlength
      dsimp only
      rw [hlength]
      exact h.bounded
  · rw [next, hvalue, hget]
    exact { h with }

/-- What evicting leaves of a tallied cache that is over its limit by one block at most. -/
theorem Tallied.evict (h : Tallied ⟨cache, uses⟩) {n : ℕ}
    (hn : cache.maxBlocks.exceededBy n = false) (hlength : cache.blocks.length ≤ n + 1) :
    Accounted ⟨cache.evict, uses⟩ := by
  obtain ⟨hwithin, hevict⟩ | ⟨oldest, rest, -, hblocks, hevict⟩ :=
    evict_cases h.zero h.nil_not_mem
  · rw [hevict]
    exact ⟨h, hwithin⟩
  · rw [hevict]
    refine ⟨h.remove _, JsNumber.not_exceededBy_mono (Nat.cast_le.mpr ?_) hn⟩
    have hlt : (deleteEntry oldest.1 cache.blocks).length < cache.blocks.length := by
      refine List.length_filter_lt_length_iff_exists.mpr ⟨oldest, ?_, by simp⟩
      rw [hblocks]
      exact List.mem_cons_self
    exact Nat.le_of_lt_succ (hlt.trans_le hlength)

/-- Setting a block that is written as JSON keeps the account. -/
theorem Accounted.set (h : Accounted s) (chain : JsString) (index : JsNumber) {text : Text}
    (htext : value.stringify [] = some (some text)) :
    Accounted (s.next (.set chain index value)) ∧ ∃ estimate,
      (s.next (.set chain index value)).cache =
        (counted s.cache (makeKey chain index) value estimate).evict := by
  have hset : ∃ estimate, s.cache.set chain index value =
      (counted s.cache (makeKey chain index) value estimate).evict := by
    rw [ChainCache.set, estimateBlockBytes, htext]
    exact ⟨_, rfl⟩
  obtain ⟨estimate, hset⟩ := hset
  refine ⟨?_, estimate, hset⟩
  rw [next, hset]
  have htallied := h.toTallied.counted chain index value estimate
  refine htallied.evict (n := s.cache.blocks.length) ?_ ?_
  · rw [counted_eq h.toTallied]
    exact h.bounded
  · rw [counted_eq h.toTallied]
    dsimp only
    rw [List.length_append, List.length_singleton]
    exact Nat.succ_le_succ (List.length_filter_le _ _)

/-- Taking several blocks out keeps the account. -/
theorem Accounted.foldl_remove (h : Accounted ⟨cache, uses⟩) (toRemove : List JsString) :
    Accounted ⟨toRemove.foldl ChainCache.remove cache, uses⟩ := by
  induction toRemove generalizing cache with
  | nil => exact h
  | cons key toRemove ih => exact ih (h.remove key)

theorem keys_foldl_remove (toRemove : List JsString) (cache : ChainCache) {key : JsString} :
    key ∈ (toRemove.foldl ChainCache.remove cache).keys ↔ key ∈ cache.keys ∧ key ∉ toRemove := by
  induction toRemove generalizing cache with
  | nil => simp
  | cons k toRemove ih =>
    rw [List.foldl_cons, ih, keys_remove, List.mem_filter, decide_eq_true_eq, List.mem_cons,
      not_or, and_assoc]

/-- What invalidating a chain leaves: the keys that do not begin with its name and a colon. -/
theorem mem_keys_invalidateChain {key : JsString} :
    key ∈ (cache.invalidateChain chain).2.keys ↔
      key ∈ cache.keys ∧ ¬chain ++ js ":" <+: key := by
  have hkeys : (cache.invalidateChain chain).2.keys = ((cache.keys.filter fun key =>
      (chain ++ js ":").isPrefixOf key).foldl ChainCache.remove cache).keys := by
    rw [invalidateChain]
    split <;> rfl
  rw [hkeys, keys_foldl_remove, List.mem_filter, List.isPrefixOf_iff_prefix, not_and]
  exact and_congr_right fun hmem => ⟨fun h => h hmem, fun h _ => h⟩

/-- The keys once a block is set: its own at the end, and the oldest one gone if they are too
many. -/
theorem keys_set (h : Accounted s) (chain : JsString) (index : JsNumber) {text : Text}
    (htext : value.stringify [] = some (some text)) :
    (s.next (.set chain index value)).cache.keys =
        (s.cache.keys.filter fun k => k ≠ makeKey chain index) ++ [makeKey chain index] ∨
      ∃ oldest rest, (s.cache.keys.filter fun k => k ≠ makeKey chain index) = oldest :: rest ∧
        (s.next (.set chain index value)).cache.keys = rest ++ [makeKey chain index] ∧
        ∀ kept ∈ rest ++ [makeKey chain index],
          UsedLater (s.uses ++ [makeKey chain index]) kept oldest := by
  obtain ⟨-, estimate, hset⟩ := h.set chain index htext
  have htallied := h.toTallied.counted chain index value estimate
  have hkeys : (counted s.cache (makeKey chain index) value estimate).keys =
      (s.cache.keys.filter fun k => k ≠ makeKey chain index) ++ [makeKey chain index] := by
    rw [counted_eq h.toTallied, ChainCache.keys, List.map_append, keys_deleteEntry]
    rfl
  rw [hset]
  obtain ⟨-, hevict⟩ | ⟨oldest, rest, hover, hblocks, hevict⟩ :=
    evict_cases htallied.zero htallied.nil_not_mem
  · rw [hevict]
    exact .inl hkeys
  · have hfirst : (s.cache.keys.filter fun k => k ≠ makeKey chain index) ++
        [makeKey chain index] = oldest.1 :: rest.map Prod.fst := by
      rw [← hkeys, ChainCache.keys, hblocks]
      rfl
    rcases List.append_eq_cons_iff.mp hfirst with ⟨-, hrest⟩ | ⟨others, hothers, hrest⟩
    · -- the block that was set would be alone, which no limit forbids
      obtain rfl : rest = [] := List.map_eq_nil_iff.mp (List.cons.inj hrest).2.symm
      have hone := htallied.one_le
      dsimp only at hone
      rw [hblocks, List.length_singleton, Nat.cast_one, hone] at hover
      cases hover
    · refine .inr ⟨oldest.1, others, hothers, ?_, ?_⟩
      · have hnodup := htallied.nodup
        dsimp only at hnodup
        rw [hkeys, hothers, List.cons_append, List.nodup_cons] at hnodup
        rw [hevict, keys_remove, hkeys, hothers, List.cons_append,
          List.filter_cons_of_neg (by simp), List.filter_eq_self.mpr]
        exact fun k hk => decide_eq_true (by rintro rfl; exact hnodup.1 hk)
      · have hrecency := htallied.recency
        dsimp only at hrecency
        rw [hkeys, hothers, List.cons_append, List.reverse_cons] at hrecency
        exact fun kept hkept => hrecency.least kept (List.mem_reverse.mpr hkept)

/-- A key that a set block drives out is that of the oldest other block, which was used before
all that stay. -/
theorem lost_of_set (h : Accounted s) (chain : JsString) (index : JsNumber) {text : Text}
    (htext : value.stringify [] = some (some text)) {gone : JsString} (hgone : gone ∈ s.cache.keys)
    (hlost : gone ∉ (s.next (.set chain index value)).cache.keys) :
    (s.cache.keys.filter fun k => k ≠ makeKey chain index).head? = some gone ∧
      ∀ kept ∈ (s.next (.set chain index value)).cache.keys,
        UsedLater (s.uses ++ [makeKey chain index]) kept gone := by
  have hother : (s.next (.set chain index value)).cache.keys =
      (s.cache.keys.filter fun k => k ≠ makeKey chain index) ++ [makeKey chain index] → False := by
    intro hkeys
    rw [hkeys, List.mem_append, List.mem_filter, decide_eq_true_eq, List.mem_singleton] at hlost
    by_cases hkey : gone = makeKey chain index
    · exact hlost (.inr hkey)
    · exact hlost (.inl ⟨hgone, hkey⟩)
  obtain hkeys | ⟨oldest, rest, hfilter, hkeys, hleast⟩ := keys_set h chain index htext
  · exact absurd hkeys hother
  · rw [hkeys, List.mem_append, List.mem_singleton, not_or] at hlost
    have hmem : gone ∈ oldest :: rest := by
      rw [← hfilter]
      exact List.mem_filter.mpr ⟨hgone, decide_eq_true hlost.2⟩
    obtain rfl := (List.mem_cons.mp hmem).resolve_right hlost.1
    rw [hfilter, hkeys]
    exact ⟨rfl, hleast⟩

/-- A call that meets the condition loses only what it may. -/
theorem loses_of_separable (h : Accounted s) {call : ChainCacheCall} (hcall : s.Separable call) :
    Loses s call where
  stored := by
    rintro chain index value rfl
    obtain ⟨text, htext⟩ := hcall
    obtain hkeys | ⟨oldest, rest, -, hkeys, -⟩ := keys_set h chain index htext
    · rw [hkeys]
      exact List.mem_append_right _ List.mem_cons_self
    · rw [hkeys]
      exact List.mem_append_right _ List.mem_cons_self
  one := by
    rintro chain index value rfl gone hgone hlost gone' hgone' hlost'
    obtain ⟨text, htext⟩ := hcall
    have hhead := (lost_of_set h chain index htext hgone hlost).1
    rw [(lost_of_set h chain index htext hgone' hlost').1] at hhead
    exact Option.some.inj hhead
  least := by
    rintro chain index value rfl gone hgone hlost
    obtain ⟨text, htext⟩ := hcall
    exact (lost_of_set h chain index htext hgone hlost).2
  invalidated := by
    rintro chain rfl chain' index
    rw [next, mem_keys_invalidateChain, prefix_makeKey_iff, not_or]
    exact and_congr_right fun hmem => and_iff_left (hcall chain' index hmem)

/-- Calls that meet the condition keep the account. -/
theorem Accounted.next (h : Accounted s) {call : ChainCacheCall} (hcall : s.Separable call) :
    Accounted (s.next call) := by
  cases call with
  | get chain index => exact h.get chain index
  | set chain index value =>
    obtain ⟨text, htext⟩ := hcall
    exact (h.set chain index htext).1
  | invalidateBlock chain index =>
    rw [ChainCacheRun.next, invalidateBlock]
    split
    · have hremoved := h.remove (makeKey chain index)
      exact { hremoved with }
    · exact h
  | invalidateChain chain =>
    have hremoved := h.foldl_remove
      (s.cache.keys.filter fun key => (chain ++ js ":").isPrefixOf key)
    rw [ChainCacheRun.next, invalidateChain]
    dsimp only
    split
    · exact { hremoved with }
    · exact hremoved
  | clear =>
    rw [ChainCacheRun.next, clear]
    split
    · refine ⟨⟨h.one_le, .nil, rfl, .nil _, List.forall_mem_nil _⟩, ?_⟩
      exact h.zero
    · exact h

/-- The limit is at least one block, or none at all. -/
theorem exceededBy_limit (maxBlocks : JsNumber) :
    ((JsNumber.ofNat 1).max maxBlocks).exceededBy 1 = false := by
  rw [JsNumber.ofNat_eq (by norm_num : 1 < 2 ^ 53), JsNumber.max]
  split
  · rfl
  · split
    · next hlt =>
      cases maxBlocks with
      | nan => rfl
      | infinity negative =>
        cases negative with
        | false => rfl
        | true => cases hlt
      | negZero =>
        have hlt : ((1 : ℕ) : ℚ) < 0 := of_decide_eq_true hlt
        exact absurd hlt (by norm_num)
      | finite q _ =>
        have hq : ((1 : ℕ) : ℚ) < q := of_decide_eq_true hlt
        rw [Nat.cast_one] at hq
        exact decide_eq_false (not_lt.mpr hq.le)
    · simp [JsNumber.exceededBy]

theorem accounted_new (maxBlocks : Option JsNumber) : Accounted ⟨.new maxBlocks, []⟩ := by
  have hone := exceededBy_limit (maxBlocks.getD (.ofNat 512))
  exact ⟨⟨hone, .nil, rfl, .nil _, List.forall_mem_nil _⟩,
    JsNumber.not_exceededBy_mono zero_le_one hone⟩

/-- **Accounting.** While blocks that are set are written as JSON and no chain is invalidated whose
name and a colon begin the name of another cached chain, the cache is accounted for, and calls lose
only what they may. -/
theorem accounted_of_separable (maxBlocks : Option JsNumber) {s : ChainCacheRun}
    (hs : ((system maxBlocks).restrict Separable).Reachable s) :
    Accounted s ∧ ∀ call, s.Separable call → Loses s call := by
  have h : Accounted s := by
    refine hs.invariant ?_ ?_
    · rintro s rfl
      exact accounted_new maxBlocks
    · rintro s call t h ⟨hcall, rfl⟩
      exact h.next hcall
  exact ⟨h, fun call hcall => loses_of_separable h hcall⟩

/-! ## Samples -/

def sampleBlock : JsTree := .obj [(js "content", .str (js "hello"))]

/-- Two blocks are set in a cache of one block, and the second is looked up. -/
def sampleRun : ChainCacheRun :=
  next (next (next ⟨.new (some (.ofNat 1)), []⟩ (.set (js "journal") (.ofNat 1) sampleBlock))
    (.set (js "journal") (.ofNat 2) sampleBlock)) (.get (js "journal") (.ofNat 2))

theorem accounted_of_separable_sample : Accounted sampleRun := by
  have hset (s : ChainCacheRun) (index : JsNumber) :
      ((system (some (.ofNat 1))).restrict Separable).step s
        (.set (js "journal") index sampleBlock)
        (next s (.set (js "journal") index sampleBlock)) := ⟨⟨_, rfl⟩, rfl⟩
  have hget (s : ChainCacheRun) : ((system (some (.ofNat 1))).restrict Separable).step s
      (.get (js "journal") (.ofNat 2)) (next s (.get (js "journal") (.ofNat 2))) := ⟨trivial, rfl⟩
  exact (accounted_of_separable (some (.ofNat 1))
    (((TransitionSystem.Reachable.of_init rfl).next (hset _ _)).next (hset _ _) |>.next (hget _))).1

/-- A block of a chain whose name contains a colon. -/
def colonRun : ChainCacheRun :=
  next ⟨.new none, []⟩ (.set (js "a:b") (.ofNat 1) sampleBlock)

/-- A block that JSON cannot write. -/
def unwritableRun : ChainCacheRun :=
  next ⟨.new none, []⟩ (.set (js "journal") (.ofNat 1) .unserializable)

/-- The block of another chain is lost, and a block that cannot be written is cached without a
size. -/
theorem other_chain_lost :
    (system none).Reachable colonRun ∧ ¬colonRun.Loses (.invalidateChain (js "a")) ∧
      (system none).Reachable unwritableRun ∧ ¬unwritableRun.Accounted := by
  refine ⟨.next (.of_init rfl) rfl, fun h => ?_, .next (.of_init rfl) rfl, fun h => ?_⟩
  · have hset : Separable ⟨.new none, []⟩ (.set (js "a:b") (.ofNat 1) sampleBlock) := ⟨_, rfl⟩
    have hstored := (loses_of_separable (accounted_new none) hset).stored _ _ _ rfl
    have hkept := (h.invalidated (js "a") rfl (js "a:b") (.ofNat 1)).mpr ⟨hstored, by decide⟩
    rw [next, mem_keys_invalidateChain, prefix_makeKey_iff] at hkept
    exact hkept.2 (.inr ⟨js "b", by decide⟩)
  · have hperm := h.keys.length_eq
    cases hperm

end ChainCacheRun

end MemphisOS.Caches
