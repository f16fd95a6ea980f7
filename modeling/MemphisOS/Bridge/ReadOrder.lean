import MemphisOS.Bridge.Interchange
import MemphisOS.Ecma.Arrays

/-!
# The order in which blocks are read

The native adapter reads block files in the order of their names. That is the order of their
indices as long as all names have six digits, so a chain is read and continued in order exactly
up to a million blocks.
-/

namespace MemphisOS.Bridge

open Ecma MemphisCore

/-- The blocks kept by `slice(-Math.max(1, limit))`. -/
def getRecentBlocks (entries : Chain.Dir) (limit : JsNumber) : List Plain :=
  sliceFrom ((JsNumber.ofNat 1).max limit).neg (readChainBlocks entries)

/-- The block files of a directory are those of the blocks, each under its index. -/
structure Holds (fs : Chain.FileSystem) (dir : Chain.Dir) (vs : List Plain) : Prop where
  files : (Chain.blockFiles dir).Perm (numbered (vs.map payload))
  stored : StoredInOrder vs
  room : dir.length ≤ fs.capacity

/-- The blocks are read in the order of their indices, and the last one is continued. -/
structure ReadsInOrder (host : BridgeHost) (dir : Chain.Dir) (vs : List Plain) : Prop where
  read : readChainBlocks dir = vs
  /-- The recent blocks are the last ones, up to the head. -/
  recent : ∀ limit, getRecentBlocks dir limit <:+ vs ∧
    (getRecentBlocks dir limit).getLast? = vs.getLast?
  count : ∀ limit < 2 ^ 53,
    getRecentBlocks dir (.ofNat limit) = vs.drop (vs.length - max 1 limit)
  /-- The next block is linked to the head, and its file is a new one. -/
  linked : ∀ chain data timestamp,
    let block := nextBlock host chain data timestamp (readChainBlocks dir)
    block.index = .num (.ofNat vs.length) ∧
      (∀ head ∈ vs.getLast?, ∀ hash, property head "hash" = some (.str hash) →
        block.prevHash = .str hash) ∧
      blockFileName host (own (jsonImage block.value)) ∉ Chain.fileNames dir

variable {host : BridgeHost} {fs : Chain.FileSystem} {dir : Chain.Dir} {vs : List Plain}

/-! ## Block files -/

theorem blockFiles_blockFiles (dir : Chain.Dir) :
    Chain.blockFiles (Chain.blockFiles dir) = Chain.blockFiles dir := by
  rw [Chain.blockFiles, Chain.blockFiles, List.filter_filter]
  simp only [Bool.and_self]

/-- Only block files are read. -/
theorem readBlocks_blockFiles (dir : Chain.Dir) :
    readBlocks (Chain.blockFiles dir) = readBlocks dir := by
  rw [readBlocks, sortedFiles, blockFiles_blockFiles]
  rfl

theorem Holds.length_lt (h : Holds fs dir vs) : vs.length < 2 ^ 53 - 1 := by
  have hlength := h.files.length_eq
  rw [length_numbered, List.length_map] at hlength
  have hfilter : (Chain.blockFiles dir).length ≤ dir.length := List.length_filter_le _ _
  have hroom := h.room
  have hcapacity := fs.capacity_lt
  omega

theorem Holds.sorted (h : Holds fs dir vs) :
    (sortedFiles dir).Perm (numbered (vs.map payload)) := by
  have hperm := sortedFiles_perm h.files
  rwa [sortedFiles, blockFiles_blockFiles] at hperm

/-- The file of the next index does not exist. -/
theorem Holds.fresh (h : Holds fs dir vs) :
    Chain.fileName (.ofNat vs.length) ∉ Chain.fileNames dir := by
  have hlength := h.length_lt
  have hnew := fileName_not_mem h.files (by rw [List.length_map]; omega)
  rw [List.length_map] at hnew
  intro hmem
  obtain ⟨e, he, hname⟩ := List.mem_map.mp hmem
  refine hnew (List.mem_map.mpr ⟨e, List.mem_filter.mpr ⟨he, ?_⟩, hname⟩)
  rw [hname]
  exact Chain.isBlockFile_fileName _

/-! ## Up to a million blocks -/

theorem Holds.read (h : Holds fs dir vs) (hmillion : vs.length ≤ 10 ^ 6) :
    readChainBlocks dir = vs := by
  rw [readChainBlocks, ← readBlocks_blockFiles, readBlocks_eq h.files h.stored hmillion,
    Option.getD_some]

theorem prevHash_of_head {head : Plain} {hash : JsString} (hhead : head ∈ vs.getLast?)
    (hhash : property head "hash" = some (.str hash)) : lastHash vs = .str hash := by
  rw [lastHash, Option.mem_def.mp hhead, Option.bind_some, hhash]
  rfl

theorem getRecentBlocks_count (hread : readChainBlocks dir = vs) {limit : ℕ}
    (hlimit : limit < 2 ^ 53) :
    getRecentBlocks dir (.ofNat limit) = vs.drop (vs.length - max 1 limit) := by
  have hmax : (JsNumber.ofNat 1).max (.ofNat limit) = .ofNat (max 1 limit) := by
    rw [JsNumber.max, JsNumber.lt_ofNat (by norm_num) hlimit, if_neg]
    · rcases Nat.lt_or_ge 1 limit with hlt | hge
      · rw [decide_eq_true hlt, if_pos rfl, max_eq_right hlt.le]
      · rw [decide_eq_false (by omega), if_neg Bool.false_ne_true, max_eq_left hge]
    · rw [JsNumber.ofNat_eq (by norm_num : 1 < 2 ^ 53), JsNumber.ofNat_eq hlimit]
      simp
  rw [getRecentBlocks, hread, hmax, sliceFrom,
    relativeStart_neg_ofNat (by omega) (by omega)]

/-- Up to a million blocks the last block read is the head, and the next one is linked to it. -/
theorem Holds.readsInOrder (h : Holds fs dir vs) (hmillion : vs.length ≤ 10 ^ 6) :
    ReadsInOrder host dir vs := by
  have hread := h.read hmillion
  have hlength := h.length_lt
  refine ⟨hread, fun limit => ?_, fun limit hlimit => getRecentBlocks_count hread hlimit,
    fun chain data timestamp => ?_⟩
  · rw [getRecentBlocks, hread]
    exact sliceFrom_neg_max limit vs
  · rw [hread]
    have hindex : (nextBlock host chain data timestamp vs).index = .num (.ofNat vs.length) :=
      nextIndex_eq h.stored (by omega)
    refine ⟨hindex, fun head hhead hash hhash => prevHash_of_head hhead hhash, ?_⟩
    rw [blockFileName_eq (by omega) (stored_sent (by omega) hindex).index]
    exact h.fresh

/-! ## More blocks -/

/-- A position in the files that are read is the index of the block there. -/
theorem Holds.position (h : Holds fs dir vs) (hread : readBlocks dir = some vs) {i n : ℕ}
    (hn : n < vs.length)
    (hfile : (sortedFiles dir)[i]? = some (Chain.fileName (.ofNat n), payload vs[n])) : i = n := by
  have hlength := h.length_lt
  have hblock := getElem?_of_mapM hread i
  rw [hfile, Option.bind_some, (h.stored n hn).parse] at hblock
  obtain ⟨hi, heq⟩ := List.getElem?_eq_some_iff.mp hblock
  have hindex := (h.stored i hi).index
  rw [heq, (h.stored n hn).index, Option.some.injEq, Json.num.injEq,
    JsNumber.ofNat_inj (by omega) (by omega)] at hindex
  exact hindex.symm

/-- With more blocks the file with seven digits is read before the last one with six. -/
theorem Holds.not_read (h : Holds fs dir vs) (hmore : 10 ^ 6 < vs.length) :
    readChainBlocks dir ≠ vs := by
  intro hread
  have hblocks : readBlocks dir = some vs := by
    rw [readChainBlocks] at hread
    cases hsome : readBlocks dir with
    | some blocks => rw [← hread, hsome, Option.getD_some]
    | none =>
      rw [hsome, Option.getD_none] at hread
      rw [← hread] at hmore
      exact absurd hmore (by norm_num)
  have hmem (n : ℕ) (hn : n < vs.length) :
      ∃ i : ℕ, (sortedFiles dir)[i]? = some (Chain.fileName (.ofNat n), payload vs[n]) := by
    refine List.mem_iff_getElem?.mp (h.sorted.mem_iff.mpr (mem_numbered.mpr ⟨n, ?_, ?_⟩))
    · rwa [List.length_map]
    · rw [List.getElem_map]
  obtain ⟨i, hi⟩ := hmem 999999 (by omega)
  obtain ⟨j, hj⟩ := hmem (10 ^ 6) hmore
  obtain rfl := h.position hblocks _ hi
  obtain rfl := h.position hblocks _ hj
  have hsorted : (sortedFiles dir).Pairwise NameLe := List.pairwise_insertionSort NameLe _
  obtain ⟨hi', heqi⟩ := List.getElem?_eq_some_iff.mp hi
  obtain ⟨hj', heqj⟩ := List.getElem?_eq_some_iff.mp hj
  have hle := List.pairwise_iff_getElem.mp hsorted _ _ hi' hj' (by norm_num)
  rw [heqi, heqj] at hle
  have hge := nameLe_million (le_refl (10 ^ 6)) (payload vs[10 ^ 6]) (payload vs[999999])
  have hname := ofText_injective (List.le_antisymm hle hge)
  have hequal := (fileName_inj (by norm_num) (by norm_num)).mp hname
  exact absurd hequal (by norm_num)

/-- **The read order.** The blocks of a chain are read in the order of their indices, and the head
is continued, exactly up to a million blocks. -/
theorem readsInOrder_iff (host : BridgeHost) (h : Holds fs dir vs) :
    ReadsInOrder host dir vs ↔ vs.length ≤ 10 ^ 6 :=
  ⟨fun hreads => not_lt.mp fun hmore => h.not_read hmore hreads.read, h.readsInOrder⟩

/-- The block with a given index, in a chain whose records are all alike. -/
def numberedBlock (n : ℕ) : Plain :=
  own (jsonImage
    { nextBlock sampleHost (js "journal") sampleRecord (isoText 1000) [] with
      index := .num (.ofNat n) : NapiBlock }.value)

/-- A number of blocks, each in the file of its index. -/
def numberedBlocks (n : ℕ) : List Plain := (List.range n).map numberedBlock

theorem two_millions_lt : 2 * 10 ^ 6 < 2 ^ 53 - 1 := by norm_num

/-- A directory of up to two million files. -/
def millions : Chain.FileSystem := ⟨2 * 10 ^ 6, two_millions_lt⟩

theorem holds_numberedBlocks {n : ℕ} (hn : n ≤ 2 * 10 ^ 6) :
    Holds millions (numbered ((numberedBlocks n).map payload)) (numberedBlocks n) := by
  refine ⟨by rw [blockFiles_numbered], fun i hi => ?_, ?_⟩
  · rw [numberedBlocks, List.length_map, List.length_range] at hi
    simp only [numberedBlocks, List.getElem_map, List.getElem_range]
    exact stored_sent (by omega) rfl
  · rw [length_numbered, List.length_map, numberedBlocks, List.length_map, List.length_range]
    exact hn

/-- Two blocks are read in order. -/
theorem readsInOrder_two : ReadsInOrder sampleHost
    (numbered ((numberedBlocks 2).map payload)) (numberedBlocks 2) :=
  (readsInOrder_iff sampleHost (holds_numberedBlocks (by norm_num))).mpr (by
    rw [numberedBlocks, List.length_map, List.length_range]
    norm_num)

/-- **A fork.** With one block more than a million the last block read is not the head, and the next
block gets the index of the head again. -/
theorem head_overwritten :
    let dir := numbered ((numberedBlocks (10 ^ 6 + 1)).map payload)
    ¬ ReadsInOrder sampleHost dir (numberedBlocks (10 ^ 6 + 1)) ∧
      nextIndex sampleHost (readChainBlocks dir) = .num (.ofNat (10 ^ 6)) := by
  intro dir
  have hholds := holds_numberedBlocks (show 10 ^ 6 + 1 ≤ 2 * 10 ^ 6 by norm_num)
  have hlength : (numberedBlocks (10 ^ 6 + 1)).length = 10 ^ 6 + 1 := by
    rw [numberedBlocks, List.length_map, List.length_range]
  have hnative : NativeDir dir (numberedBlocks (10 ^ 6 + 1)) :=
    ⟨.refl _, hholds.stored, hlength.le⟩
  refine ⟨fun hreads => hholds.not_read (by rw [hlength]; norm_num) hreads.read, ?_⟩
  rw [hnative.nextIndex_eq, hlength]
  norm_num

end MemphisOS.Bridge
