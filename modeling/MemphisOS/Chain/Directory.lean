import MemphisOS.Chain.Blocks
import MemphisOS.Ecma.Exceptions
import MemphisOS.Ecma.NumeralLaws

/-!
# The chain directory

The files of a chain, the loop that reads and validates them, and the chains that
appending builds, which the loop accepts whatever order the directory lists them in.
-/

namespace MemphisOS.Chain

open Ecma

/-- The files of a directory, with their contents. -/
abbrev Dir := List (Text × List UInt8)

def blockSuffix : Text := ".json".toList

/-- `file.endsWith('.json')`. -/
def isBlockFile (name : Text) : Bool := blockSuffix.isSuffixOf name

/-- `text.replace(pattern, '')`: the first occurrence is left out. -/
def removeFirst (pattern : Text) : Text → Text
  | [] => []
  | c :: t =>
    if pattern.isPrefixOf (c :: t) then (c :: t).drop pattern.length
    else c :: removeFirst pattern t

/-- The index in a file name. -/
def fileIndex (name : Text) : JsNumber := parseInt10 (removeFirst blockSuffix name)

/-- `text.padStart(width, '0')`. -/
def padZeros (width : ℕ) (t : Text) : Text := List.replicate (width - t.length) '0' ++ t

/-- The name of the file of a block. -/
def fileName (index : JsNumber) : Text := padZeros 6 (numberText index) ++ blockSuffix

/-- A block file with its index. -/
abbrev IndexedFile := (Text × List UInt8) × JsNumber

/-- The entries whose names end in `.json`. -/
def blockFiles (entries : Dir) : Dir := entries.filter fun e => isBlockFile e.1

def indexedFiles (entries : Dir) : List IndexedFile :=
  ((blockFiles entries).map fun e => (e, fileIndex e.1)).filter (·.2.isFinite)

/-- The comparison `a.index - b.index <= 0` of finite indices. -/
def IndexLe (a b : IndexedFile) : Prop := a.2.toRat?.getD 0 ≤ b.2.toRat?.getD 0

instance : DecidableRel IndexLe := fun _ _ => inferInstanceAs (Decidable (_ ≤ _))

instance : Std.Total IndexLe := ⟨fun _ _ => le_total _ _⟩

instance : IsTrans IndexedFile IndexLe := ⟨fun _ _ _ => le_trans⟩

/-- The comparison `b.index - a.index <= 0`. -/
def IndexGe (a b : IndexedFile) : Prop := IndexLe b a

instance : DecidableRel IndexGe := fun _ _ => inferInstanceAs (Decidable (IndexLe _ _))

variable (host : ChainHost)

/-- One round of the validating loop. -/
def checkBlock (blocks : List ChainBlock) (loaded : Text × ChainBlock) :
    Except Text (List ChainBlock) := do
  let (file, current) := loaded
  validateBlockHash host current file
  match blocks.getLast? with
  | none =>
    if ¬current.hasIndex (.ofNat 1) then
      .error (integrityError file "missing genesis block".toList)
    else if current.prevHash ≠ [] ∧ current.prevHash ≠ genesisPrevHash then
      .error (integrityError file "prev_hash mismatch".toList)
    else .ok (blocks ++ [current])
  | some previous =>
    if ¬current.hasIndex (previous.index.add (.ofNat 1)) then
      .error (integrityError file "non-sequential index".toList)
    else if current.prevHash ≠ previous.hash then
      .error (integrityError file "prev_hash mismatch".toList)
    else .ok (blocks ++ [current])

/-- The argument is what `readdir` lists. -/
def readAndValidateChainBlocks (entries : Dir) : Except Text (List ChainBlock) := do
  let loaded ← ((indexedFiles entries).insertionSort IndexLe).mapM fun f => do
    return (f.1.1, ← readBlockFile host f.1.2 f.1.1)
  loaded.foldlM (checkBlock host) []

/-- The block count `verifyChainIntegrity` finds in one chain. -/
def verifyChainIntegrity (entries : Dir) : Except Text ℕ :=
  (readAndValidateChainBlocks host entries).map List.length

/-- The loop of `pruneTrailingEmptyBlockFiles`; the names it unlinks. -/
def prunedNames (statFails unlinkFails : Text → Bool) : List IndexedFile → List Text
  | [] => []
  | f :: files =>
    if statFails f.1.1 then prunedNames statFails unlinkFails files
    else if f.1.2 ≠ [] then []
    else if unlinkFails f.1.1 then prunedNames statFails unlinkFails files
    else f.1.1 :: prunedNames statFails unlinkFails files

/-- The files `pruneTrailingEmptyBlockFiles` unlinks. -/
def pruneTrailingEmptyBlockFiles (statFails unlinkFails : Text → Bool) (entries : Dir) :
    List Text :=
  prunedNames statFails unlinkFails ((indexedFiles entries).insertionSort IndexGe)

/-! ## Names -/

theorem removeFirst_append {pattern t : Text} (hpattern : pattern ≠ [])
    (h : ∀ c ∈ t, pattern.head? ≠ some c) : removeFirst pattern (t ++ pattern) = t := by
  induction t with
  | nil =>
    cases pattern with
    | nil => exact absurd rfl hpattern
    | cons c pattern => simp [removeFirst]
  | cons c t ih =>
    have hhead := h c (by simp)
    have hpre : pattern.isPrefixOf (c :: (t ++ pattern)) = false := by
      cases pattern with
      | nil => exact absurd rfl hpattern
      | cons d pattern =>
        have hne : (d == c) = false := by simpa using hhead
        simp [List.isPrefixOf, hne]
    rw [List.cons_append, removeFirst, hpre, if_neg Bool.false_ne_true,
      ih fun d hd => h d (by simp [hd])]

/-- The index of a file is read back from its name. -/
theorem fileIndex_fileName {n : ℕ} (h : n < 2 ^ 53) : fileIndex (fileName (.ofNat n)) = .ofNat n := by
  have hdigits : ∀ c ∈ padZeros 6 (digits n), blockSuffix.head? ≠ some c := by
    intro c hc
    have hc' : c.isDigit = true := by
      rcases List.mem_append.mp hc with hc | hc
      · rw [List.eq_of_mem_replicate hc]
        decide
      · exact digits_isDigit hc
    rintro hdot
    obtain rfl : '.' = c := Option.some.inj hdot
    exact absurd hc' (by decide)
  rw [fileIndex, fileName, numberText_ofNat h, removeFirst_append (by decide) hdigits]
  exact parseInt10_padded _ _

theorem isBlockFile_fileName (index : JsNumber) : isBlockFile (fileName index) = true := by
  rw [isBlockFile, List.isSuffixOf_iff_suffix]
  exact List.suffix_append _ _

/-! ## Chains -/

/-- The files of a list of blocks. -/
def storedFiles (blocks : List ChainBlock) : Dir :=
  blocks.map fun block => (fileName block.index, block.payload)

/-- The block continues the blocks as `appendBlock` builds it. -/
structure Continues (blocks : List ChainBlock) (block : ChainBlock) : Prop where
  index : block.index = .ofNat (blocks.length + 1)
  prevHash : block.prevHash = (blocks.getLast?.map ChainBlock.hash).getD genesisPrevHash
  data : OwnOrdered (.obj block.data)
  hash : block.hash = ofText (hashBlock host block.toBlockContent)

/-- The blocks are a chain as `appendBlock` builds it. -/
inductive Chained : List ChainBlock → Prop
  | nil : Chained []
  | concat {blocks : List ChainBlock} {block : ChainBlock} :
      Chained blocks → Continues host blocks block → Chained (blocks ++ [block])
theorem blockFiles_storedFiles (blocks : List ChainBlock) :
    blockFiles (storedFiles blocks) = storedFiles blocks := by
  rw [blockFiles, List.filter_eq_self]
  intro e he
  obtain ⟨block, -, rfl⟩ := List.mem_map.mp he
  exact isBlockFile_fileName _

/-! ## Accepting a chain -/

variable {host} {blocks : List ChainBlock}

/-- The blocks of a chain are numbered from one. -/
theorem Chained.indices (h : Chained host blocks) :
    blocks.map (·.index) = (List.range blocks.length).map fun i => .ofNat (i + 1) := by
  induction h with
  | nil => rfl
  | concat _ hnext ih =>
    rw [List.map_append, ih, List.length_append, List.length_singleton, List.range_succ,
      List.map_append, List.map_singleton, List.map_singleton, hnext.index]

theorem Chained.index_getElem (h : Chained host blocks) {i : ℕ} (hi : i < blocks.length) :
    blocks[i].index = .ofNat (i + 1) := by
  have hget := congrArg (fun l => l[i]?) h.indices
  simpa [hi] using hget

theorem Chained.index_of_mem (h : Chained host blocks) {block : ChainBlock} (hmem : block ∈ blocks) :
    ∃ i < blocks.length, block.index = .ofNat (i + 1) := by
  obtain ⟨i, hi, rfl⟩ := List.getElem_of_mem hmem
  exact ⟨i, hi, h.index_getElem hi⟩

theorem Chained.ownOrdered_of_mem (h : Chained host blocks) {block : ChainBlock}
    (hmem : block ∈ blocks) : OwnOrdered (.obj block.data) := by
  induction h with
  | nil => cases hmem
  | concat _ hnext ih =>
    rcases List.mem_append.mp hmem with hmem | hmem
    · exact ih hmem
    · rw [List.mem_singleton.mp hmem]
      exact hnext.data

/-- A block file with the index of its block. -/
def ChainBlock.file (block : ChainBlock) : IndexedFile :=
  ((fileName block.index, block.payload), block.index)

/-- The files of a chain are listed, each with the index of its block. -/
theorem indexedFiles_perm (h : Chained host blocks) (hlength : blocks.length < 2 ^ 53 - 1)
    {entries : Dir} (hentries : (blockFiles entries).Perm (storedFiles blocks)) :
    (indexedFiles entries).Perm (blocks.map ChainBlock.file) := by
  have hfile : ∀ block ∈ blocks,
      ((fileName block.index, block.payload), fileIndex (fileName block.index)) = block.file := by
    intro block hblock
    obtain ⟨i, hi, hindex⟩ := h.index_of_mem hblock
    rw [ChainBlock.file, hindex, fileIndex_fileName (by omega)]
  have hfinite : ∀ block ∈ blocks, block.file.2.isFinite = true := by
    intro block hblock
    obtain ⟨i, hi, hindex⟩ := h.index_of_mem hblock
    rw [ChainBlock.file, hindex]
    exact JsNumber.isFinite_ofNat (by omega)
  have hmap := (hentries.map fun e => (e, fileIndex e.1)).filter fun f => f.2.isFinite
  have hstored : (storedFiles blocks).map (fun e => (e, fileIndex e.1)) =
      blocks.map ChainBlock.file := by
    rw [storedFiles, List.map_map]
    exact List.map_congr_left hfile
  have hfilter : (blocks.map ChainBlock.file).filter (fun f => f.2.isFinite) =
      blocks.map ChainBlock.file := by
    rw [List.filter_eq_self, List.forall_mem_map]
    exact hfinite
  rw [hstored, hfilter] at hmap
  exact hmap

theorem indexLe_file (h : Chained host blocks) (hlength : blocks.length < 2 ^ 53 - 1) {i j : ℕ}
    (hi : i < blocks.length) (hj : j < blocks.length) :
    IndexLe blocks[i].file blocks[j].file ↔ i ≤ j := by
  rw [IndexLe, ChainBlock.file, ChainBlock.file, h.index_getElem hi, h.index_getElem hj,
    JsNumber.ofNat_eq (by omega), JsNumber.ofNat_eq (by omega)]
  simp [JsNumber.toRat?]

/-- Sorting the files of a chain gives them in the order of the blocks. -/
theorem sorted_indexedFiles (h : Chained host blocks) (hlength : blocks.length < 2 ^ 53 - 1)
    {entries : Dir} (hentries : (blockFiles entries).Perm (storedFiles blocks)) :
    (indexedFiles entries).insertionSort IndexLe = blocks.map ChainBlock.file := by
  have hperm : ((indexedFiles entries).insertionSort IndexLe).Perm (blocks.map ChainBlock.file) :=
    (List.perm_insertionSort _ _).trans (indexedFiles_perm h hlength hentries)
  have hsorted : (blocks.map ChainBlock.file).Pairwise IndexLe := by
    rw [List.pairwise_map, List.pairwise_iff_getElem]
    intro i j hi hj hij
    exact (indexLe_file h hlength hi hj).mpr hij.le
  refine List.Perm.eq_of_pairwise ?_ (List.pairwise_insertionSort IndexLe _) hsorted hperm
  intro a b ha hb hab hba
  obtain ⟨block, hblock, rfl⟩ := List.mem_map.mp (hperm.mem_iff.mp ha)
  obtain ⟨block', hblock', rfl⟩ := List.mem_map.mp hb
  obtain ⟨i, hi, rfl⟩ := List.getElem_of_mem hblock
  obtain ⟨j, hj, rfl⟩ := List.getElem_of_mem hblock'
  obtain rfl : i = j := le_antisymm ((indexLe_file h hlength hi hj).mp hab)
    ((indexLe_file h hlength hj hi).mp hba)
  rfl

/-- One round of the loop accepts the block that continues a chain. -/
theorem checkBlock_image {block : ChainBlock} (h : Chained host blocks)
    (hnext : Continues host blocks block) (hlength : blocks.length < 2 ^ 53 - 1) (file : Text) :
    checkBlock host (blocks.map ChainBlock.image) (file, block.image) =
      .ok (blocks.map ChainBlock.image ++ [block.image]) := by
  have hhash : ofText (hashBlock host block.image.toBlockContent) = block.hash := by
    rw [hashBlock_image (by omega) hnext.index, hnext.hash]
  have hindex : ∀ n < 2 ^ 53, block.image.hasIndex (.ofNat n) = true ↔ blocks.length + 1 = n := by
    intro n hn
    rw [BlockContent.hasIndex, JsNumber.strictEq_ofNat hn, ChainBlock.image, hnext.index,
      JsNumber.dropZeroSign_ofNat (by omega), JsNumber.ofNat_inj (by omega) hn]
  have hgenesis : blocks = [] → block.image.prevHash = genesisPrevHash := by
    rintro rfl
    exact hnext.prevHash
  have hvalid : validateBlockHash host block.image file = .ok () := by
    rw [validateBlockHash, if_neg fun hbad => hbad.1 hhash.symm, if_neg]
    rintro ⟨hone, -, hne⟩
    rw [hindex 1 (by norm_num)] at hone
    exact hne (hgenesis (List.length_eq_zero_iff.mp (by omega)))
  rw [checkBlock, hvalid, List.getLast?_map]
  rcases List.eq_nil_or_concat' blocks with rfl | ⟨init, previous, rfl⟩
  · have hone : block.image.hasIndex (.ofNat 1) = true := (hindex 1 (by norm_num)).mpr rfl
    simp only [List.getLast?_nil, Option.map_none, hone, hgenesis rfl]
    rfl
  · have hlast : (init ++ [previous])[init.length].index = .ofNat (init.length + 1) :=
      h.index_getElem (by simp)
    have hprevious : previous.image.index = .ofNat (init.length + 1) := by simpa using hlast
    have hsucc : block.image.hasIndex (previous.image.index.add (.ofNat 1)) = true := by
      rw [List.length_append, List.length_singleton] at hlength hindex
      rw [hprevious, JsNumber.add_one (by omega)]
      exact (hindex _ (by omega)).mpr rfl
    have hlink : block.image.prevHash = previous.image.hash := by simpa using hnext.prevHash
    simp only [List.getLast?_concat, Option.map_some, hsucc, hlink, not_true_eq_false, if_false,
      ne_eq]
    rfl

/-- The loop accepts a chain. -/
theorem foldlM_checkBlock (h : Chained host blocks) (hlength : blocks.length < 2 ^ 53 - 1) :
    (blocks.map fun block => (fileName block.index, block.image)).foldlM (checkBlock host) [] =
      .ok (blocks.map ChainBlock.image) := by
  induction h with
  | nil => rfl
  | @concat blocks block h hnext ih =>
    rw [List.length_append, List.length_singleton] at hlength
    rw [List.map_append, List.foldlM_append, ih (by omega), List.map_append]
    have hstep := checkBlock_image h hnext (by omega) (fileName block.index)
    have hlast : [(fileName block.index, block.image)].foldlM (checkBlock host)
        (blocks.map ChainBlock.image) = .ok (blocks.map ChainBlock.image ++ [block.image]) := by
      rw [List.foldlM_cons, hstep]
      rfl
    exact hlast

/-- **Acceptance.** A directory whose block files are those of a chain is read back as the
chain, in whatever order its files are listed. -/
theorem readAndValidate_of_perm (h : Chained host blocks) (hlength : blocks.length < 2 ^ 53 - 1)
    {entries : Dir} (hentries : (blockFiles entries).Perm (storedFiles blocks)) :
    readAndValidateChainBlocks host entries = .ok (blocks.map ChainBlock.image) := by
  rw [readAndValidateChainBlocks, sorted_indexedFiles h hlength hentries,
    mapM_map_ok (g := fun block => (fileName block.index, block.image))]
  · exact foldlM_checkBlock h hlength
  · intro block hblock
    obtain ⟨i, hi, hindex⟩ := h.index_of_mem hblock
    have hread : readBlockFile host block.payload (fileName block.index) = .ok block.image :=
      readBlockFile_payload (by omega) hindex (h.ownOrdered_of_mem hblock) _
    rw [ChainBlock.file, hread]
    rfl

theorem payload_ne_nil (block : ChainBlock) : block.payload ≠ [] := by
  intro hnil
  exact jsonText_obj_ne_nil _ _ (encodeUtf8_inj.mp hnil)

theorem prunedNames_eq_nil {statFails unlinkFails : Text → Bool} {files : List IndexedFile}
    (h : ∀ f ∈ files, f.1.2 ≠ []) : prunedNames statFails unlinkFails files = [] := by
  induction files with
  | nil => rfl
  | cons f files ih =>
    rw [prunedNames, if_pos (h f (by simp)), ih fun g hg => h g (by simp [hg])]
    split <;> rfl

/-- No file of a chain is pruned. -/
theorem prune_of_perm (h : Chained host blocks) (hlength : blocks.length < 2 ^ 53 - 1)
    {entries : Dir} (hentries : (blockFiles entries).Perm (storedFiles blocks))
    (statFails unlinkFails : Text → Bool) :
    pruneTrailingEmptyBlockFiles statFails unlinkFails entries = [] := by
  refine prunedNames_eq_nil fun f hf => ?_
  have hmem := (List.mem_insertionSort IndexGe).mp hf
  obtain ⟨block, hblock, rfl⟩ :=
    List.mem_map.mp ((indexedFiles_perm h hlength hentries).mem_iff.mp hmem)
  exact payload_ne_nil block

end MemphisOS.Chain
