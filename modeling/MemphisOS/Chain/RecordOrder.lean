import MemphisOS.Chain.Records

/-!
# The place of the new file

What `appendBlock` leaves in a directory, and when the file of the new block is the last one that is
read.
-/

namespace MemphisOS.Chain

open Ecma Sequences

variable {host : ChainHost} {listing : Listing} {call : RecordCall} {blocks : List ChainBlock}
  {dir : Dir} {target : Text} {bytes : List UInt8} {new : IndexedFile}

/-! ## Listed files -/

/-- The entry as a block file with an index. -/
def indexedFile (e : Text × List UInt8) : Option IndexedFile :=
  if isBlockFile e.1 = true ∧ (fileIndex e.1).isFinite = true then some (e, fileIndex e.1) else none

theorem indexedFiles_eq_filterMap (entries : Dir) :
    indexedFiles entries = entries.filterMap indexedFile := by
  induction entries with
  | nil => rfl
  | cons e entries ih =>
    rw [indexedFiles, blockFiles] at ih ⊢
    by_cases hblock : isBlockFile e.1 = true
    · rw [List.filter_cons_of_pos (p := fun e : Text × List UInt8 => isBlockFile e.1) hblock,
        List.map_cons]
      by_cases hfinite : (fileIndex e.1).isFinite = true
      · rw [List.filter_cons_of_pos (p := fun f : IndexedFile => f.2.isFinite) hfinite, ih,
          List.filterMap_cons_some (by rw [indexedFile, if_pos ⟨hblock, hfinite⟩])]
      · rw [List.filter_cons_of_neg (p := fun f : IndexedFile => f.2.isFinite) hfinite, ih,
          List.filterMap_cons_none (by rw [indexedFile, if_neg fun h => hfinite h.2])]
    · rw [List.filter_cons_of_neg (p := fun e : Text × List UInt8 => isBlockFile e.1) hblock, ih,
        List.filterMap_cons_none (by rw [indexedFile, if_neg fun h => hblock h.1])]

/-- The order of names, for block files. -/
def Listing.FileLe (listing : Listing) (a b : IndexedFile) : Prop :=
  listing.le a.1.1 b.1.1 = true

instance (listing : Listing) : DecidableRel listing.FileLe :=
  fun _ _ => inferInstanceAs (Decidable (_ = true))

instance (listing : Listing) : Std.Total listing.NameLe := ⟨fun a b => listing.total a.1 b.1⟩

instance (listing : Listing) : IsTrans (Text × List UInt8) listing.NameLe :=
  ⟨fun a b c => listing.trans a.1 b.1 c.1⟩

instance (listing : Listing) : Std.Total listing.FileLe := ⟨fun a b => listing.total a.1.1 b.1.1⟩

instance (listing : Listing) : IsTrans IndexedFile listing.FileLe :=
  ⟨fun a b c => listing.trans a.1.1 b.1.1 c.1.1⟩

/-- The indexed files of a listing are in the order of their names. -/
theorem indexedFiles_readdir (dir : Dir) :
    indexedFiles (listing.readdir dir) = (indexedFiles dir).insertionSort listing.FileLe := by
  rw [indexedFiles_eq_filterMap, indexedFiles_eq_filterMap, Listing.readdir,
    insertionSort_filterMap (s := listing.FileLe)]
  intro a b a' b' ha hb
  have hfile {e : Text × List UInt8} {f : IndexedFile} (h : indexedFile e = some f) : f.1 = e := by
    unfold indexedFile at h
    split at h
    · cases h
      rfl
    · cases h
  rw [Listing.NameLe, Listing.FileLe, hfile ha, hfile hb]

/-- Indexed files are told apart by their names. -/
theorem eq_of_mem_indexedFiles (hnames : (fileNames dir).Nodup) {a b : IndexedFile}
    (ha : a ∈ indexedFiles dir) (hb : b ∈ indexedFiles dir) (h : a.1.1 = b.1.1) : a = b := by
  have hmem {f : IndexedFile} (hf : f ∈ indexedFiles dir) : f.1 ∈ dir ∧ f.2 = fileIndex f.1.1 := by
    obtain ⟨hf, -⟩ := List.mem_filter.mp hf
    obtain ⟨e, he, rfl⟩ := List.mem_map.mp hf
    exact ⟨List.mem_of_mem_filter he, rfl⟩
  obtain ⟨hmemA, hindexA⟩ := hmem ha
  obtain ⟨hmemB, hindexB⟩ := hmem hb
  have hentry : a.1 = b.1 := List.inj_on_of_nodup_map hnames hmemA hmemB h
  exact Prod.ext hentry (by rw [hindexA, hindexB, h])

/-! ## A new file -/

/-- A new file takes its place among the others. -/
theorem insertionSort_fileLe_concat (hnames : (fileNames dir).Nodup)
    (hnew : ∀ f ∈ indexedFiles dir, f.1.1 ≠ new.1.1) :
    ∃ front back, (indexedFiles dir).insertionSort listing.FileLe = front ++ back ∧
      (indexedFiles dir ++ [new]).insertionSort listing.FileLe = front ++ new :: back ∧
      (∀ f ∈ front, ¬listing.FileLe new f) ∧ ∀ f ∈ back, listing.FileLe new f := by
  set sorted := (indexedFiles dir).insertionSort listing.FileLe with hsorted
  have hpairwise : sorted.Pairwise listing.FileLe := List.pairwise_insertionSort _ _
  refine ⟨sorted.takeWhile fun f => ¬listing.FileLe new f,
    sorted.dropWhile fun f => ¬listing.FileLe new f, List.takeWhile_append_dropWhile.symm,
    ?_, ?_, ?_⟩
  · rw [← List.orderedInsert_eq_take_drop]
    refine List.Perm.eq_of_pairwise ?_ (List.pairwise_insertionSort _ _)
      (hpairwise.orderedInsert _ _) ?_
    · intro a b ha hb hab hba
      have hname := listing.antisymm _ _ hab hba
      have ha' : a ∈ indexedFiles dir ∨ a = new := by
        simpa using (List.mem_insertionSort listing.FileLe).mp ha
      have hb' : b = new ∨ b ∈ indexedFiles dir := by
        simpa [hsorted] using hb
      rcases ha' with ha' | rfl
      · rcases hb' with rfl | hb'
        · exact absurd hname (hnew a ha')
        · exact eq_of_mem_indexedFiles hnames ha' hb' hname
      · rcases hb' with rfl | hb'
        · rfl
        · exact absurd hname.symm (hnew b hb')
    · have hperm := (List.perm_insertionSort listing.FileLe (indexedFiles dir ++ [new])).trans
        List.perm_append_comm
      refine hperm.trans (List.Perm.trans ?_ (List.perm_orderedInsert _ _ _).symm)
      exact (List.perm_insertionSort _ _).symm.cons new
  · intro f hf
    simpa using List.all_eq_true.mp List.all_takeWhile f hf
  · intro f hf
    obtain ⟨first, rest, hrest⟩ := List.exists_cons_of_ne_nil (List.ne_nil_of_mem hf)
    have hfirst : listing.FileLe new first := by
      have hhead := List.head?_dropWhile_not (fun f => decide ¬listing.FileLe new f) sorted
      rw [hrest] at hhead
      simpa using hhead
    rw [hrest] at hf
    rcases List.mem_cons.mp hf with rfl | hf
    · exact hfirst
    · have hsuffix := hpairwise.sublist (List.dropWhile_sublist (l := sorted)
        fun f => decide ¬listing.FileLe new f)
      rw [hrest] at hsuffix
      exact IsTrans.trans _ _ _ hfirst ((List.pairwise_cons.mp hsuffix).1 f hf)

/-- The files that are read, in their order. -/
def readFiles (entries : Dir) : List IndexedFile := (indexedFiles entries).insertionSort IndexLe

/-- Other files have smaller indices, or the same one and an earlier name. -/
def Listing.GoesLast (listing : Listing) (dir : Dir) (new : IndexedFile) : Prop :=
  ∀ f ∈ indexedFiles dir, IndexLe f new ∧ (IndexLe new f → listing.FileLe f new)

theorem names_indexedFiles (dir : Dir) :
    ((indexedFiles dir).map (·.1.1)).Sublist (fileNames dir) := by
  have hmap : ((blockFiles dir).map fun e => (e, fileIndex e.1)).map (·.1.1) =
      (blockFiles dir).map Prod.fst := by
    rw [List.map_map]
    rfl
  have hblocks := ((List.filter_sublist (l := dir) (p := fun e => isBlockFile e.1)).map Prod.fst)
  refine List.Sublist.trans ?_ hblocks
  rw [← blockFiles, ← hmap]
  exact List.filter_sublist.map _

/-- **The last file.** A new file is read last exactly if it goes last among the others, which are
read as before. -/
theorem readFiles_concat_iff (hnames : (fileNames dir).Nodup)
    (hnew : ∀ f ∈ indexedFiles dir, f.1.1 ≠ new.1.1) {dir' : Dir}
    (hfiles : indexedFiles dir' = indexedFiles dir ++ [new]) :
    (listing.GoesLast dir new → readFiles (listing.readdir dir') =
        readFiles (listing.readdir dir) ++ [new]) ∧
      ∀ sorted, readFiles (listing.readdir dir') = sorted ++ [new] → listing.GoesLast dir new := by
  obtain ⟨front, back, hsorted, hplaced, hfront, hback⟩ :=
    @insertionSort_fileLe_concat listing dir new hnames hnew
  rw [readFiles, readFiles, indexedFiles_readdir, indexedFiles_readdir, hfiles, hplaced, hsorted]
  have hmem (f : IndexedFile) : f ∈ indexedFiles dir ↔ f ∈ front ∨ f ∈ back := by
    rw [← List.mem_insertionSort listing.FileLe, hsorted, List.mem_append]
  constructor
  · intro hlast
    refine insertionSort_append_cons (fun f hf => (hlast f ((hmem f).mpr (.inl hf))).1) ?_
    intro f hf hle
    have hf' := (hmem f).mpr (.inr hf)
    exact hnew f hf' (listing.antisymm _ _ ((hlast f hf').2 hle) (hback f hf))
  · intro sorted h f hf
    have hnodup : (front ++ new :: back).Nodup := by
      have hperm : (front ++ new :: back).Perm (indexedFiles dir ++ [new]) :=
        hplaced ▸ List.perm_insertionSort _ _
      refine hperm.nodup_iff.mpr (List.nodup_append.mpr ⟨?_, List.nodup_singleton _, ?_⟩)
      · exact (hnames.sublist (names_indexedFiles dir)).of_map
      · intro a ha b hb
        obtain rfl := List.mem_singleton.mp hb
        rintro rfl
        exact hnew a ha rfl
    obtain ⟨hbefore, hafter⟩ := of_insertionSort_eq_concat hnodup h
    rcases (hmem f).mp hf with hf | hf
    · exact ⟨hbefore f hf, fun _ => (listing.total _ _).resolve_right (hfront f hf)⟩
    · have hlt := hafter f hf
      exact ⟨(Std.Total.total new f).resolve_left hlt, fun hle => absurd hle hlt⟩

/-! ## What an append leaves -/

theorem read_congr {entries entries' : Dir} (h : indexedFiles entries = indexedFiles entries') :
    readAndValidateChainBlocks host entries = readAndValidateChainBlocks host entries' := by
  rw [readAndValidateChainBlocks, readAndValidateChainBlocks, h]

/-- An empty file is no block. -/
theorem readBlockFile_nil (file : Text) (block : ChainBlock) :
    readBlockFile host [] file ≠ .ok block := by
  intro h
  have hempty : readBlockFile host [] file = .error (integrityError file
      "invalid json (empty file)".toList) := rfl
  rw [hempty] at h
  cases h

theorem isBlockFile_tmpFilename (call : RecordCall) (blocks : List ChainBlock) :
    isBlockFile (call.tmpFilename blocks) = false := by
  obtain ⟨c, hdigit, hlast⟩ := integerText_getLast call.now
  refine isBlockFile_of_digit hdigit ?_
  rw [RecordCall.tmpFilename, List.getLast?_append, List.getLast?_cons, hlast]
  rfl

theorem indexedFiles_congr {entries entries' : Dir} (h : blockFiles entries = blockFiles entries') :
    indexedFiles entries = indexedFiles entries' := by
  rw [indexedFiles, indexedFiles, h]

theorem blockFiles_unlink_eq (dir : Dir) (name : Text) :
    blockFiles (unlink dir name) = unlink (blockFiles dir) name := by
  rw [blockFiles, blockFiles, unlink, unlink, List.filter_filter, List.filter_filter]
  simp only [Bool.and_comm]

theorem blockFiles_writeFile_target (hblock : isBlockFile target = true) (dir : Dir)
    (bytes : List UInt8) :
    blockFiles (writeFile dir target bytes) = unlink (blockFiles dir) target ++
      [(target, bytes)] := by
  have hself : [(target, bytes)].filter (fun e => isBlockFile e.1) = [(target, bytes)] := by
    simp [hblock]
  rw [writeFile, blockFiles, List.filter_append, hself, ← blockFiles, blockFiles_unlink_eq]

/-- A lock file changes nothing for a directory that was read: no file is pruned, and it is read as
before. -/
theorem read_locked (call : RecordCall)
    (hread : readAndValidateChainBlocks host (listing.readdir dir) = .ok blocks) :
    pruneTrailingEmptyBlockFiles call.statFails call.unlinkFails
        (listing.readdir (dir ++ [(appendLockFile, [])])) = [] ∧
      readAndValidateChainBlocks host (listing.readdir (dir ++ [(appendLockFile, [])])) =
        .ok blocks := by
  have hfiles : indexedFiles (listing.readdir (dir ++ [(appendLockFile, [])])) =
      indexedFiles (listing.readdir dir) := by
    rw [indexedFiles_readdir, indexedFiles_readdir,
      indexedFiles_congr (blockFiles_concat isBlockFile_appendLockFile dir [])]
  constructor
  · refine prunedNames_eq_nil fun f hf hempty => ?_
    rw [List.mem_insertionSort, hfiles] at hf
    obtain ⟨block, -, hblock⟩ := exists_of_read hread hf
    rw [hempty] at hblock
    exact readBlockFile_nil _ _ hblock
  · rw [read_congr hfiles, hread]

/-- `appendBlock` returns if it is not locked and both texts are written. -/
theorem exists_appendBlock (hlock : appendLockFile ∉ fileNames dir)
    (hread : readAndValidateChainBlocks host (listing.readdir dir) = .ok blocks)
    {canonical text : Text} (hcanonical : call.canonical host blocks = some (some canonical))
    (hpayload : call.payload blocks (ofText (host.sha256 canonical)) = some (some text)) :
    ∃ dir', appendBlock host listing call dir = some dir' := by
  obtain ⟨hpruned, hlocked⟩ := read_locked call hread
  simp only [appendBlock, if_neg hlock, hpruned, List.foldl_nil, hlocked, hcanonical, hpayload]
  exact ⟨_, rfl⟩

/-- What `appendBlock` leaves: the block files as they were, with that of the new block. -/
theorem appendBlock_eq_some {dir' : Dir}
    (hread : readAndValidateChainBlocks host (listing.readdir dir) = .ok blocks)
    (h : appendBlock host listing call dir = some dir') :
    ∃ canonical text, call.canonical host blocks = some (some canonical) ∧
      call.payload blocks (ofText (host.sha256 canonical)) = some (some text) ∧
      blockFiles dir' = unlink (blockFiles dir) (fileName (nextIndex blocks)) ++
        [(fileName (nextIndex blocks), encodeUtf8 text)] := by
  unfold appendBlock at h
  split at h
  · cases h
  · obtain ⟨hpruned, hlocked⟩ := read_locked call hread
    dsimp only at h
    rw [hpruned, List.foldl_nil, hlocked] at h
    dsimp only at h
    cases hcanonical : call.canonical host blocks with
    | none =>
      rw [hcanonical] at h
      cases h
    | some canonical =>
      cases canonical with
      | none =>
        rw [hcanonical] at h
        cases h
      | some canonical =>
        rw [hcanonical] at h
        dsimp only at h
        cases hpayload : call.payload blocks (ofText (host.sha256 canonical)) with
        | none =>
          rw [hpayload] at h
          cases h
        | some text =>
          cases text with
          | none =>
            rw [hpayload] at h
            cases h
          | some text =>
            rw [hpayload] at h
            refine ⟨canonical, text, rfl, hpayload, ?_⟩
            rw [← Option.some.inj h, blockFiles_unlink isBlockFile_appendLockFile, rename,
              lookup_writeFile]
            dsimp only
            rw [blockFiles_writeFile_target (isBlockFile_fileName _),
              blockFiles_unlink (isBlockFile_tmpFilename call blocks),
              blockFiles_writeFile (isBlockFile_tmpFilename call blocks),
              blockFiles_concat isBlockFile_appendLockFile]

end MemphisOS.Chain
