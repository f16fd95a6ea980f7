import MemphisOS.Chain.Append

/-!
# No lost blocks

The blocks renamed into place form a chain at every moment. Whoever holds the lock is the
only appender that changes the directory, and what it read is still the chain when it
renames its block.
-/

namespace MemphisOS.Chain

open Ecma

variable {host : ChainHost} {fs : FileSystem} {calls : ℕ → AppendCall}

/-! ## Directories -/

section Files

variable {dir : Dir} {name : Text} {bytes : List UInt8}

theorem fileNames_unlink (dir : Dir) (name : Text) :
    fileNames (unlink dir name) = (fileNames dir).filter fun n => n ≠ name := by
  rw [fileNames, fileNames, unlink, List.filter_map]
  rfl

theorem fileNames_writeFile (dir : Dir) (name : Text) (bytes : List UInt8) :
    fileNames (writeFile dir name bytes) = fileNames (unlink dir name) ++ [name] := by
  simp [fileNames, writeFile]

theorem nodup_unlink (h : (fileNames dir).Nodup) (name : Text) :
    (fileNames (unlink dir name)).Nodup := by
  rw [fileNames_unlink]
  exact h.filter _

theorem nodup_concat (h : (fileNames dir).Nodup) (hname : name ∉ fileNames dir)
    (bytes : List UInt8) : (fileNames (dir ++ [(name, bytes)])).Nodup := by
  rw [fileNames, List.map_append]
  refine List.nodup_append.mpr ⟨h, by simp, ?_⟩
  rintro n hn _ hm rfl
  simp only [List.map_singleton, List.mem_singleton] at hm
  exact hname (hm ▸ hn)

theorem nodup_writeFile (h : (fileNames dir).Nodup) (name : Text) (bytes : List UInt8) :
    (fileNames (writeFile dir name bytes)).Nodup := by
  refine nodup_concat (nodup_unlink h name) ?_ bytes
  simp [fileNames_unlink]

theorem length_unlink_le (dir : Dir) (name : Text) : (unlink dir name).length ≤ dir.length :=
  List.length_filter_le _ _

/-- A file that is no block file may come and go. -/
theorem blockFiles_unlink (h : isBlockFile name = false) (dir : Dir) :
    blockFiles (unlink dir name) = blockFiles dir := by
  rw [blockFiles, blockFiles, unlink, List.filter_filter]
  refine List.filter_congr fun e _ => ?_
  by_cases he : e.1 = name
  · simp [he, h]
  · simp [he]

theorem blockFiles_concat (h : isBlockFile name = false) (dir : Dir) (bytes : List UInt8) :
    blockFiles (dir ++ [(name, bytes)]) = blockFiles dir := by
  simp [blockFiles, List.filter_append, h]

theorem blockFiles_writeFile (h : isBlockFile name = false) (dir : Dir) (bytes : List UInt8) :
    blockFiles (writeFile dir name bytes) = blockFiles dir := by
  rw [writeFile, blockFiles_concat h, blockFiles_unlink h]

theorem unlink_of_not_mem (h : name ∉ fileNames dir) : unlink dir name = dir := by
  rw [unlink, List.filter_eq_self]
  intro e he
  have hne : e.1 ≠ name := fun heq => h (heq ▸ List.mem_map_of_mem he)
  simpa using hne

/-- A new block file joins the others. -/
theorem blockFiles_writeFile_new (h : isBlockFile name = true)
    (hnew : name ∉ fileNames (blockFiles dir)) (bytes : List UInt8) :
    blockFiles (writeFile dir name bytes) = blockFiles dir ++ [(name, bytes)] := by
  have hcomm : blockFiles (unlink dir name) = unlink (blockFiles dir) name := by
    rw [blockFiles, blockFiles, unlink, unlink, List.filter_filter, List.filter_filter]
    simp only [Bool.and_comm]
  rw [writeFile, blockFiles, List.filter_append]
  have hself : [(name, bytes)].filter (fun e => isBlockFile e.1) = [(name, bytes)] := by simp [h]
  rw [hself, ← blockFiles, hcomm, unlink_of_not_mem hnew]

theorem lookup_writeFile (dir : Dir) (name : Text) (bytes : List UInt8) :
    (writeFile dir name bytes).lookup name = some bytes := by
  have hnone : (unlink dir name).lookup name = none := by
    rw [List.lookup_eq_none_iff]
    intro e he
    have hne : e.1 ≠ name := by simpa using (List.mem_filter.mp he).2
    simpa using Ne.symm hne
  rw [writeFile, List.lookup_append, hnone]
  simp

end Files

/-! ## Names -/

theorem isBlockFile_appendLockFile : isBlockFile appendLockFile = false := by decide

theorem integerText_getLast (n : ℤ) : ∃ c, c.isDigit = true ∧ (integerText n).getLast? = some c := by
  have hne : digits n.natAbs ≠ [] := digits_ne_nil _
  refine ⟨(digits n.natAbs).getLast hne, digits_isDigit (List.getLast_mem hne), ?_⟩
  rw [integerText, List.getLast?_append, List.getLast?_eq_getLast_of_ne_nil hne]
  rfl

theorem tmpName_getLast (call : AppendCall) (block : ChainBlock) (now : ℤ) :
    ∃ c, c.isDigit = true ∧ (call.tmpName block now).getLast? = some c := by
  obtain ⟨c, hdigit, hlast⟩ := integerText_getLast now
  refine ⟨c, hdigit, ?_⟩
  rw [AppendCall.tmpName, List.getLast?_append, List.getLast?_cons, hlast]
  rfl

/-- A file whose name ends in a digit is no block file. -/
theorem isBlockFile_of_digit {name : Text} {c : Char} (hdigit : c.isDigit = true)
    (hlast : name.getLast? = some c) : isBlockFile name = false := by
  rw [Bool.eq_false_iff]
  intro hblock
  obtain ⟨stem, hstem⟩ := List.isSuffixOf_iff_suffix.mp hblock
  rw [← hstem, List.getLast?_append] at hlast
  obtain rfl : 'n' = c := Option.some.inj hlast
  exact absurd hdigit (by decide)

theorem isBlockFile_tmpName (call : AppendCall) (block : ChainBlock) (now : ℤ) :
    isBlockFile (call.tmpName block now) = false := by
  obtain ⟨c, hdigit, hlast⟩ := tmpName_getLast call block now
  exact isBlockFile_of_digit hdigit hlast

theorem tmpName_ne_appendLockFile (call : AppendCall) (block : ChainBlock) (now : ℤ) :
    call.tmpName block now ≠ appendLockFile := by
  obtain ⟨c, hdigit, hlast⟩ := tmpName_getLast call block now
  intro heq
  rw [heq] at hlast
  obtain rfl : 'k' = c := Option.some.inj hlast
  exact absurd hdigit (by decide)

/-- The file of the next block is new. -/
theorem fileName_new {blocks : List ChainBlock} {block : ChainBlock} (h : Chained host blocks)
    (hnext : Continues host blocks block) (hlength : blocks.length < 2 ^ 53 - 1) :
    fileName block.index ∉ fileNames (storedFiles blocks) := by
  intro hmem
  rw [fileNames, storedFiles, List.map_map, List.mem_map] at hmem
  obtain ⟨block', hblock', hname⟩ := hmem
  obtain ⟨i, hi, hindex⟩ := h.index_of_mem hblock'
  have hfile := congrArg fileIndex hname
  simp only [Function.comp_apply] at hfile
  rw [hindex, hnext.index, fileIndex_fileName (by omega), fileIndex_fileName (by omega),
    JsNumber.ofNat_inj (by omega) (by omega)] at hfile
  omega

/-! ## The invariant -/

variable (host fs)

/-- The block files are those of a chain. -/
structure DirInv (dir : Dir) (blocks : List ChainBlock) : Prop where
  names : (fileNames dir).Nodup
  room : dir.length ≤ fs.capacity
  files : (blockFiles dir).Perm (storedFiles blocks)
  chained : Chained host blocks

/-- The block an appender is about to store. -/
structure Prepared (call : AppendCall) (blocks : List ChainBlock) (block : ChainBlock)
    (tmpFilename : Text) : Prop where
  continues : Continues host blocks block
  chain : block.chain = call.chainName
  data : block.data = call.data
  tmp : ∃ now, tmpFilename = call.tmpName block now

/-- What an appender that holds the lock knows of the chain. -/
def StageInv (call : AppendCall) (dir : Dir) (blocks : List ChainBlock) : Stage → Prop
  | .locked | .pruned | .failed _ => True
  | .read read => read = blocks.map ChainBlock.image
  | .computed block tmpFilename => Prepared host call blocks block tmpFilename
  | .written block tmpFilename => Prepared host call blocks block tmpFilename ∧
      dir.lookup tmpFilename = some block.payload
  | .renamed _ => True

/-- The result an appender that has stored its block will return or has returned. -/
def Phase.result? : Phase → Option AppendBlockResult
  | .holding _ (.renamed result) => some result
  | .returned result => some result
  | _ => none

/-- The appender may have stored its block. -/
def Phase.Done : Phase → Prop
  | .holding _ (.renamed _) | .returned _ | .crashed => True
  | _ => False

/-- The blocks stored so far, each with its appender. -/
structure ChainInv (calls : ℕ → AppendCall) (s : ChainState) (stored : List (ℕ × ChainBlock)) :
    Prop where
  dir : DirInv host fs s.dir (stored.map Prod.snd)
  owners : (stored.map Prod.fst).Nodup
  done : ∀ e ∈ stored, (s.phase e.1).Done
  built : ∀ e ∈ stored, e.2.chain = (calls e.1).chainName ∧ e.2.data = (calls e.1).data
  results : ∀ p result, (s.phase p).result? = some result →
    ∃ block, (p, block) ∈ stored ∧ block.result = result
  exclusive : ∀ p q, (s.phase p).Holds → (s.phase q).Holds → p = q
  locked : ∀ p, (s.phase p).Holds → appendLockFile ∈ fileNames s.dir
  stages : ∀ p attempt stage, s.phase p = .holding attempt stage →
    StageInv host (calls p) s.dir (stored.map Prod.snd) stage

/-! ## One step of an appender -/

/-- A step that stores no block. -/
structure Keeps (call : AppendCall) (blocks : List ChainBlock) (dir : Dir) (phase : Phase)
    (dir' : Dir) (phase' : Phase) : Prop where
  dirInv : DirInv host fs dir' blocks
  done : phase.Done → phase'.Done
  results : ∀ result, phase'.result? = some result → phase.result? = some result
  locked : phase'.Holds → appendLockFile ∈ fileNames dir'
  acquired : phase'.Holds → phase.Holds ∨ appendLockFile ∉ fileNames dir
  frame : dir' = dir ∨ phase.Holds ∨ appendLockFile ∉ fileNames dir
  stages : ∀ attempt stage, phase' = .holding attempt stage →
    StageInv host call dir' blocks stage

/-- A step that stores a block. -/
structure Stores (call : AppendCall) (blocks : List ChainBlock) (dir : Dir) (phase : Phase)
    (dir' : Dir) (phase' : Phase) (block : ChainBlock) : Prop where
  dirInv : DirInv host fs dir' (blocks ++ [block])
  holds : phase.Holds
  pending : ¬phase.Done
  stored : ∃ attempt, phase' = .holding attempt (.renamed block.result)
  built : block.chain = call.chainName ∧ block.data = call.data
  locked : appendLockFile ∈ fileNames dir'

variable {host fs} {call : AppendCall} {blocks : List ChainBlock} {dir dir' : Dir}
  {phase phase' : Phase}

theorem DirInv.length_lt (h : DirInv host fs dir blocks) : blocks.length < 2 ^ 53 - 1 := by
  have hfiles : (blockFiles dir).length = blocks.length := by
    rw [h.files.length_eq, storedFiles, List.length_map]
  have hle : (blockFiles dir).length ≤ dir.length := List.length_filter_le _ _
  have hroom := h.room
  have hcapacity := fs.capacity_lt
  omega

theorem DirInv.unlink (h : DirInv host fs dir blocks) {name : Text}
    (hname : isBlockFile name = false) : DirInv host fs (unlink dir name) blocks where
  names := nodup_unlink h.names name
  room := (length_unlink_le dir name).trans h.room
  files := by
    rw [blockFiles_unlink hname]
    exact h.files
  chained := h.chained

theorem DirInv.writeFile (h : DirInv host fs dir blocks) {name : Text}
    (hname : isBlockFile name = false) {bytes : List UInt8}
    (hroom : (writeFile dir name bytes).length ≤ fs.capacity) :
    DirInv host fs (writeFile dir name bytes) blocks where
  names := nodup_writeFile h.names name bytes
  room := hroom
  files := by
    rw [blockFiles_writeFile hname]
    exact h.files
  chained := h.chained

/-- The lock file stays when another file goes. -/
theorem mem_unlink {name other : Text} (h : other ∈ fileNames dir) (hne : other ≠ name) :
    other ∈ fileNames (unlink dir name) := by
  rw [fileNames_unlink, List.mem_filter]
  exact ⟨h, by simpa using hne⟩

theorem mem_writeFile {name other : Text} (h : other ∈ fileNames dir) (hne : other ≠ name)
    (bytes : List UInt8) : other ∈ fileNames (writeFile dir name bytes) := by
  rw [fileNames_writeFile]
  exact List.mem_append_left _ (mem_unlink h hne)

/-- The block computed from what was read continues the chain. -/
theorem prepared_block (hchained : Chained host blocks) (hlength : blocks.length < 2 ^ 53 - 1)
    (call : AppendCall) (timestamp : Text) (now : ℤ) :
    Prepared host call blocks (call.block host (blocks.map ChainBlock.image) timestamp)
      (call.tmpName (call.block host (blocks.map ChainBlock.image) timestamp) now) := by
  have hindex : nextIndex (blocks.map ChainBlock.image) = .ofNat (blocks.length + 1) := by
    rcases List.eq_nil_or_concat' blocks with rfl | ⟨init, previous, rfl⟩
    · rfl
    · have hlast : (init ++ [previous])[init.length].index = .ofNat (init.length + 1) :=
        hchained.index_getElem (by simp)
      rw [List.length_append, List.length_singleton] at hlength ⊢
      rw [nextIndex, List.map_append, List.map_singleton, List.getLast?_concat]
      have hprevious : previous.image.index = .ofNat (init.length + 1) := by simpa using hlast
      simp only [hprevious]
      exact JsNumber.add_one (by omega)
  have hlink : ((blocks.map ChainBlock.image).getLast?.map ChainBlock.hash) =
      blocks.getLast?.map ChainBlock.hash := by
    rw [List.getLast?_map, Option.map_map]
    rfl
  exact
    { continues :=
        { index := hindex
          prevHash := congrArg (fun hash => hash.getD genesisPrevHash) hlink
          data := call.ordered
          hash := rfl }
      chain := rfl
      data := rfl
      tmp := ⟨now, rfl⟩ }

/-- Renaming the temporary file stores the block. -/
theorem DirInv.rename (h : DirInv host fs dir blocks) {block : ChainBlock} {tmpFilename : Text}
    (hprepared : Prepared host call blocks block tmpFilename)
    (htmp : dir.lookup tmpFilename = some block.payload) :
    DirInv host fs (Chain.rename dir tmpFilename (fileName block.index)) (blocks ++ [block]) := by
  obtain ⟨now, htmpName⟩ := hprepared.tmp
  have hnotBlock : isBlockFile tmpFilename = false := by
    rw [htmpName]
    exact isBlockFile_tmpName call block now
  have hnew : fileName block.index ∉ fileNames (blockFiles (Chain.unlink dir tmpFilename)) := by
    rw [blockFiles_unlink hnotBlock]
    intro hmem
    exact fileName_new h.chained hprepared.continues h.length_lt
      ((h.files.map Prod.fst).mem_iff.mp hmem)
  have hmem : (tmpFilename, block.payload) ∈ dir := by
    obtain ⟨before, after, hdir, -⟩ := List.lookup_eq_some_iff.mp htmp
    simp [hdir]
  have hshorter : (Chain.unlink dir tmpFilename).length < dir.length :=
    List.length_filter_lt_length_iff_exists.mpr ⟨_, hmem, by simp⟩
  simp only [Chain.rename, htmp]
  refine ⟨nodup_writeFile (nodup_unlink h.names _) _ _, ?_, ?_, h.chained.concat hprepared.continues⟩
  · have hle := length_unlink_le (Chain.unlink dir tmpFilename) (fileName block.index)
    have hroom := h.room
    rw [Chain.writeFile, List.length_append, List.length_singleton]
    omega
  · rw [blockFiles_writeFile_new (isBlockFile_fileName _) hnew, blockFiles_unlink hnotBlock,
      storedFiles, List.map_append]
    exact h.files.append_right _

/-- A step that leaves the directory alone. -/
theorem Keeps.of_same_dir (hdir : DirInv host fs dir blocks) (hpending : ¬phase.Done)
    (hresult : phase'.result? = none) (hholds : phase'.Holds → phase.Holds)
    (hlocked : phase.Holds → appendLockFile ∈ fileNames dir)
    (hstages : ∀ attempt stage, phase' = .holding attempt stage →
      StageInv host call dir blocks stage) :
    Keeps host fs call blocks dir phase dir phase' where
  dirInv := hdir
  done hdone := absurd hdone hpending
  results result hsome := by
    rw [hresult] at hsome
    cases hsome
  locked h := hlocked (hholds h)
  acquired h := .inl (hholds h)
  frame := .inl rfl
  stages := hstages

/-- A step of the appender that holds the lock. -/
theorem Keeps.of_holds (hdir : DirInv host fs dir' blocks) (hpending : ¬phase.Done)
    (hresult : phase'.result? = none) (hholds : phase.Holds)
    (hlocked : phase'.Holds → appendLockFile ∈ fileNames dir')
    (hstages : ∀ attempt stage, phase' = .holding attempt stage →
      StageInv host call dir' blocks stage) :
    Keeps host fs call blocks dir phase dir' phase' where
  dirInv := hdir
  done hdone := absurd hdone hpending
  results result hsome := by
    rw [hresult] at hsome
    cases hsome
  locked := hlocked
  acquired _ := .inl hholds
  frame := .inr (.inl hholds)
  stages := hstages

theorem DirInv.unlock (h : DirInv host fs dir blocks) (unlinked : Bool) :
    DirInv host fs (unlock unlinked dir) blocks := by
  rw [Chain.unlock]
  split
  · exact h.unlink isBlockFile_appendLockFile
  · exact h

/-- **What a step does.** A step of an appender keeps the chain or stores the block the
appender has prepared. -/
theorem AppenderStep.effect (h : AppenderStep host fs call dir phase dir' phase')
    (hdir : DirInv host fs dir blocks) (hlocked : phase.Holds → appendLockFile ∈ fileNames dir)
    (hstages : ∀ attempt stage, phase = .holding attempt stage →
      StageInv host call dir blocks stage) :
    Keeps host fs call blocks dir phase dir' phase' ∨
      ∃ block, Stores host fs call blocks dir phase dir' phase' block := by
  have hlength := hdir.length_lt
  have hlisted : ∀ listing : Dir, listing.Perm dir →
      (blockFiles listing).Perm (storedFiles blocks) :=
    fun listing hlisting => (hlisting.filter _).trans hdir.files
  cases h with
  | @acquire attempt hattempt hfree hroom =>
    refine .inl ?_
    have hnew : DirInv host fs (dir ++ [(appendLockFile, [])]) blocks :=
      { names := nodup_concat hdir.names hfree []
        room := by
          rw [List.length_append, List.length_singleton]
          exact hroom
        files := by
          rw [blockFiles_concat isBlockFile_appendLockFile]
          exact hdir.files
        chained := hdir.chained }
    exact
      { dirInv := hnew
        done := False.elim
        results := by
          intro result hsome
          cases hsome
        locked := fun _ => by simp [fileNames]
        acquired := fun _ => .inr hfree
        frame := .inr (.inr hfree)
        stages := by
          rintro _ _ ⟨⟩
          trivial }
  | busy _ _ => exact .inl (.of_same_dir hdir id rfl id hlocked (by rintro _ _ ⟨⟩))
  | timeout _ => exact .inl (.of_same_dir hdir id rfl False.elim hlocked (by rintro _ _ ⟨⟩))
  | openFails => exact .inl (.of_same_dir hdir id rfl False.elim hlocked (by rintro _ _ ⟨⟩))
  | prune statFails unlinkFails hlisting =>
    rw [prune_of_perm hdir.chained hlength (hlisted _ hlisting)]
    refine .inl (.of_same_dir hdir id rfl id hlocked ?_)
    rintro _ _ ⟨⟩
    trivial
  | read hlisting hread =>
    refine .inl (.of_same_dir hdir id rfl id hlocked ?_)
    rintro _ _ ⟨⟩
    rw [readAndValidate_of_perm hdir.chained hlength (hlisted _ hlisting)] at hread
    exact (Except.ok.inj hread).symm
  | @compute _ read date now =>
    refine .inl (.of_same_dir hdir id rfl id hlocked ?_)
    rintro _ _ ⟨⟩
    have hread : read = blocks.map ChainBlock.image := hstages _ _ rfl
    rw [hread]
    exact prepared_block hdir.chained hlength call (isoText date) now
  | @write _ block tmpFilename hroom =>
    have hprepared : Prepared host call blocks block tmpFilename := hstages _ _ rfl
    obtain ⟨now, rfl⟩ := hprepared.tmp
    refine .inl (.of_holds (hdir.writeFile (isBlockFile_tmpName call block now) hroom) id rfl
      trivial (fun _ => mem_writeFile (hlocked trivial)
        (tmpName_ne_appendLockFile call block now).symm _) ?_)
    rintro _ _ ⟨⟩
    exact ⟨hprepared, lookup_writeFile _ _ _⟩
  | @writeFails _ block tmpFilename bytes eexist hroom =>
    have hprepared : Prepared host call blocks block tmpFilename := hstages _ _ rfl
    obtain ⟨now, rfl⟩ := hprepared.tmp
    refine .inl (.of_holds (hdir.writeFile (isBlockFile_tmpName call block now) hroom) id rfl
      trivial (fun _ => mem_writeFile (hlocked trivial)
        (tmpName_ne_appendLockFile call block now).symm _) ?_)
    rintro _ _ ⟨⟩
    trivial
  | createFails eexist =>
    refine .inl (.of_same_dir hdir id rfl id hlocked ?_)
    rintro _ _ ⟨⟩
    trivial
  | @rename attempt block tmpFilename hmem =>
    obtain ⟨hprepared, htmp⟩ : Prepared host call blocks block tmpFilename ∧
        dir.lookup tmpFilename = some block.payload := hstages _ _ rfl
    refine .inr ⟨block, hdir.rename hprepared htmp, trivial, id, ⟨attempt, rfl⟩,
      ⟨hprepared.chain, hprepared.data⟩, ?_⟩
    obtain ⟨now, rfl⟩ := hprepared.tmp
    simp only [Chain.rename, htmp]
    refine mem_writeFile (mem_unlink (hlocked trivial)
      (tmpName_ne_appendLockFile call block now).symm) ?_ _
    intro heq
    have hlock := isBlockFile_appendLockFile
    rw [heq, isBlockFile_fileName] at hlock
    cases hlock
  | @renameFails _ block tmpFilename unlinked eexist =>
    obtain ⟨hprepared, -⟩ : Prepared host call blocks block tmpFilename ∧
        dir.lookup tmpFilename = some block.payload := hstages _ _ rfl
    obtain ⟨now, rfl⟩ := hprepared.tmp
    have hkeep : DirInv host fs (if unlinked then unlink dir (call.tmpName block now) else dir)
        blocks ∧ appendLockFile ∈
          fileNames (if unlinked then unlink dir (call.tmpName block now) else dir) := by
      split
      · exact ⟨hdir.unlink (isBlockFile_tmpName call block now),
          mem_unlink (hlocked trivial) (tmpName_ne_appendLockFile call block now).symm⟩
      · exact ⟨hdir, hlocked trivial⟩
    refine .inl (.of_holds hkeep.1 id rfl trivial (fun _ => hkeep.2) ?_)
    rintro _ _ ⟨⟩
    trivial
  | @fail attempt stage eexist hreads =>
    have hpending : ¬Phase.Done (.holding attempt stage) := by
      cases stage with
      | locked => exact id
      | pruned => exact id
      | read => exact id
      | _ => exact hreads.elim
    refine .inl (.of_same_dir hdir hpending rfl id hlocked ?_)
    rintro _ _ ⟨⟩
    trivial
  | unlock unlinked =>
    exact .inl
      { dirInv := hdir.unlock unlinked
        done := fun _ => trivial
        results := fun _ hsome => hsome
        locked := False.elim
        acquired := False.elim
        frame := .inr (.inl trivial)
        stages := by rintro _ _ ⟨⟩ }
  | @rethrow attempt eexist unlinked =>
    cases eexist with
    | true => exact .inl (.of_holds (hdir.unlock unlinked) id rfl trivial False.elim
        (by rintro _ _ ⟨⟩))
    | false => exact .inl (.of_holds (hdir.unlock unlinked) id rfl trivial False.elim
        (by rintro _ _ ⟨⟩))
  | crashWaiting => exact .inl (.of_same_dir hdir id rfl False.elim hlocked (by rintro _ _ ⟨⟩))
  | crashHolding =>
    exact .inl
      { dirInv := hdir
        done := fun _ => trivial
        results := by
          intro result hsome
          cases hsome
        locked := False.elim
        acquired := False.elim
        frame := .inl rfl
        stages := by rintro _ _ ⟨⟩ }

/-! ## Every step -/

variable {calls : ℕ → AppendCall} {s t : ChainState} {stored : List (ℕ × ChainBlock)} {p : ℕ}

/-- Nobody else holds the lock when an appender holds or takes it. -/
theorem ChainInv.sole (hs : ChainInv host fs calls s stored)
    (h : (s.phase p).Holds ∨ appendLockFile ∉ fileNames s.dir) :
    ∀ q ≠ p, ¬(s.phase q).Holds := by
  intro q hq hholds
  rcases h with h | h
  · exact hq (hs.exclusive q p hholds h)
  · exact h (hs.locked q hholds)

/-- A step that stores nothing keeps the invariant. -/
theorem ChainInv.keeps (hs : ChainInv host fs calls s stored)
    (h : Keeps host fs (calls p) (stored.map Prod.snd) s.dir (s.phase p) t.dir (t.phase p))
    (hframe : ∀ q ≠ p, t.phase q = s.phase q) : ChainInv host fs calls t stored where
  dir := h.dirInv
  owners := hs.owners
  done e he := by
    by_cases hp : e.1 = p
    · rw [hp]
      exact h.done (hp ▸ hs.done e he)
    · rw [hframe _ hp]
      exact hs.done e he
  built := hs.built
  results q result hresult := by
    by_cases hq : q = p
    · subst q
      exact hs.results p result (h.results result hresult)
    · rw [hframe q hq] at hresult
      exact hs.results q result hresult
  exclusive q r hq hr := by
    by_cases hqp : q = p
    · by_cases hrp : r = p
      · rw [hqp, hrp]
      · subst q
        rw [hframe r hrp] at hr
        exact absurd hr (hs.sole (h.acquired hq) r hrp)
    · rw [hframe q hqp] at hq
      by_cases hrp : r = p
      · subst r
        exact absurd hq (hs.sole (h.acquired hr) q hqp)
      · rw [hframe r hrp] at hr
        exact hs.exclusive q r hq hr
  locked q hq := by
    by_cases hqp : q = p
    · subst q
      exact h.locked hq
    · rw [hframe q hqp] at hq
      rcases h.frame with hdir | hholds
      · rw [hdir]
        exact hs.locked q hq
      · exact absurd hq (hs.sole hholds q hqp)
  stages q attempt stage hq := by
    by_cases hqp : q = p
    · subst q
      exact h.stages attempt stage hq
    · rw [hframe q hqp] at hq
      rcases h.frame with hdir | hholds
      · rw [hdir]
        exact hs.stages q attempt stage hq
      · have hqholds : (s.phase q).Holds := by
          rw [hq]
          trivial
        exact absurd hqholds (hs.sole hholds q hqp)

/-- A step that stores a block keeps the invariant. -/
theorem ChainInv.stores (hs : ChainInv host fs calls s stored) {block : ChainBlock}
    (h : Stores host fs (calls p) (stored.map Prod.snd) s.dir (s.phase p) t.dir (t.phase p) block)
    (hframe : ∀ q ≠ p, t.phase q = s.phase q) :
    ChainInv host fs calls t (stored ++ [(p, block)]) := by
  obtain ⟨attempt, hphase⟩ := h.stored
  have hsole := hs.sole (.inl h.holds)
  have hother : ∀ q ≠ p, ¬(t.phase q).Holds := by
    intro q hq
    rw [hframe q hq]
    exact hsole q hq
  have hnew : p ∉ stored.map Prod.fst := by
    intro hmem
    obtain ⟨e, he, rfl⟩ := List.mem_map.mp hmem
    exact h.pending (hs.done e he)
  exact
    { dir := by
        rw [List.map_append]
        exact h.dirInv
      owners := by
        rw [List.map_append]
        refine List.nodup_append.mpr ⟨hs.owners, by simp, ?_⟩
        rintro q hq _ hp rfl
        simp only [List.map_singleton, List.mem_singleton] at hp
        exact hnew (hp ▸ hq)
      done := by
        intro e he
        by_cases hp : e.1 = p
        · rw [hp, hphase]
          trivial
        · rw [hframe _ hp]
          rcases List.mem_append.mp he with he | he
          · exact hs.done e he
          · exact absurd (congrArg Prod.fst (List.mem_singleton.mp he)) hp
      built := by
        intro e he
        rcases List.mem_append.mp he with he | he
        · exact hs.built e he
        · rw [List.mem_singleton.mp he]
          exact h.built
      results := by
        intro q result hresult
        by_cases hq : q = p
        · subst q
          rw [hphase] at hresult
          exact ⟨block, by simp, Option.some.inj hresult⟩
        · rw [hframe q hq] at hresult
          obtain ⟨block', hmem, hblock'⟩ := hs.results q result hresult
          exact ⟨block', List.mem_append_left _ hmem, hblock'⟩
      exclusive := by
        intro q r hq hr
        have hqp : q = p := by_contra fun hqp => hother q hqp hq
        have hrp : r = p := by_contra fun hrp => hother r hrp hr
        rw [hqp, hrp]
      locked := fun _ _ => h.locked
      stages := by
        intro q attempt' stage hq
        by_cases hqp : q = p
        · subst q
          rw [hphase] at hq
          cases hq
          trivial
        · have hqholds : (t.phase q).Holds := by
            rw [hq]
            trivial
          exact absurd hqholds (hother q hqp) }

/-- A step keeps the blocks stored and may store one more. -/
theorem ChainInv.step (hs : ChainInv host fs calls s stored)
    (hstep : (appendSystem host fs calls).step s p t) :
    ∃ stored', stored <+: stored' ∧ ChainInv host fs calls t stored' := by
  obtain ⟨hstep, hframe⟩ := hstep
  rcases hstep.effect hs.dir (hs.locked p) (hs.stages p) with h | ⟨block, h⟩
  · exact ⟨stored, List.prefix_refl _, hs.keeps h hframe⟩
  · exact ⟨stored ++ [(p, block)], List.prefix_append _ _, hs.stores h hframe⟩

theorem ChainInv.init (h : (appendSystem host fs calls).init s) :
    ChainInv host fs calls s [] := by
  obtain ⟨hdir, hphase⟩ := h
  exact
    { dir :=
        { names := by simp [hdir, fileNames]
          room := by simp [hdir]
          files := by simp [hdir, blockFiles, storedFiles]
          chained := .nil }
      owners := List.nodup_nil
      done := by simp
      built := by simp
      results := by
        intro p result hresult
        rw [hphase p] at hresult
        cases hresult
      exclusive := by
        intro p q hp
        rw [hphase p] at hp
        exact hp.elim
      locked := by
        intro p hp
        rw [hphase p] at hp
        exact hp.elim
      stages := by
        intro p attempt stage hp
        rw [hphase p] at hp
        cases hp }

/-- The invariant holds in every reachable state. -/
theorem exists_chainInv (hs : (appendSystem host fs calls).Reachable s) :
    ∃ stored, ChainInv host fs calls s stored := by
  refine hs.invariant (I := fun s => ∃ stored, ChainInv host fs calls s stored)
    (fun s h => ⟨[], .init h⟩) ?_
  rintro s p t ⟨stored, hinv⟩ hstep
  obtain ⟨stored', -, hinv'⟩ := hinv.step hstep
  exact ⟨stored', hinv'⟩

/-! ## The stored appends -/

variable (host calls)

/-- The blocks, each with its appender, are the appends the directory stores. -/
structure StoredAppends (s : ChainState) (stored : List (ℕ × ChainBlock)) : Prop where
  /-- Every block has one file, and there are no other block files. -/
  files : (blockFiles s.dir).Perm (storedFiles (stored.map Prod.snd))
  names : (fileNames s.dir).Nodup
  indices : stored.map (·.2.index) = (List.range stored.length).map fun i => .ofNat (i + 1)
  /-- No append is stored twice. -/
  owners : (stored.map Prod.fst).Nodup
  built : ∀ e ∈ stored, e.2.chain = (calls e.1).chainName ∧ e.2.data = (calls e.1).data
  returned : ∀ p result, s.phase p = .returned result →
    ∃ block, (p, block) ∈ stored ∧ block.result = result
  /-- The chain is read back and accepted in whatever order the files are listed. -/
  read : ∀ listing : Dir, listing.Perm s.dir →
    readAndValidateChainBlocks host listing = .ok (stored.map fun e => e.2.image) ∧
      verifyChainIntegrity host listing = .ok stored.length

variable {host calls}

theorem ChainInv.storedAppends (hs : ChainInv host fs calls s stored) :
    StoredAppends host calls s stored where
  files := hs.dir.files
  names := hs.dir.names
  indices := by
    have hindices := hs.dir.chained.indices
    rwa [List.map_map, List.length_map] at hindices
  owners := hs.owners
  built := hs.built
  returned p result hp := hs.results p result (by rw [hp]; rfl)
  read listing hlisting := by
    have hread := readAndValidate_of_perm hs.dir.chained hs.dir.length_lt
      ((hlisting.filter _).trans hs.dir.files)
    rw [List.map_map] at hread
    refine ⟨hread, ?_⟩
    rw [verifyChainIntegrity, hread]
    simp [Except.map]

/-- **No lost blocks.** In every reachable state the block files are those of the stored
appends: each append that has returned is stored once, under the index and the hash it has
returned, and the chain is accepted. Later states store the same blocks and perhaps more, in
the same files. -/
theorem appends_never_lost (hs : (appendSystem host fs calls).Reachable s) :
    ∃ stored, StoredAppends host calls s stored ∧
      ∀ t, (appendSystem host fs calls).Leads s t →
        ∃ stored', stored <+: stored' ∧ StoredAppends host calls t stored' ∧
          ∀ e ∈ blockFiles s.dir, e ∈ blockFiles t.dir := by
  obtain ⟨stored, hinv⟩ := exists_chainInv hs
  refine ⟨stored, hinv.storedAppends, fun t hlater => ?_⟩
  obtain ⟨stored', hpre, hinv'⟩ := hlater.induct
    (P := fun t => ∃ stored', stored <+: stored' ∧ ChainInv host fs calls t stored')
    ⟨stored, List.prefix_refl _, hinv⟩ (by
      rintro t p u ⟨stored', hpre, hinv'⟩ hstep
      obtain ⟨stored'', hpre', hinv''⟩ := hinv'.step hstep
      exact ⟨stored'', hpre.trans hpre', hinv''⟩)
  refine ⟨stored', hpre, hinv'.storedAppends, fun e he => ?_⟩
  have hsubset : storedFiles (stored.map Prod.snd) ⊆ storedFiles (stored'.map Prod.snd) :=
    List.map_subset _ (List.map_subset _ hpre.subset)
  exact hinv'.dir.files.mem_iff.mpr (hsubset (hinv.dir.files.mem_iff.mp he))


/-! ## An append alone -/

/-- The appender `0` is in the given phase and the others have not started. -/
def aloneAt (phase : Phase) : ℕ → Phase := fun p => if p = 0 then phase else .waiting 0

theorem reachable_alone
    (hs : (appendSystem host fs calls).Reachable ⟨dir, aloneAt phase⟩)
    (h : AppenderStep host fs (calls 0) dir phase dir' phase') :
    (appendSystem host fs calls).Reachable ⟨dir', aloneAt phase'⟩ := by
  have hstep : (appendSystem host fs calls).step ⟨dir, aloneAt phase⟩ 0 ⟨dir', aloneAt phase'⟩ :=
    ⟨h, fun q hq => by simp [aloneAt, hq]⟩
  exact hs.next hstep

/-- An appender that runs alone in an empty directory stores its block and returns. -/
theorem reachable_of_append (hcapacity : 2 ≤ fs.capacity) (date now : ℤ) :
    (appendSystem host fs calls).Reachable
      ⟨storedFiles [(calls 0).block host [] (isoText date)],
        aloneAt (.returned ((calls 0).block host [] (isoText date)).result)⟩ := by
  set block := (calls 0).block host [] (isoText date)
  set tmpFilename := (calls 0).tmpName block now
  have htmp : tmpFilename ≠ appendLockFile := tmpName_ne_appendLockFile _ _ _
  have hchained : Chained host [] := .nil
  have hfile : fileName block.index ≠ appendLockFile := by
    intro heq
    have hblock := isBlockFile_fileName block.index
    rw [heq, isBlockFile_appendLockFile] at hblock
    cases hblock
  have hempty : (blockFiles [(appendLockFile, [])]).Perm (storedFiles []) := .refl _
  have hstart : (appendSystem host fs calls).Reachable ⟨[], aloneAt (.waiting 0)⟩ :=
    .of_init ⟨rfl, fun p => by simp [aloneAt]⟩
  have hlocked := reachable_alone hstart
    (.acquire (by decide) (by simp [fileNames]) (Nat.lt_of_lt_of_le (by decide) hcapacity))
  have hpruned := reachable_alone hlocked (.prune (fun _ => false) (fun _ => false) (.refl _))
  rw [List.nil_append, prune_of_perm hchained (by norm_num) hempty, List.foldl_nil] at hpruned
  have hread := reachable_alone hpruned
    (.read (.refl _) (readAndValidate_of_perm hchained (by norm_num) hempty))
  have hcomputed := reachable_alone hread (.compute date now)
  have hroom : (writeFile [(appendLockFile, [])] tmpFilename block.payload).length ≤
      fs.capacity := by
    simpa [writeFile, unlink, htmp.symm] using hcapacity
  have hwritten := reachable_alone hcomputed (.write hroom)
  have hrenamed := reachable_alone hwritten (.rename (by simp [fileNames, writeFile]))
  have hreturned := reachable_alone hrenamed (.unlock true)
  have hfiles : unlock true (rename (writeFile [(appendLockFile, [])] tmpFilename block.payload)
      tmpFilename (fileName block.index)) = storedFiles [block] := by
    have hne : (tmpFilename == appendLockFile) = false := beq_false_of_ne htmp
    simp [unlock, rename, writeFile, unlink, storedFiles, htmp.symm, hfile, hfile.symm,
      List.lookup_cons, hne]
  rw [← hfiles]
  exact hreturned

/-- The text that is hashed for the block of `sampleCall`. -/
def sampleText : Text :=
  ("\x7b\"chain\":\"journal\",\"data\":\x7b\"content\":\"hello\",\"type\":\"journal\"\x7d,\"index\":1," ++
    "\"prev_hash\":\"0000000000000000000000000000000000000000000000000000000000000000\"," ++
    "\"timestamp\":\"1970-01-01T00:00:01.000Z\"\x7d").toList

/-- The digest of `sampleText`, and something else for every other text. -/
def sampleSha256 (t : Text) : Text :=
  if t = sampleText then "6c557b817ef6acedddd906c0df81367a7a7d7baf305619a931b76ffab0be1ecf".toList
  else 'x' :: t

/-- A host whose locale compares code units. -/
def sampleHost : ChainHost where
  toLowerCase := id
  sha256 := sampleSha256
  localeLe a b := a ≤ b
  parseMessage _ := "Unexpected end of JSON input".toList

def sampleCall : AppendCall where
  chainName := js "journal"
  data := [(js "type", .str (js "journal")), (js "content", .str (js "hello"))]
  ordered := by
    rw [ownOrdered_obj]
    refine ⟨⟨by decide, by decide⟩, ?_⟩
    simp only [List.mem_cons, List.not_mem_nil, or_false]
    rintro m (rfl | rfl)
    · trivial
    · trivial
  pid := 7

example : stableStringify sampleHost
    (sampleCall.block sampleHost [] (isoText 1000)).toBlockContent.value = sampleText := by
  decide +kernel

def sampleFileSystem : FileSystem := ⟨1000, by norm_num⟩

/-- The state after the first append has returned. -/
theorem appends_never_lost_sample : ∃ stored,
    StoredAppends sampleHost (fun _ => sampleCall)
      ⟨storedFiles [sampleCall.block sampleHost [] (isoText 1000)],
        aloneAt (.returned (sampleCall.block sampleHost [] (isoText 1000)).result)⟩ stored := by
  have hreachable : (appendSystem sampleHost sampleFileSystem fun _ => sampleCall).Reachable
      ⟨storedFiles [sampleCall.block sampleHost [] (isoText 1000)],
        aloneAt (.returned (sampleCall.block sampleHost [] (isoText 1000)).result)⟩ :=
    reachable_of_append (by decide) 1000 1000
  obtain ⟨stored, hstored, -⟩ := appends_never_lost hreachable
  exact ⟨stored, hstored⟩

end MemphisOS.Chain
