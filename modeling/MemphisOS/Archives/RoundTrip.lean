import MemphisOS.Archives.Extraction
import MemphisOS.Archives.Inclusion
import MemphisOS.Ecma.Documents

/-!
# The fallback archive, there and back

The collector lists a directory before what is in it, so extraction finds the directory of every
entry, and makes every entry as it was.
-/

namespace MemphisOS.Archives

open Ecma Files
open Backup (isLock excludedNames)
open Bridge (property stringProperty optionalMember)
open FileSystem (IsFileName)

/-! ## Creating the archive -/

def kindText : EntryKind → String
  | .dir => "dir"
  | .file => "file"

def entryValue (entry : BackupArchiveEntry) : Plain :=
  .obj ([(js "path", .str entry.path), (js "kind", .str (js (kindText entry.kind)))] ++
    optionalMember "contentBase64" (entry.contentBase64.map .str))

def archiveValue (entries : List BackupArchiveEntry) : Plain :=
  .obj [(js "format", .str (js "memphis-backup-v1")), (js "entries", .arr (entries.map entryValue))]

def createFallbackArchive (host : ArchiveHost) (tree : DirectoryTree) : List UInt8 :=
  host.gzip (encodeUtf8 (jsonText []
    (archiveValue (collectFallbackArchiveEntries (js ".") tree.entries))))

variable {host : ArchiveHost} {entry : BackupArchiveEntry} {entries : List BackupArchiveEntry}

theorem isDocument_entryValue (entry : BackupArchiveEntry) : IsDocument (entryValue entry) := by
  obtain ⟨path, kind, content⟩ := entry
  cases content with
  | none =>
    exact @isDocument_of_names ["path", "kind"] _ rfl (by decide) (by decide)
      (by simp [optionalMember])
  | some content =>
    exact @isDocument_of_names ["path", "kind", "contentBase64"] _ rfl (by decide) (by decide)
      (by simp [optionalMember])

theorem isDocument_archiveValue (entries : List BackupArchiveEntry) :
    IsDocument (archiveValue entries) := by
  refine @isDocument_of_names ["format", "entries"] _ rfl (by decide) (by decide) ?_
  rw [List.forall_mem_cons, List.forall_mem_singleton]
  refine ⟨isDocument_str _, isDocument_arr.mpr fun v hv => ?_⟩
  obtain ⟨entry, -, rfl⟩ := List.mem_map.mp hv
  exact isDocument_entryValue entry

/-- **The entries are read back.** -/
theorem readFallbackArchive_createFallbackArchive (host : ArchiveHost) (tree : DirectoryTree) :
    readFallbackArchive host (createFallbackArchive host tree) =
      .ok ((collectFallbackArchiveEntries (js ".") tree.entries).map entryValue) := by
  have hparse := (isDocument_archiveValue
    (collectFallbackArchiveEntries (js ".") tree.entries)).parseJson (List.forall_mem_nil _)
  rw [readFallbackArchive, createFallbackArchive, host.gunzip_gzip, Option.bind_some,
    decodeUtf8_encodeUtf8, hparse]
  simp [archiveValue, stringProperty, property, List.lookup_cons]

theorem path_entryValue (entry : BackupArchiveEntry) :
    stringProperty (entryValue entry) "path" = some entry.path := by
  simp [entryValue, stringProperty, property]

theorem kind_entryValue (entry : BackupArchiveEntry) :
    stringProperty (entryValue entry) "kind" = some (js (kindText entry.kind)) := by
  simp [entryValue, stringProperty, property, List.lookup_cons]

theorem contentOf_entryValue {bytes : List UInt8}
    (h : entry.contentBase64 = some (ofText (toBase64 bytes))) :
    contentOf host (entryValue entry) = some bytes := by
  have hcontent : property (entryValue entry) "contentBase64" =
      some (.str (ofText (toBase64 bytes))) := by
    simp [entryValue, property, optionalMember, h, List.lookup_cons]
  rw [contentOf, hcontent]
  exact congrArg some (fromBase64_toBase64 bytes)

/-! ## Items -/

/-- What the archive keeps of an entry. -/
def Tree.item : Tree → Option Item
  | .file bytes => some (.file bytes)
  | .dir _ => some .dir
  | .other _ => none

def toItem (x : List JsString × Tree) : Option (List JsString × Item) := x.2.item.map (x.1, ·)

def itemEntry (path : List JsString) : Item → BackupArchiveEntry
  | .dir => ⟨relativeText path, .dir, none⟩
  | .file bytes => ⟨relativeText path, .file, some (ofText (toBase64 bytes))⟩

/-- The items of the archive in their order. -/
def archivedItems (tree : DirectoryTree) : List (List JsString × Item) :=
  (walk collectorSkips [] tree.entries).filterMap toItem

/-- The first name of a path is neither that of an excluded directory nor that of a lock file. -/
def Included (q : List JsString) : Prop :=
  Outside q ∧ ∀ s, q.head? = some s → isLock s = false

theorem collect_eq_map (tree : DirectoryTree) :
    collectFallbackArchiveEntries (js ".") tree.entries =
      (archivedItems tree).map fun x => itemEntry x.1 x.2 := by
  have hroot : js "." = relativeText [] := rfl
  have hentry : toEntry = fun x => (toItem x).map fun x => itemEntry x.1 x.2 := by
    funext ⟨path, t⟩
    cases t <;> rfl
  rw [hroot, collect_eq [] (List.forall_mem_nil _) tree.entries tree.named, archivedItems,
    List.map_filterMap, hentry]

theorem mem_archivedItems {tree : DirectoryTree} {q : List JsString} {item : Item} :
    (q, item) ∈ archivedItems tree ↔
      ∃ t, At tree.entries q t ∧ t.item = some item ∧ Included q := by
  rw [archivedItems, List.mem_filterMap]
  constructor
  · rintro ⟨⟨p, t⟩, hwalk, hitem⟩
    obtain ⟨q', rfl, hat, hreached⟩ := (mem_walk _ _ _ _ _).mp hwalk
    obtain ⟨item', hitem', heq⟩ := Option.map_eq_some_iff.mp hitem
    obtain ⟨rfl, rfl⟩ := Prod.mk.inj heq
    exact ⟨t, hat, hitem', (reached_collectorSkips_iff hat.ne_nil).mp hreached⟩
  · rintro ⟨t, hat, hitem, hincluded⟩
    refine ⟨(q, t), (mem_walk _ _ _ _ _).mpr ⟨q, rfl, hat, ?_⟩, ?_⟩
    · exact (reached_collectorSkips_iff hat.ne_nil).mpr hincluded
    · rw [toItem, hitem]
      rfl

/-! ## Directories come first -/

/-- The directory of every item is the root or comes before it. -/
def ParentsFirst (done : List (List JsString × Item)) : List (List JsString × Item) → Prop
  | [] => True
  | x :: rest =>
    (x.1.dropLast = [] ∨ (x.1.dropLast, .dir) ∈ done) ∧ ParentsFirst (done ++ [x]) rest

variable {done items more : List (List JsString × Item)} {q : List JsString} {item : Item}

theorem parentsFirst_append : ParentsFirst done (items ++ more) ↔
    ParentsFirst done items ∧ ParentsFirst (done ++ items) more := by
  induction items generalizing done with
  | nil => rw [List.nil_append, List.append_nil, ParentsFirst, true_and]
  | cons x rest ih =>
    rw [List.cons_append, ParentsFirst, ParentsFirst, ih, List.append_assoc, and_assoc]
    rfl

mutual

theorem Tree.parentsFirst (skips : List JsString → Bool) (path : List JsString) :
    ∀ (node : Tree) (done : List (List JsString × Item)),
      (∀ children, node = .dir children → path = [] ∨ (path, .dir) ∈ done) →
      ParentsFirst done ((node.walkBelow skips path).filterMap toItem)
  | .file _, _, _ => trivial
  | .other _, _, _ => trivial
  | .dir children, done, h => by
    rw [Tree.walkBelow]
    exact parentsFirst_walk skips path children done (h children rfl)

theorem parentsFirst_walk (skips : List JsString → Bool) (path : List JsString) :
    ∀ (entries : List (JsString × Tree)) (done : List (List JsString × Item)),
      path = [] ∨ (path, .dir) ∈ done →
      ParentsFirst done ((walk skips path entries).filterMap toItem)
  | [], _, _ => trivial
  | (name, node) :: entries, done, h => by
    rw [walk]
    split
    · exact parentsFirst_walk skips path entries done h
    · rw [List.cons_append, List.filterMap_cons, List.filterMap_append]
      have hlater : ∀ added, path = [] ∨ (path, .dir) ∈ done ++ added := by
        intro added
        exact h.imp_right fun hmem => List.mem_append_left added hmem
      cases node with
      | other stored =>
        exact parentsFirst_append.mpr ⟨trivial, parentsFirst_walk skips path entries _ (hlater _)⟩
      | file bytes =>
        refine ⟨?_, parentsFirst_append.mpr
          ⟨trivial, parentsFirst_walk skips path entries _ ?_⟩⟩
        · rwa [List.dropLast_concat]
        · rw [List.append_assoc]
          exact hlater _
      | dir children =>
        refine ⟨?_, parentsFirst_append.mpr
          ⟨Tree.parentsFirst skips (path ++ [name]) (.dir children) _ fun _ _ => .inr ?_,
            parentsFirst_walk skips path entries _ ?_⟩⟩
        · rwa [List.dropLast_concat]
        · exact List.mem_append_right _ (List.mem_singleton_self _)
        · rw [List.append_assoc]
          exact hlater _

end

/-! ## Extracting an item -/

/-- A name on disk that is not read as several. -/
structure IsPortableName (name : JsString) : Prop extends IsFileName name where
  no_backslash : backslash ∉ name

variable {root : List JsString} {fs : FileSystem}

theorem splitOn_relativeText (h : ∀ s ∈ q, Paths.IsSegment s) (hne : q ≠ []) :
    (relativeText q).splitOn Paths.sep = q := by
  rw [relativeText, if_neg hne,
    List.splitOn_intercalate Paths.sep (fun s hs => (h s hs).no_sep) hne]

theorem slashed_relativeText (h : ∀ s ∈ q, IsPortableName s) :
    slashed (relativeText q) = relativeText q := by
  have hback : backslash ∉ relativeText q := by
    by_cases hne : q = []
    · subst hne
      decide
    · rw [relativeText, if_neg hne]
      exact Paths.not_mem_intercalate (by decide) fun s hs => (h s hs).no_backslash
  have hsame : ∀ u ∈ relativeText q, (if u = backslash then Paths.sep else u) = u := by
    intro u hu
    refine if_neg ?_
    rintro rfl
    exact hback hu
  rw [slashed, List.map_congr_left hsame, List.map_id']

theorem withoutDots_relativeText (h : ∀ s ∈ q, Paths.IsSegment s) (hne : q ≠ []) :
    withoutDots (relativeText q) = relativeText q := by
  have hsplit := splitOn_relativeText h hne
  generalize relativeText q = path at hsplit
  unfold withoutDots
  split
  · next first second rest =>
    refine if_neg ?_
    rintro ⟨rfl, rfl⟩
    have hparts : (46 :: Paths.sep :: rest : JsString).splitOn Paths.sep =
        js "." :: rest.splitOn Paths.sep :=
      List.splitOn_append_cons_self [46] rest
    rw [hparts] at hsplit
    exact (h (js ".") (hsplit ▸ List.mem_cons_self)).ne_dot rfl
  · rfl

/-- The path of an entry passes the check. -/
theorem isSafe_relativeText (h : ∀ s ∈ q, IsPortableName s) (hne : q ≠ []) :
    isSafeArchiveEntryPath (relativeText q) = true := by
  have hsegments : ∀ s ∈ q, Paths.IsSegment s := fun s hs => (h s hs).toIsSegment
  have hnonempty : relativeText q ≠ [] := by
    rw [relativeText, if_neg hne]
    exact Paths.intercalate_ne_nil hsegments hne
  have hrelative : Paths.isAbsolute (relativeText q) = false := by
    rw [relativeText, if_neg hne]
    exact Paths.isAbsolute_intercalate hsegments hne
  have hfilter : q.filter (· ≠ []) = q :=
    List.filter_eq_self.mpr fun s hs => decide_eq_true (hsegments s hs).ne_nil
  have hhead : ¬(relativeText q).head? = some Paths.sep := of_decide_eq_false hrelative
  have hfirst : ¬(relativeText q = [] || Paths.isAbsolute (relativeText q)) = true := by
    rw [decide_eq_false hnonempty, hrelative]
    exact Bool.false_ne_true
  rw [isSafeArchiveEntryPath, if_neg hfirst]
  dsimp only
  rw [slashed_relativeText h, withoutDots_relativeText hsegments hne, if_neg hhead,
    splitOn_relativeText hsegments hne, hfilter, if_neg (List.length_pos_of_ne_nil hne).ne',
    List.all_eq_true]
  intro s hs
  rw [decide_eq_false (hsegments s hs).ne_dot, decide_eq_false (hsegments s hs).ne_dots]
  rfl

/-- An entry goes to its place below the directory. -/
theorem targetPathOf_entryValue (hroot : ∀ s ∈ root, IsFileName s)
    (h : ∀ s ∈ q, IsPortableName s) (hne : q ≠ []) (item : Item) :
    targetPathOf (Paths.ofSegments root) (entryValue (itemEntry q item)) =
      .ok (Paths.ofSegments (root ++ q)) := by
  have hsegments : ∀ s ∈ q, Paths.IsSegment s := fun s hs => (h s hs).toIsSegment
  have hsplit := splitOn_relativeText hsegments hne
  have hpath : (itemEntry q item).path = relativeText q := by
    cases item <;> rfl
  have hnames : Paths.namesOf (relativeText q) = q := by
    rw [Paths.namesOf, hsplit, List.filter_eq_self]
    intro s hs
    rw [decide_eq_true (hsegments s hs).ne_nil, decide_eq_true (hsegments s hs).ne_dot]
    rfl
  have hdots : js ".." ∉ (relativeText q).splitOn Paths.sep := by
    rw [hsplit]
    exact fun hmem => (hsegments _ hmem).ne_dots rfl
  have hjoined : relativeText q = [Paths.sep].intercalate q := if_neg hne
  obtain ⟨trail, -, htrail, hjoin⟩ := @Paths.join_below root (relativeText q)
    (fun s hs => (hroot s hs).toIsSegment)
    (by rw [hjoined]; exact Paths.intercalate_ne_nil hsegments hne) hdots
    (by rw [hnames]; exact hne)
  rw [htrail (by rw [hjoined]; exact Paths.getLast?_intercalate_ne hsegments hne), hnames,
    List.append_nil] at hjoin
  have hvalue : targetPathOf (Paths.ofSegments root) (entryValue (itemEntry q item)) =
      safeTargetPath (Paths.ofSegments root) (relativeText q) := by
    have hproperty := path_entryValue (itemEntry q item)
    rw [hpath] at hproperty
    unfold targetPathOf
    split
    · next hnull => cases hnull
    · rw [hproperty]
  rw [hvalue, safeTargetPath, isSafe_relativeText h hne, hjoin]
  rfl

/-- **An item is made in a directory that is there, if nothing else is at its place.** -/
theorem extractEntry_item (hroot : ∀ s ∈ root, IsFileName s) (h : ∀ s ∈ q, IsPortableName s)
    (hne : q ≠ []) (hclosed : fs.Closed) (hparent : fs (root ++ q.dropLast) = some .dir)
    (hfree : ∀ other, fs (root ++ q) = some other → other = item) :
    extractEntry host (Paths.ofSegments root) (entryValue (itemEntry q item)) fs =
      ⟨none, fs.put (root ++ q) item⟩ := by
  have hall : ∀ s ∈ root ++ q, IsFileName s := by
    intro s hs
    rcases List.mem_append.mp hs with hs | hs
    · exact hroot s hs
    · exact (h s hs).toIsFileName
  rw [extractEntry, targetPathOf_entryValue hroot h hne]
  dsimp only
  obtain ⟨front, last, rfl⟩ := (List.eq_nil_or_concat' q).resolve_left hne
  rw [List.dropLast_concat] at hparent
  rw [kind_entryValue, FileSystem.mkdirSync_ofSegments hall]
  cases item with
  | dir =>
    have hkind : some (js (kindText (itemEntry (front ++ [last]) .dir).kind)) = some (js "dir") :=
      rfl
    have hmade : fs.mkdirAll (root ++ (front ++ [last])) =
        some (fs.put (root ++ (front ++ [last])) .dir) := by
      cases hitem : fs (root ++ (front ++ [last])) with
      | none =>
        rw [← List.append_assoc] at hitem ⊢
        exact FileSystem.mkdirAll_of_parent hclosed hparent hitem
      | some other =>
        obtain rfl := hfree other hitem
        rw [FileSystem.mkdirAll_of_dir hclosed hitem, FileSystem.put_eq_self hitem]
    rw [if_pos hkind, hmade]
  | file bytes =>
    have hkind : some (js (kindText (itemEntry (front ++ [last]) (.file bytes)).kind)) ≠
        some (js "dir") := by
      have hne : js "file" ≠ js "dir" := by decide
      exact fun heq => hne (Option.some.inj heq)
    have hdirname := @dirname_below root (front ++ [last]) []
      (fun s hs => (hroot s hs).toIsSegment) (fun s hs => (h s hs).toIsSegment) hne (.inl rfl)
    rw [List.append_nil, List.dropLast_concat] at hdirname
    have hdirs : ∀ s ∈ root ++ front, IsFileName s := by
      rw [← List.append_assoc] at hall
      exact fun s hs => hall s (List.mem_append_left _ hs)
    have hnotdir : fs (root ++ front ++ [last]) ≠ some .dir := by
      intro hdir
      rw [List.append_assoc] at hdir
      cases hfree _ hdir
    rw [if_neg hkind, hdirname, FileSystem.mkdirSync_ofSegments hdirs,
      FileSystem.mkdirAll_of_dir hclosed hparent]
    dsimp only
    rw [contentOf_entryValue rfl, Option.bind_some,
      FileSystem.writeFileSync_ofSegments hall (List.append_ne_nil_of_right_ne_nil root hne),
      ← List.append_assoc, FileSystem.writeFile_of_parent hparent hnotdir]

/-! ## Extracting the items -/

/-- Below the directory there is what has been extracted. -/
structure Restored (root : List JsString) (done : List (List JsString × Item))
    (fs : FileSystem) : Prop where
  closed : fs.Closed
  dir : fs root = some .dir
  items : ∀ q item, q ≠ [] → (fs (root ++ q) = some item ↔ (q, item) ∈ done)

/-- What is true of the items of an archive. -/
structure Extractable (items : List (List JsString × Item)) : Prop where
  ne_nil : ∀ x ∈ items, x.1 ≠ []
  names : ∀ x ∈ items, ∀ s ∈ x.1, IsPortableName s
  unique : ∀ q item other, (q, item) ∈ items → (q, other) ∈ items → other = item

/-- One more item is extracted. -/
theorem Restored.extractEntry (host : ArchiveHost) (hroot : ∀ s ∈ root, IsFileName s)
    (h : Restored root done fs) (hitems : Extractable (done ++ (q, item) :: more))
    (hparent : q.dropLast = [] ∨ (q.dropLast, .dir) ∈ done) :
    ∃ fs', extractEntry host (Paths.ofSegments root) (entryValue (itemEntry q item)) fs =
      ⟨none, fs'⟩ ∧ Restored root (done ++ [(q, item)]) fs' := by
  have hmem : (q, item) ∈ done ++ (q, item) :: more :=
    List.mem_append_right done List.mem_cons_self
  have hne := hitems.ne_nil _ hmem
  have hdir : fs (root ++ q.dropLast) = some .dir := by
    by_cases hnil : q.dropLast = []
    · rw [hnil, List.append_nil]
      exact h.dir
    · exact (h.items _ _ hnil).mpr (hparent.resolve_left hnil)
  have hfree : ∀ other, fs (root ++ q) = some other → other = item := by
    intro other hother
    exact hitems.unique q item other hmem
      (List.mem_append_left _ ((h.items q other hne).mp hother))
  have hextract := @extractEntry_item host q item root fs hroot (hitems.names _ hmem) hne h.closed
    hdir hfree
  have hconfined := @confined_extractEntry host root fs hroot h.closed h.dir
    (entryValue (itemEntry q item))
  rw [hextract] at hconfined
  refine ⟨_, hextract, hconfined.closed, hconfined.dir, fun p other hp => ?_⟩
  rw [List.mem_append, List.mem_singleton]
  by_cases hsame : p = q
  · subst hsame
    rw [FileSystem.put_self, Option.some.injEq]
    constructor
    · rintro rfl
      exact .inr rfl
    · rintro (hdone | heq)
      · exact (hitems.unique p item other hmem (List.mem_append_left _ hdone)).symm
      · exact (Prod.mk.inj heq).2.symm
  · rw [FileSystem.put_of_ne fun heq => hsame (List.append_cancel_left heq), h.items p other hp]
    exact (or_iff_left fun heq => hsame (Prod.mk.inj heq).1).symm

/-- **Items whose directories come first are extracted one after another.** -/
theorem Restored.extractEntries (host : ArchiveHost) (hroot : ∀ s ∈ root, IsFileName s)
    (h : Restored root done fs) (hitems : Extractable (done ++ items))
    (hparents : ParentsFirst done items) :
    ∃ fs', extractEntries host (Paths.ofSegments root)
      (items.map fun x => entryValue (itemEntry x.1 x.2)) fs = ⟨none, fs'⟩ ∧
        Restored root (done ++ items) fs' := by
  induction items generalizing done fs with
  | nil => exact ⟨fs, rfl, by rwa [List.append_nil]⟩
  | cons x rest ih =>
    obtain ⟨fs', hentry, hnext⟩ := h.extractEntry host hroot hitems hparents.1
    rw [List.append_cons] at hitems
    obtain ⟨fs'', hrun, hdone⟩ := ih hnext hitems hparents.2
    refine ⟨fs'', ?_, by rwa [List.append_cons]⟩
    rw [List.map_cons, Archives.extractEntries, hentry]
    exact hrun

/-! ## Round trip -/

/-- A tree as a system without links shows it: the names are texts without a null character. -/
structure DiskTree extends DirectoryTree where
  fileNames : ∀ q t, At entries q t → ∀ s ∈ q, IsFileName s

/-- Nothing is in the directory. -/
def Target.Empty (target : Target) : Prop := ∀ q, q ≠ [] → target.fs (target.root ++ q) = none

/-- Nothing has been thrown, and below the root there are exactly the included files and
directories of the tree, at their paths and with their bytes. -/
structure Reproduces (root : List JsString) (tree : DirectoryTree) (extracted : Extracted) :
    Prop where
  thrown : extracted.thrown = none
  items : ∀ q item, q ≠ [] → (extracted.fs (root ++ q) = some item ↔
    ∃ t, At tree.entries q t ∧ t.item = some item ∧ Included q)

theorem extractable_archivedItems (tree : DiskTree)
    (hslash : ∀ q t, At tree.entries q t → ∀ s ∈ q, backslash ∉ s) :
    Extractable (archivedItems tree.toDirectoryTree) := by
  constructor
  · intro x hx
    obtain ⟨t, hat, -⟩ := mem_archivedItems.mp hx
    exact hat.ne_nil
  · intro x hx s hs
    obtain ⟨t, hat, -⟩ := mem_archivedItems.mp hx
    exact ⟨tree.fileNames _ t hat s hs, hslash _ t hat s hs⟩
  · intro q item other hitem hother
    obtain ⟨t, hat, ht, -⟩ := mem_archivedItems.mp hitem
    obtain ⟨t', hat', ht', -⟩ := mem_archivedItems.mp hother
    obtain rfl := hat.unique hat' tree.named
    exact Option.some.inj (ht'.symm.trans ht)

theorem restored_nil {target : Target} (h : target.Empty) : Restored target.root [] target.fs := by
  refine ⟨target.closed, target.dir, fun q item hq => ?_⟩
  rw [h q hq]
  exact ⟨fun heq => (by cases heq), fun hmem => (by cases hmem)⟩

/-- **What is archived is extracted as it was.** -/
theorem reproduces_extract (host : ArchiveHost) (tree : DiskTree) (target : Target)
    (hslash : ∀ q t, At tree.entries q t → ∀ s ∈ q, backslash ∉ s) (hempty : target.Empty) :
    Reproduces target.root tree.toDirectoryTree (extractFallbackArchive host
      (createFallbackArchive host tree.toDirectoryTree) (Paths.ofSegments target.root)
      target.fs) := by
  obtain ⟨fs', hrun, hdone⟩ := (restored_nil hempty).extractEntries host target.names
    (extractable_archivedItems tree hslash)
    (parentsFirst_walk collectorSkips [] tree.entries [] (.inl rfl))
  have hextract : extractFallbackArchive host (createFallbackArchive host tree.toDirectoryTree)
      (Paths.ofSegments target.root) target.fs = ⟨none, fs'⟩ := by
    rw [extractFallbackArchive, readFallbackArchive_createFallbackArchive, collect_eq_map,
      List.map_map]
    exact hrun
  rw [hextract]
  refine ⟨rfl, fun q item hq => ?_⟩
  rw [← mem_archivedItems]
  exact hdone.items q item hq

/-- **The fallback archive of a tree whose names have no backslash is extracted to the included
files and directories, and no archive at all makes the extraction change anything outside of the
directory that is extracted to.** -/
theorem round_trip_and_confinement (host : ArchiveHost) :
    (∀ (tree : DiskTree) (target : Target),
      (∀ q t, At tree.entries q t → ∀ s ∈ q, backslash ∉ s) → target.Empty →
      Reproduces target.root tree.toDirectoryTree (extractFallbackArchive host
        (createFallbackArchive host tree.toDirectoryTree) (Paths.ofSegments target.root)
        target.fs)) ∧
    ∀ (archive : List UInt8) (target : Target) (p : List JsString),
      (extractFallbackArchive host archive (Paths.ofSegments target.root) target.fs).fs p ≠
        target.fs p → target.root <+: p ∧ p ≠ target.root :=
  ⟨reproduces_extract host,
    fun archive target => (confined_extractFallbackArchive host target archive).changed⟩

/-- A tree with one empty file. -/
def noteTree : DiskTree where
  entries := [(js "a", .file [])]
  named := by
    simp only [NamedEntries, Tree.Named, and_true]
    exact ⟨⟨by decide, by decide, by decide, by decide⟩, List.forall_mem_nil _⟩
  fileNames := by
    intro q t hat s hs
    rcases at_cons.mp hat with ⟨rfl, -⟩ | ⟨children, rest, hdir, -⟩ | hat
    · obtain rfl := List.mem_singleton.mp hs
      exact ⟨⟨by decide, by decide, by decide, by decide⟩, by decide, by decide⟩
    · cases hdir
    · exact absurd hat not_at_nil

/-- The text of its archive. -/
def noteDocument : List UInt8 := encodeUtf8 (jsonText []
  (archiveValue (collectFallbackArchiveEntries (js ".") noteTree.entries)))

/-- What `gzipSync` makes of the text. -/
def noteArchive : List UInt8 :=
  [31, 139, 8, 0, 0, 0, 0, 0, 0, 3, 5, 193, 49, 14, 131, 48, 12, 64, 209, 187, 252, 57, 12, 149,
    170, 14, 30, 185, 70, 197, 224, 166, 70, 137, 32, 33, 74, 220, 46, 136, 187, 243, 222, 201,
    122, 244, 162, 142, 80, 172, 180, 148, 199, 244, 209, 184, 253, 218, 244, 127, 16, 176, 234,
    61, 219, 64, 222, 39, 77, 61, 33, 40, 129, 45, 215, 47, 194, 154, 119, 35, 16, 143, 234, 86,
    125, 214, 97, 175, 39, 2, 215, 114, 221, 19, 69, 136, 78, 88, 0, 0, 0]

def sampleGunzip (bytes : List UInt8) : Option (List UInt8) :=
  if bytes = noteArchive then some noteDocument
  else if bytes.head? = some 0 then some bytes.tail else none

theorem sampleGunzip_marked (bytes : List UInt8) : sampleGunzip (0 :: bytes) = some bytes := by
  have hne : (0 :: bytes : List UInt8) ≠ noteArchive := by
    intro h
    exact absurd (List.cons.inj h).1 (by decide)
  rw [sampleGunzip, if_neg hne]
  rfl

/-- A platform that knows the archive of one text, and marks other bytes by a zero. -/
def sampleArchiveHost : ArchiveHost where
  gzip bytes := if bytes = noteDocument then noteArchive else 0 :: bytes
  gunzip := sampleGunzip
  gunzip_gzip bytes := by
    split
    · next h =>
      rw [h]
      exact if_pos rfl
    · exact sampleGunzip_marked bytes
  bufferFrom _ := none

/-- The root of an empty file system. -/
def emptyTarget : Target where
  root := []
  names := List.forall_mem_nil _
  fs path := if path = [] then some .dir else none
  closed := ⟨rfl, fun path name h => absurd (if_neg (List.concat_ne_nil name path)) h⟩
  dir := rfl

theorem round_trip_and_confinement_sample :
    Reproduces [] noteTree.toDirectoryTree (extractFallbackArchive sampleArchiveHost
      (createFallbackArchive sampleArchiveHost noteTree.toDirectoryTree) (Paths.ofSegments [])
      emptyTarget.fs) := by
  refine (round_trip_and_confinement sampleArchiveHost).1 noteTree emptyTarget ?_
    fun q hq => if_neg hq
  intro q t hat s hs
  rcases at_cons.mp hat with ⟨rfl, -⟩ | ⟨children, rest, hdir, -⟩ | hat
  · obtain rfl := List.mem_singleton.mp hs
    decide
  · cases hdir
  · exact absurd hat not_at_nil

end MemphisOS.Archives
