import MemphisOS.Bridge.Envelope
import MemphisOS.Ecma.Base64
import MemphisOS.Files.FileSystem

/-!
# Extracting the fallback archive

The entries are made one after another below the directory that is extracted to. The path of an
entry is checked with backslashes read as separators, and joined as it is.
-/

namespace MemphisOS.Archives

open Ecma Files
open Bridge (truthy property stringProperty)

/-- What the archives use of the platform. -/
structure ArchiveHost where
  gzip : List UInt8 → List UInt8
  /-- `gunzipSync`, which throws on other bytes. -/
  gunzip : List UInt8 → Option (List UInt8)
  gunzip_gzip : ∀ bytes, gunzip (gzip bytes) = some bytes
  /-- `Buffer.from(value, 'base64')` for a value that is no string. -/
  bufferFrom : Plain → Option (List UInt8)

/-! ## Paths of entries -/

def backslash : UInt16 := 92

/-- `entryPath.replace(/\\/g, '/')`. -/
def slashed (entryPath : JsString) : JsString :=
  entryPath.map fun u => if u = backslash then Paths.sep else u

/-- The loop that removes `./` from the start. -/
def withoutDots : JsString → JsString
  | first :: second :: rest =>
    if first = 46 ∧ second = Paths.sep then withoutDots rest else first :: second :: rest
  | path => path

def isSafeArchiveEntryPath (entryPath : JsString) : Bool :=
  if entryPath = [] || Paths.isAbsolute entryPath then false
  else
    let normalized := withoutDots (slashed entryPath)
    if normalized.head? = some Paths.sep then false
    else
      let segments := (normalized.splitOn Paths.sep).filter (· ≠ [])
      if segments.length = 0 then false
      else segments.all fun segment => !(segment = js "." || segment = js "..")

/-- Why an extraction throws. -/
inductive ExtractError where
  | message (text : JsString)
  /-- A function of the platform has thrown. -/
  | platform
  deriving DecidableEq

def unsafePath (text : JsString) : ExtractError :=
  .message (js "Unsafe archive entry path: " ++ text)

def safeTargetPath (root entryPath : JsString) : Except ExtractError JsString :=
  if !isSafeArchiveEntryPath entryPath then .error (unsafePath entryPath)
  else .ok (Paths.join [root, entryPath])

/-- The text of a value that counts as false. -/
def falsyText : Option Plain → JsString
  | none => js "undefined"
  | some .null => js "null"
  | some (.bool _) => js "false"
  | some (.num n) => if n = .nan then js "NaN" else js "0"
  | some _ => []

/-- Where the entry goes. `isAbsolute` throws on what is no string. -/
def targetPathOf (root : JsString) (entry : Plain) : Except ExtractError JsString :=
  match entry with
  | .null => .error .platform
  | entry =>
    match stringProperty entry "path" with
    | some entryPath => safeTargetPath root entryPath
    | none =>
      if truthy (property entry "path") then .error .platform
      else .error (unsafePath (falsyText (property entry "path")))

/-! ## Extraction -/

variable (host : ArchiveHost)

/-- `Buffer.from(entry.contentBase64 ?? '', 'base64')`. -/
def contentOf (entry : Plain) : Option (List UInt8) :=
  match property entry "contentBase64" with
  | none => some (fromBase64 [])
  | some .null => some (fromBase64 [])
  | some (.str s) => some (fromBase64 s)
  | some value => host.bufferFrom value

/-- What has been thrown, and the file system as it is left. -/
structure Extracted where
  thrown : Option ExtractError
  fs : FileSystem

/-- The body of the loop. -/
def extractEntry (targetRoot : JsString) (entry : Plain) (fs : FileSystem) : Extracted :=
  match targetPathOf targetRoot entry with
  | .error error => ⟨some error, fs⟩
  | .ok targetPath =>
    if stringProperty entry "kind" = some (js "dir") then
      match fs.mkdirSync targetPath with
      | none => ⟨some .platform, fs⟩
      | some fs => ⟨none, fs⟩
    else
      match fs.mkdirSync (Paths.dirname targetPath) with
      | none => ⟨some .platform, fs⟩
      | some fs =>
        match (contentOf host entry).bind (fs.writeFileSync targetPath) with
        | none => ⟨some .platform, fs⟩
        | some fs => ⟨none, fs⟩

def extractEntries (targetRoot : JsString) : List Plain → FileSystem → Extracted
  | [], fs => ⟨none, fs⟩
  | entry :: entries, fs =>
    match extractEntry host targetRoot entry fs with
    | ⟨none, fs⟩ => extractEntries targetRoot entries fs
    | ⟨some error, fs⟩ => ⟨some error, fs⟩

def invalidArchive : ExtractError := .message (js "invalid fallback backup archive format")

/-- The entries of the archive. -/
def readFallbackArchive (archive : List UInt8) : Except ExtractError (List Plain) :=
  match (host.gunzip archive).bind fun raw => parseJson (decodeUtf8 raw) with
  | none => .error .platform
  | some .null => .error .platform
  | some parsed =>
    if stringProperty parsed "format" ≠ some (js "memphis-backup-v1") then .error invalidArchive
    else
      match property parsed "entries" with
      | some (.arr entries) => .ok entries
      | _ => .error invalidArchive

def extractFallbackArchive (archive : List UInt8) (targetRoot : JsString) (fs : FileSystem) :
    Extracted :=
  match readFallbackArchive host archive with
  | .error error => ⟨some error, fs⟩
  | .ok entries => extractEntries host targetRoot entries fs

/-! ## Safe paths -/

variable {host} {entryPath part : JsString}

/-- The parts at separators and backslashes are those at separators, parted at backslashes. -/
theorem splitOn_slashed (entryPath : JsString) : (slashed entryPath).splitOn Paths.sep =
    (entryPath.splitOn Paths.sep).flatMap fun part => part.splitOn backslash := by
  induction entryPath with
  | nil => rfl
  | cons u rest ih =>
    have hslashed : slashed (u :: rest) =
        (if u = backslash then Paths.sep else u) :: slashed rest := rfl
    obtain ⟨first, others, hrest⟩ :=
      List.exists_cons_of_ne_nil (List.splitOn_ne_nil Paths.sep rest)
    rw [hslashed, List.splitOn_cons_eq_if_modifyHead, ih,
      @List.splitOn_cons_eq_if_modifyHead _ _ Paths.sep u, hrest]
    by_cases hsep : u = Paths.sep
    · subst hsep
      have hne : ¬Paths.sep = backslash := by decide
      rw [if_neg hne, if_pos (beq_self_eq_true _), if_pos (beq_self_eq_true _)]
      rfl
    · have hsep' : ¬(u == Paths.sep) = true := by simpa using hsep
      rw [if_neg hsep', List.modifyHead_cons, List.flatMap_cons, List.flatMap_cons,
        @List.splitOn_cons_eq_if_modifyHead _ _ backslash u]
      by_cases hback : u = backslash
      · rw [if_pos hback, if_pos (beq_self_eq_true _), if_pos (by simpa using hback)]
        rfl
      · obtain ⟨s, more, hfirst⟩ :=
          List.exists_cons_of_ne_nil (List.splitOn_ne_nil backslash first)
        rw [if_neg hback, if_neg hsep', if_neg (by simpa using hback), hfirst]
        rfl

/-- Only parts that are `.` are removed from the start. -/
theorem mem_splitOn_withoutDots (path : JsString) (hpart : part ≠ js ".") :
    part ∈ (withoutDots path).splitOn Paths.sep ↔ part ∈ path.splitOn Paths.sep := by
  fun_induction withoutDots path with
  | case1 first second rest h ih =>
    obtain ⟨rfl, rfl⟩ := h
    have hparts : (46 :: Paths.sep :: rest : JsString).splitOn Paths.sep =
        js "." :: rest.splitOn Paths.sep :=
      List.splitOn_append_cons_self [46] rest
    rw [ih, hparts, List.mem_cons, or_iff_right hpart]
  | case2 first second rest h => rfl
  | case3 path h => rfl

/-- **A safe path names something, and none of its parts is `..`.** -/
theorem names_of_isSafe (h : isSafeArchiveEntryPath entryPath = true) :
    entryPath ≠ [] ∧ js ".." ∉ entryPath.splitOn Paths.sep ∧ Paths.namesOf entryPath ≠ [] := by
  unfold isSafeArchiveEntryPath at h
  split at h
  · cases h
  · next hplain =>
    rw [Bool.or_eq_true, not_or, decide_eq_true_eq] at hplain
    dsimp only at h
    split at h
    · cases h
    · split at h
      · cases h
      · next hsegments =>
        rw [List.all_eq_true] at h
        have hall : ∀ segment ∈ (slashed entryPath).splitOn Paths.sep, segment ≠ [] →
            segment ≠ js "." → segment ≠ js ".." := by
          intro segment hmem hne hdot
          have hkept := (mem_splitOn_withoutDots _ hdot).mpr hmem
          have hsafe := h segment (List.mem_filter.mpr ⟨hkept, decide_eq_true hne⟩)
          simp only [Bool.not_eq_true', Bool.or_eq_false_iff, decide_eq_false_iff_not] at hsafe
          exact hsafe.2
        refine ⟨hplain.1, fun hdots => ?_, ?_⟩
        · have hmem : js ".." ∈ (slashed entryPath).splitOn Paths.sep := by
            rw [splitOn_slashed]
            exact List.mem_flatMap.mpr ⟨_, hdots, List.mem_singleton_self _⟩
          exact hall _ hmem (by decide) (by decide) rfl
        · obtain ⟨segment, hsegment⟩ := List.exists_mem_of_ne_nil _
            (List.ne_nil_of_length_pos (Nat.pos_of_ne_zero hsegments))
          have hsafe := h segment hsegment
          obtain ⟨hkept, hne⟩ := List.mem_filter.mp hsegment
          simp only [Bool.not_eq_true', Bool.or_eq_false_iff, decide_eq_false_iff_not] at hsafe
          rw [mem_splitOn_withoutDots _ hsafe.1, splitOn_slashed] at hkept
          obtain ⟨part, hpart, hin⟩ := List.mem_flatMap.mp hkept
          have hname : part ∈ Paths.namesOf entryPath := by
            refine List.mem_filter.mpr ⟨hpart, ?_⟩
            rw [Bool.and_eq_true, decide_eq_true_eq, decide_eq_true_eq]
            constructor
            · rintro rfl
              exact of_decide_eq_true hne (List.mem_singleton.mp hin)
            · rintro rfl
              exact hsafe.1 (List.mem_singleton.mp hin)
          exact List.ne_nil_of_mem hname

/-! ## What extraction changes -/

/-- A directory that is extracted to. -/
structure Target where
  root : List JsString
  names : ∀ s ∈ root, FileSystem.IsFileName s
  fs : FileSystem
  closed : fs.Closed
  dir : fs root = some .dir

/-- The directory is still there, and what has changed is strictly below it. -/
structure Confined (root : List JsString) (fs fs' : FileSystem) : Prop where
  closed : fs'.Closed
  dir : fs' root = some .dir
  changed : ∀ p, fs' p ≠ fs p → root <+: p ∧ p ≠ root

variable {root names : List JsString} {fs fs' fs'' : FileSystem} {bytes : List UInt8}
  {trail targetPath : JsString} {entry : Plain}

theorem Confined.refl (hclosed : fs.Closed) (hdir : fs root = some .dir) : Confined root fs fs :=
  ⟨hclosed, hdir, fun _ h => absurd rfl h⟩

theorem Confined.trans (h : Confined root fs fs') (h' : Confined root fs' fs'') :
    Confined root fs fs'' := by
  refine ⟨h'.closed, h'.dir, fun p hp => ?_⟩
  by_cases hsame : fs'' p = fs' p
  · exact h.changed p (hsame ▸ hp)
  · exact h'.changed p hsame

theorem confined_mkdirAll (hclosed : fs.Closed) (hdir : fs root = some .dir)
    (h : fs.mkdirAll (root ++ names) = some fs') : Confined root fs fs' := by
  have hmade := FileSystem.mkdirAll_made hclosed h
  exact ⟨hmade.closed, hmade.kept _ _ hdir,
    fun p hp => hmade.below hclosed hdir (List.prefix_append _ _) hp⟩

theorem confined_writeFile (hclosed : fs.Closed) (hdir : fs root = some .dir) (hne : names ≠ [])
    (h : fs.writeFile (root ++ names) bytes = some fs') : Confined root fs fs' := by
  have hclosed' := hclosed.writeFile h
  obtain ⟨-, hfree, rfl⟩ := FileSystem.writeFile_eq_some h
  have hroot : root ≠ root ++ names := by simpa using hne
  refine ⟨hclosed', (FileSystem.put_of_ne hroot).trans hdir, fun p hp => ?_⟩
  by_cases hsame : p = root ++ names
  · subst hsame
    exact ⟨List.prefix_append _ _, hroot.symm⟩
  · exact absurd (FileSystem.put_of_ne hsame) hp

/-- **The path of an entry that passes the check leads strictly below the directory.** -/
theorem exists_names_of_safeTargetPath (h : ∀ s ∈ root, Paths.IsSegment s)
    (hok : safeTargetPath (Paths.ofSegments root) entryPath = .ok targetPath) :
    ∃ names trail, names ≠ [] ∧ (∀ s ∈ names, Paths.IsSegment s) ∧
      (trail = [] ∨ trail = [Paths.sep]) ∧
      targetPath = Paths.ofSegments (root ++ names) ++ trail := by
  unfold safeTargetPath at hok
  split at hok
  · cases hok
  · next hsafe =>
    rw [Bool.not_eq_true, Bool.not_eq_false'] at hsafe
    obtain ⟨hne, hdots, hnames⟩ := names_of_isSafe hsafe
    obtain ⟨trail, htrail, -, hjoin⟩ := Paths.join_below h hne hdots hnames
    exact ⟨_, trail, hnames, Paths.isSegment_namesOf hdots, htrail,
      (Except.ok.inj hok).symm.trans hjoin⟩

theorem exists_names_of_targetPathOf (h : ∀ s ∈ root, Paths.IsSegment s)
    (hok : targetPathOf (Paths.ofSegments root) entry = .ok targetPath) :
    ∃ names trail, names ≠ [] ∧ (∀ s ∈ names, Paths.IsSegment s) ∧
      (trail = [] ∨ trail = [Paths.sep]) ∧
      targetPath = Paths.ofSegments (root ++ names) ++ trail := by
  unfold targetPathOf at hok
  split at hok
  · cases hok
  · split at hok
    · exact exists_names_of_safeTargetPath h hok
    · split at hok <;> cases hok

/-- The names on disk below a directory. -/
theorem namesAt_below (h : ∀ s ∈ root, FileSystem.IsFileName s)
    (hnames : ∀ s ∈ names, Paths.IsSegment s) (htrail : trail = [] ∨ trail = [Paths.sep]) :
    FileSystem.namesAt (Paths.ofSegments (root ++ names) ++ trail) =
      root ++ names.map FileSystem.fileName := by
  have hall : ∀ s ∈ root ++ names, Paths.IsSegment s := by
    intro s hs
    rcases List.mem_append.mp hs with hs | hs
    · exact (h s hs).toIsSegment
    · exact hnames s hs
  rw [FileSystem.namesAt_ofSegments hall htrail, List.map_append, FileSystem.map_fileName h]

theorem confined_mkdirSync (h : ∀ s ∈ root, FileSystem.IsFileName s)
    (hnames : ∀ s ∈ names, Paths.IsSegment s) (htrail : trail = [] ∨ trail = [Paths.sep])
    (hclosed : fs.Closed) (hdir : fs root = some .dir)
    (hmade : fs.mkdirSync (Paths.ofSegments (root ++ names) ++ trail) = some fs') :
    Confined root fs fs' := by
  unfold FileSystem.mkdirSync at hmade
  split at hmade
  · cases hmade
  · rw [namesAt_below h hnames htrail] at hmade
    exact confined_mkdirAll hclosed hdir hmade

theorem confined_writeFileSync (h : ∀ s ∈ root, FileSystem.IsFileName s)
    (hnames : ∀ s ∈ names, Paths.IsSegment s) (hne : names ≠ [])
    (htrail : trail = [] ∨ trail = [Paths.sep]) (hclosed : fs.Closed)
    (hdir : fs root = some .dir)
    (hwritten : fs.writeFileSync (Paths.ofSegments (root ++ names) ++ trail) bytes = some fs') :
    Confined root fs fs' := by
  unfold FileSystem.writeFileSync at hwritten
  split at hwritten
  · cases hwritten
  · rw [namesAt_below h hnames htrail] at hwritten
    exact confined_writeFile hclosed hdir (by simpa using hne) hwritten

/-- The directory of what an entry goes to is the root or below it. -/
theorem dirname_below (h : ∀ s ∈ root, Paths.IsSegment s)
    (hnames : ∀ s ∈ names, Paths.IsSegment s) (hne : names ≠ [])
    (htrail : trail = [] ∨ trail = [Paths.sep]) :
    Paths.dirname (Paths.ofSegments (root ++ names) ++ trail) =
      Paths.ofSegments (root ++ names.dropLast) := by
  obtain ⟨front, last, rfl⟩ := (List.eq_nil_or_concat' names).resolve_left hne
  have hall : ∀ s ∈ root ++ front, Paths.IsSegment s := by
    intro s hs
    rcases List.mem_append.mp hs with hs | hs
    · exact h s hs
    · exact hnames s (List.mem_append_left _ hs)
  rw [List.dropLast_concat, ← List.append_assoc, Paths.dirname_ofSegments hall
    (hnames last (List.mem_append_right _ (List.mem_singleton_self last))) htrail]

/-! ## Confinement -/

/-- One entry changes nothing outside of the directory, also when it throws. -/
theorem confined_extractEntry (h : ∀ s ∈ root, FileSystem.IsFileName s) (hclosed : fs.Closed)
    (hdir : fs root = some .dir) (entry : Plain) :
    Confined root fs (extractEntry host (Paths.ofSegments root) entry fs).fs := by
  have hsegments : ∀ s ∈ root, Paths.IsSegment s := fun s hs => (h s hs).toIsSegment
  have hsame := Confined.refl hclosed hdir
  unfold extractEntry
  split
  · exact hsame
  · next targetPath hok =>
    obtain ⟨names, trail, hne, hnames, htrail, rfl⟩ := exists_names_of_targetPathOf hsegments hok
    split
    · split
      · exact hsame
      · next hmade => exact confined_mkdirSync h hnames htrail hclosed hdir hmade
    · split
      · exact hsame
      · next fs' hmade =>
        -- the directories of a file are made before its content is read
        rw [dirname_below hsegments hnames hne htrail] at hmade
        have hparent : ∀ s ∈ names.dropLast, Paths.IsSegment s :=
          fun s hs => hnames s (List.mem_of_mem_dropLast hs)
        have hdirs := @confined_mkdirSync root _ fs fs' [] h hparent (.inl rfl) hclosed hdir
          (by rwa [List.append_nil])
        split
        · exact hdirs
        · next hbind =>
          obtain ⟨bytes, -, hwritten⟩ := Option.bind_eq_some_iff.mp hbind
          exact hdirs.trans
            (confined_writeFileSync h hnames hne htrail hdirs.closed hdirs.dir hwritten)

theorem confined_extractEntries (h : ∀ s ∈ root, FileSystem.IsFileName s) (hclosed : fs.Closed)
    (hdir : fs root = some .dir) (entries : List Plain) :
    Confined root fs (extractEntries host (Paths.ofSegments root) entries fs).fs := by
  induction entries generalizing fs with
  | nil => exact .refl hclosed hdir
  | cons entry entries ih =>
    have hentry := @confined_extractEntry host root fs h hclosed hdir entry
    rw [extractEntries]
    split
    · next fs' heq =>
      rw [heq] at hentry
      exact hentry.trans (ih hentry.closed hentry.dir)
    · next error fs' heq =>
      rw [heq] at hentry
      exact hentry

/-- **Whatever an archive holds, its extraction changes nothing but what is strictly below the
directory that is extracted to.** -/
theorem confined_extractFallbackArchive (host : ArchiveHost) (target : Target)
    (archive : List UInt8) : Confined target.root target.fs
      (extractFallbackArchive host archive (Paths.ofSegments target.root) target.fs).fs := by
  unfold extractFallbackArchive
  split
  · exact .refl target.closed target.dir
  · exact confined_extractEntries target.names target.closed target.dir _

end MemphisOS.Archives
