import MemphisOS.Ecma.Date
import MemphisOS.Ecma.StringMethods
import MemphisOS.Ecma.Utf8
import MemphisOS.Files.Directory
import MemphisOS.Files.Paths
import MemphisOS.Sequences.Generations

/-!
# The emergency log

A line is appended to the first log that can be written, after a log that has grown beyond its
limit is renamed along with its older generations. All operations on files succeed; a file is found
by its path. What is kept of a log is the end of all that was written to it.
-/

namespace MemphisOS.Runtime

open Ecma Files

structure EmergencyLogWriteResult where
  path : JsString
  fallbackPathUsed : Bool
  deriving DecidableEq

structure ResolveOptions where
  homeDir : Option JsString := none
  cwdPath : Option JsString := none
  includeCwdFallback : Option Bool := none
  explicitPaths : Option (List JsString) := none

/-- The log in the home directory, if there is one. -/
def homeCandidate (cwd : Paths.WorkingDirectory) (home : Option JsString) : Option JsString :=
  match home with
  | some home =>
    if home ≠ [] ∧ home.trim ≠ [] then
      some (Paths.resolve cwd [home, js ".memphis", js "emergency.log"])
    else none
  | none => none

/-- `envHome` is `rawEnv.HOME`. -/
def resolveEmergencyLogCandidates (cwd : Paths.WorkingDirectory) (envHome : Option JsString)
    (options : ResolveOptions) : List JsString :=
  match options.explicitPaths with
  | some (first :: rest) => (first :: rest).map fun candidate => Paths.resolve cwd [candidate]
  | _ =>
    [js "/var/lib/memphis/emergency.log", js "/opt/memphis/data/emergency.log"] ++
      (homeCandidate cwd (options.homeDir.or envHome)).toList ++
      (if options.includeCwdFallback.getD true then
        [Paths.resolve cwd [options.cwdPath.getD cwd.val, js "emergency.log"]]
      else [])

/-! ## Files -/

abbrev Disk := Directory (List UInt8)

/-- `renameSync` of a file that exists. -/
def rename (disk : Disk) (src dst : JsString) : Disk :=
  match disk.read src with
  | some bytes => (disk.delete src).write dst bytes
  | none => disk

def appendFile (disk : Disk) (path : JsString) (bytes : List UInt8) : Disk :=
  disk.write path ((disk.read path).getD [] ++ bytes)

/-- The path of a generation: the log itself, and then the log followed by a dot and a number. -/
def generation (path : JsString) : ℕ → JsString
  | 0 => path
  | i + 1 => path ++ js "." ++ ofText (digits (i + 1))

/-! ## Rotation -/

def emergencyRotateKeep : ℕ := 3

/-- The loop of `rotateFile`, from a number down to one. -/
def shiftFiles (path : JsString) : ℕ → Disk → Disk
  | 0, disk => disk
  | i + 1, disk => shiftFiles path i
      (if (disk.read (generation path (i + 1))).isSome then
        rename disk (generation path (i + 1)) (generation path (i + 2))
      else disk)

variable (maxBytes : ℕ)

def rotateFile (path : JsString) (disk : Disk) : Disk :=
  match disk.read path with
  | none => disk
  | some bytes =>
    if bytes.length ≤ maxBytes then disk
    else rename (shiftFiles path (emergencyRotateKeep - 1) disk) path (generation path 1)

/-- The log can be written when all operations succeed. -/
def canWriteEmergencyLog (candidate : JsString) (disk : Disk) : Bool × Disk :=
  let disk := rotateFile maxBytes candidate disk
  (true, if (disk.read candidate).isSome then disk else appendFile disk candidate [])

/-- The loop of `resolveEmergencyLogPath`. -/
def resolveFrom (i : ℕ) : List JsString → Disk → Option EmergencyLogWriteResult × Disk
  | [], disk => (none, disk)
  | candidate :: rest, disk =>
    match canWriteEmergencyLog maxBytes candidate disk with
    | (true, disk) => (some ⟨candidate, 0 < i⟩, disk)
    | (false, disk) => resolveFrom (i + 1) rest disk

def resolveEmergencyLogPath (candidates : List JsString) (disk : Disk) :
    Option EmergencyLogWriteResult × Disk :=
  resolveFrom maxBytes 0 candidates disk

/-- What a call writes: the time, the message and the end of the line. -/
def lineOf (date : ℤ) (message : JsString) : List UInt8 :=
  encodeUtf8 (wellFormed (js "[" ++ ofText (isoText date) ++ js "] " ++ message ++ js "\n"))

def writeEmergencyLog (candidates : List JsString) (date : ℤ) (message : JsString) (disk : Disk) :
    Option EmergencyLogWriteResult × Disk :=
  match resolveEmergencyLogPath maxBytes candidates disk with
  | (none, disk) => (none, disk)
  | (some resolved, disk) =>
    (some resolved, appendFile disk resolved.path (lineOf date message))

/-- The disk after calls, each with its time and its message. -/
def afterCalls (candidates : List JsString) (disk : Disk) (calls : List (ℤ × JsString)) : Disk :=
  calls.foldl (fun disk call => (writeEmergencyLog maxBytes candidates call.1 call.2 disk).2) disk

/-! ## Generations -/

/-- The generations of a log. -/
def pieces (path : JsString) (disk : Disk) : Generations.Pieces UInt8 := fun i =>
  disk.read (generation path i)

/-- What is kept of a log, from its third generation to the file that is written. -/
def keptBytes (path : JsString) (disk : Disk) : List UInt8 :=
  Generations.contents (emergencyRotateKeep + 1) (pieces path disk)

variable {maxBytes} {path : JsString} {disk : Disk}

/-- Generations of different numbers are different files. -/
theorem generation_inj {i j : ℕ} : generation path i = generation path j ↔ i = j := by
  refine ⟨fun h => ?_, fun h => h ▸ rfl⟩
  have hlonger (k : ℕ) : path ≠ generation path (k + 1) := by
    intro heq
    have hlength := congrArg List.length heq
    rw [generation, List.append_assoc, List.length_append, List.length_append] at hlength
    have hdot : (js ".").length = 1 := rfl
    omega
  cases i with
  | zero =>
    cases j with
    | zero => rfl
    | succ j => exact absurd h (hlonger j)
  | succ i =>
    cases j with
    | zero => exact absurd h.symm (hlonger i)
    | succ j =>
      rw [generation, generation, List.append_cancel_left_eq] at h
      exact digits_inj.mp (ofText_injective h)

theorem read_rename {src dst : JsString} {bytes : List UInt8} (h : disk.read src = some bytes)
    (name : JsString) : (rename disk src dst).read name =
      if name = dst then some bytes else if name = src then none else disk.read name := by
  rw [rename, h]
  dsimp only
  rw [Directory.read_write, Directory.read_delete]

/-- A generation is renamed to the next one. -/
theorem pieces_rename (path : JsString) (disk : Disk) (i : ℕ) :
    pieces path (rename disk (generation path i) (generation path (i + 1))) =
      Generations.move (pieces path disk) i := by
  funext j
  cases hread : disk.read (generation path i) with
  | none =>
    have hnone : pieces path disk i = none := hread
    rw [Generations.move, hnone, rename, hread]
    rfl
  | some bytes =>
    have hsome : pieces path disk i = some bytes := hread
    rw [Generations.move, hsome, pieces, read_rename hread]
    simp only [generation_inj, Option.isSome_some, if_true]
    rfl

theorem pieces_shiftFiles (path : JsString) (keep : ℕ) (disk : Disk) :
    pieces path (shiftFiles path keep disk) = Generations.shift keep (pieces path disk) := by
  induction keep generalizing disk with
  | zero => rfl
  | succ keep ih =>
    rw [shiftFiles, Generations.shift, ih]
    split
    · rw [pieces_rename]
    · rename_i hnone
      congr 1
      funext j
      exact (if_neg hnone).symm

/-- A rotation renames all generations, or none while the log is within its limit. -/
theorem pieces_rotateFile (maxBytes : ℕ) (path : JsString) (disk : Disk) :
    pieces path (rotateFile maxBytes path disk) = pieces path disk ∨
      pieces path (rotateFile maxBytes path disk) =
        Generations.rotate (emergencyRotateKeep - 1) (pieces path disk) := by
  rw [rotateFile]
  cases disk.read path with
  | none => exact .inl rfl
  | some bytes =>
    dsimp only
    split
    · exact .inl rfl
    · refine .inr ?_
      rw [Generations.rotate, ← pieces_shiftFiles]
      exact pieces_rename path _ 0

theorem pieces_appendFile (path : JsString) (disk : Disk) (bytes : List UInt8) :
    pieces path (appendFile disk path bytes) = Generations.append (pieces path disk) bytes := by
  funext j
  have hpath : generation path j = generation path 0 ↔ j = 0 := generation_inj
  rw [pieces, appendFile, Directory.read_write, Generations.append]
  exact if_congr hpath rfl rfl

/-! ## Calls -/

theorem candidates_explicit (cwd : Paths.WorkingDirectory) (envHome : Option JsString)
    (options : ResolveOptions) (candidate : JsString) :
    resolveEmergencyLogCandidates cwd envHome { options with explicitPaths := some [candidate] } =
      [Paths.resolve cwd [candidate]] := rfl

/-- A call may rotate the log, and then appends its line. -/
theorem writeEmergencyLog_single (maxBytes : ℕ) (path : JsString) (date : ℤ) (message : JsString)
    (disk : Disk) :
    (writeEmergencyLog maxBytes [path] date message disk).1 = some ⟨path, false⟩ ∧
      ∃ rotated, (rotated = pieces path disk ∨
          rotated = Generations.rotate (emergencyRotateKeep - 1) (pieces path disk)) ∧
        pieces path (writeEmergencyLog maxBytes [path] date message disk).2 =
          Generations.append rotated (lineOf date message) := by
  refine ⟨rfl, pieces path (rotateFile maxBytes path disk),
    pieces_rotateFile maxBytes path disk, ?_⟩
  have hwritten : (writeEmergencyLog maxBytes [path] date message disk).2 =
      appendFile (if ((rotateFile maxBytes path disk).read path).isSome then
        rotateFile maxBytes path disk
      else appendFile (rotateFile maxBytes path disk) path []) path (lineOf date message) := rfl
  rw [hwritten, pieces_appendFile]
  split
  · rfl
  · rw [pieces_appendFile, Generations.append_append, List.nil_append]

/-- The generations are made of whole lines, which are the last ones of all lines there were. -/
structure Made (path : JsString) (disk : Disk) (lines : List (List UInt8)) (kept :
    Generations.Pieces (List UInt8)) : Prop where
  files : pieces path disk = Generations.flatten kept
  suffix : Generations.contents (emergencyRotateKeep + 1) kept <:+ lines

/-- A log that is found when the first call is made counts as one line for each generation. -/
def found (path : JsString) (disk : Disk) : Generations.Pieces (List UInt8) := fun i =>
  (pieces path disk i).map fun bytes => [bytes]

def foundLines (path : JsString) (disk : Disk) : List (List UInt8) :=
  Generations.contents (emergencyRotateKeep + 1) (found path disk)

theorem flatten_found (path : JsString) (disk : Disk) :
    Generations.flatten (found path disk) = pieces path disk := by
  funext i
  rw [Generations.flatten, found]
  cases pieces path disk i with
  | none => rfl
  | some bytes => simp

theorem made_found (path : JsString) (disk : Disk) :
    Made path disk (foundLines path disk) (found path disk) :=
  ⟨(flatten_found path disk).symm, List.suffix_refl _⟩

theorem Made.write {lines : List (List UInt8)} {kept : Generations.Pieces (List UInt8)}
    (h : Made path disk lines kept) (maxBytes : ℕ) (date : ℤ) (message : JsString) :
    ∃ rotated, Made path (writeEmergencyLog maxBytes [path] date message disk).2
      (lines ++ [lineOf date message])
      (Generations.append rotated [lineOf date message]) := by
  obtain ⟨-, rotated, hrotated, hwritten⟩ :=
    writeEmergencyLog_single maxBytes path date message disk
  have hkept : ∃ kept', rotated = Generations.flatten kept' ∧
      Generations.contents (emergencyRotateKeep + 1) kept' <:+ lines := by
    rcases hrotated with rfl | rfl
    · exact ⟨kept, h.files, h.suffix⟩
    · refine ⟨Generations.rotate (emergencyRotateKeep - 1) kept, ?_, ?_⟩
      · rw [Generations.flatten_rotate, h.files]
      · exact (Generations.contents_rotate (emergencyRotateKeep - 1) kept).trans h.suffix
  obtain ⟨kept', rfl, hsuffix⟩ := hkept
  refine ⟨kept', ?_, ?_⟩
  · rw [hwritten, Generations.flatten_append]
  · rw [Generations.contents_append]
    obtain ⟨dropped, hdropped⟩ := hsuffix
    exact ⟨dropped, by rw [← hdropped, List.append_assoc]⟩

/-- What calls leave of a log and of the lines they write. -/
structure KeepsEnd (path : JsString) (before after : Disk) (lines : List (List UInt8)) :
    Prop where
  /-- Every file holds whole lines, each line once and in the order in which they were written, up
  to the last one. -/
  whole : ∃ kept : Generations.Pieces (List UInt8),
    (∀ i, after.read (generation path i) = (kept i).map List.flatten) ∧
    Generations.contents (emergencyRotateKeep + 1) kept <:+ foundLines path before ++ lines ∧
    ∀ line ∈ lines.getLast?, ∃ earlier, kept 0 = some (earlier ++ [line])
  suffix : keptBytes path after <:+ keptBytes path before ++ lines.flatten
  /-- A log that is new holds nothing but lines that were written. -/
  fresh : (∀ i, before.read (generation path i) = none) → keptBytes path after <:+ lines.flatten

theorem exists_made (maxBytes : ℕ) (path : JsString) (disk : Disk)
    (calls : List (ℤ × JsString)) :
    ∃ kept, Made path (afterCalls maxBytes [path] disk calls)
        (foundLines path disk ++ calls.map fun call => lineOf call.1 call.2) kept ∧
      ∀ call ∈ calls.getLast?, ∃ earlier, kept 0 = some (earlier ++ [lineOf call.1 call.2]) := by
  induction calls using List.reverseRecOn with
  | nil => exact ⟨found path disk, by simpa [afterCalls] using made_found path disk, by simp⟩
  | append_singleton calls call ih =>
    obtain ⟨kept, hmade, -⟩ := ih
    obtain ⟨rotated, hwritten⟩ := hmade.write maxBytes call.1 call.2
    have hafter : afterCalls maxBytes [path] disk (calls ++ [call]) =
        (writeEmergencyLog maxBytes [path] call.1 call.2
          (afterCalls maxBytes [path] disk calls)).2 := List.foldl_concat _ _ _ _
    refine ⟨Generations.append rotated [lineOf call.1 call.2], ?_,
      fun last hlast => ⟨(rotated 0).getD [], ?_⟩⟩
    · rw [hafter, List.map_append, ← List.append_assoc]
      exact hwritten
    · rw [List.getLast?_concat, Option.mem_some_iff] at hlast
      rw [Generations.append, if_pos rfl, hlast]

/-- **The emergency log.** What is kept of a log is the end of all lines that were written, whole
and in order, up to the last one, for every limit on its size. -/
theorem calls_keep_end (cwd : Paths.WorkingDirectory) (envHome : Option JsString)
    (options : ResolveOptions) (candidate : JsString) (maxBytes : ℕ) (disk : Disk)
    (calls : List (ℤ × JsString)) :
    let candidates := resolveEmergencyLogCandidates cwd envHome
      { options with explicitPaths := some [candidate] }
    let path := Paths.resolve cwd [candidate]
    KeepsEnd path disk (afterCalls maxBytes candidates disk calls)
        (calls.map fun call => lineOf call.1 call.2) ∧
      ∀ date message, (writeEmergencyLog maxBytes candidates date message
        (afterCalls maxBytes candidates disk calls)).1 = some ⟨path, false⟩ := by
  intro candidates path
  have hcandidates : candidates = [path] := candidates_explicit cwd envHome options candidate
  rw [hcandidates]
  refine ⟨?_, fun date message => (writeEmergencyLog_single maxBytes path date message _).1⟩
  obtain ⟨kept, hmade, hlast⟩ := exists_made maxBytes path disk calls
  have hbefore : keptBytes path disk = (foundLines path disk).flatten := by
    rw [keptBytes, ← flatten_found, Generations.contents_flatten, foundLines]
  have hafter : keptBytes path (afterCalls maxBytes [path] disk calls) =
      (Generations.contents (emergencyRotateKeep + 1) kept).flatten := by
    rw [keptBytes, hmade.files, Generations.contents_flatten]
  have hsuffix : keptBytes path (afterCalls maxBytes [path] disk calls) <:+
      keptBytes path disk ++ (calls.map fun call => lineOf call.1 call.2).flatten := by
    obtain ⟨dropped, hdropped⟩ := hmade.suffix
    rw [hbefore, hafter, ← List.flatten_append, ← hdropped, List.flatten_append]
    exact List.suffix_append _ _
  refine ⟨⟨kept, fun i => congrFun hmade.files i, hmade.suffix, fun line hline => ?_⟩, hsuffix,
    fun hnew => ?_⟩
  · rw [List.getLast?_map] at hline
    obtain ⟨call, hcall, rfl⟩ := Option.map_eq_some_iff.mp hline
    exact hlast call hcall
  · have hempty : keptBytes path disk = [] := by
      have hnone : pieces path disk = fun _ => none := funext hnew
      rw [keptBytes, hnone]
      rfl
    rwa [hempty, List.nil_append] at hsuffix

end MemphisOS.Runtime
