import MemphisOS.Ecma.Exceptions
import MemphisOS.Ecma.StringMethods
import MemphisOS.Files.Paths

/-!
# Where chains are kept

`resolveChainDir` turns the name of a chain into the directory of its blocks. The name is
checked, but not what the path is: the check for a symbolic link is caught where it fails.
-/

namespace MemphisOS.Chain

open Ecma Files.Paths

/-! ## The file system -/

/-- What a path names, links not followed. -/
inductive FileKind where
  | file
  | directory
  | symbolicLink (target : JsString)

/-- The paths of a file system. -/
structure PathState where
  /-- What is at a path. -/
  entry : JsString → Option FileKind
  /-- The paths that may not be examined. -/
  denied : JsString → Bool

/-- `lstatSync(path).isSymbolicLink()`. -/
def PathState.lstatIsSymbolicLink (fs : PathState) (path : JsString) : Except Unit Bool :=
  if fs.denied path then .error ()
  else
    match fs.entry path with
    | some (.symbolicLink _) => .ok true
    | some _ => .ok false
    | none => .error ()

/-- There is a symbolic link at the path. -/
def PathState.IsSymbolicLink (fs : PathState) (path : JsString) : Prop :=
  ∃ target, fs.entry path = some (.symbolicLink target)

/-- The process that resolves the names. -/
structure Process where
  cwd : WorkingDirectory
  /-- `os.homedir()`. -/
  homedir : JsString
  /-- `process.env`. -/
  env : String → Option JsString

/-- Where the entries of a directory are kept: links are followed. -/
inductive PathState.LeadsTo (fs : PathState) (cwd : WorkingDirectory) :
    JsString → JsString → Prop
  | here {path : JsString} (h : ¬fs.IsSymbolicLink path) : LeadsTo fs cwd path path
  | follow {path target location : JsString} (h : fs.entry path = some (.symbolicLink target))
      (hnext : LeadsTo fs cwd (resolve cwd [path, js "..", target]) location) :
      LeadsTo fs cwd path location

/-! ## Chain directories -/

/-- `DEFAULT_MEMPHIS_DATA_DIR`. -/
def defaultMemphisDataDir : JsString := js "~/.memphis"

def expandHome (process : Process) (input : JsString) : JsString :=
  if input = js "~" then process.homedir
  else if js "~/" <+: input then join [process.homedir, input.drop 2]
  else input

def getDataDir (process : Process) : JsString :=
  let configured := (process.env "MEMPHIS_DATA_DIR").getD
    ((process.env "MEMPHIS_DIR").getD defaultMemphisDataDir)
  resolve process.cwd [expandHome process configured]

/-- `getChainPath()`. -/
def getChainPath (process : Process) : JsString := join [getDataDir process, js "chains"]

/-- A unit of the class `[A-Za-z0-9_-]`. -/
def isSafeUnit (u : UInt16) : Bool :=
  (0x41 ≤ u.toNat && u.toNat ≤ 0x5A) || (0x61 ≤ u.toNat && u.toNat ≤ 0x7A) ||
    (0x30 ≤ u.toNat && u.toNat ≤ 0x39) || u.toNat = 0x5F || u.toNat = 0x2D

/-- `SAFE_CHAIN_NAME.test(name)`. -/
def safeChainName (name : JsString) : Bool :=
  name.all isSafeUnit && 1 ≤ name.length && name.length ≤ 64

def invalidChainName : String := "invalid chain name"

def resolveChainDir (process : Process) (fs : PathState) (chainName : JsString) :
    Except JsString JsString := do
  let normalized := chainName.trim
  check (normalized ≠ []) invalidChainName
  check (0 ∉ chainName) invalidChainName
  check (¬(js ".." <:+: normalized ∨ js "/" <:+: normalized ∨ js "\\" <:+: normalized))
    invalidChainName
  check (safeChainName normalized) invalidChainName
  let baseDir := resolve process.cwd [getChainPath process]
  let targetDir := resolve process.cwd [baseDir, normalized]
  check (targetDir = baseDir ∨ baseDir ++ [sep] <+: targetDir) invalidChainName
  tryCatch
    (match fs.lstatIsSymbolicLink targetDir with
      | .ok isSymbolicLink => check (!isSymbolicLink) invalidChainName
      | .error () => .error [])
    -- Missing paths are ignored, and so is the error that was just thrown.
    fun _ => .ok ()
  return targetDir

/-! ## Which directory is returned -/

variable {process : Process} {fs : PathState} {chainName name : JsString}

/-- The directory the chains are kept in. -/
def baseDir (process : Process) : JsString := resolve process.cwd [getChainPath process]

/-- The name passes the checks. -/
def AcceptedName (chainName : JsString) : Prop :=
  0 ∉ chainName ∧ safeChainName chainName.trim = true

instance : DecidablePred AcceptedName := fun _ => inferInstanceAs (Decidable (_ ∧ _))

theorem isSegment_chains : IsSegment (js "chains") :=
  ⟨by decide, by decide, by decide, by decide⟩

/-- The base directory is the directory of chains in the data directory. -/
theorem exists_baseDir_eq (process : Process) : ∃ segments, segments ≠ [] ∧
    (∀ s ∈ segments, IsSegment s) ∧ baseDir process = ofSegments segments := by
  obtain ⟨segments, hsegments, hdata⟩ := exists_resolve_eq process.cwd
    [expandHome process ((process.env "MEMPHIS_DATA_DIR").getD
      ((process.env "MEMPHIS_DIR").getD defaultMemphisDataDir))]
  have hall : ∀ s ∈ segments ++ [js "chains"], IsSegment s := by
    intro s hs
    rcases List.mem_append.mp hs with hs | hs
    · exact hsegments s hs
    · exact List.mem_singleton.mp hs ▸ isSegment_chains
  refine ⟨segments ++ [js "chains"], List.concat_ne_nil _ _, hall, ?_⟩
  have hdata : getDataDir process = ofSegments segments := hdata
  rw [baseDir, getChainPath, hdata, join_child hsegments isSegment_chains, resolve_ofSegments hall]

/-- What a checked name consists of. -/
theorem isSafeUnit_of_mem {u : UInt16} (h : safeChainName name = true) (hu : u ∈ name) :
    isSafeUnit u = true := by
  rw [safeChainName, Bool.and_eq_true, Bool.and_eq_true] at h
  exact List.all_eq_true.mp h.1.1 u hu

theorem isSegment_of_safeChainName (h : safeChainName name = true) : IsSegment name := by
  have hmem := fun u => isSafeUnit_of_mem (u := u) h
  refine ⟨?_, fun hsep => absurd (hmem sep hsep) (by decide), ?_, ?_⟩
  · rintro rfl
    cases h
  · rintro rfl
    exact absurd h (by decide)
  · rintro rfl
    exact absurd h (by decide)

/-- The searches before the pattern find nothing that it accepts. -/
theorem not_infix_of_safeChainName {part : JsString} {u : UInt16} (h : safeChainName name = true)
    (hu : u ∈ part) (hfails : isSafeUnit u = false) : ¬part <:+: name := by
  intro hpart
  rw [isSafeUnit_of_mem h (hpart.subset hu)] at hfails
  cases hfails

/-- **The result of `resolveChainDir`.** It depends on the name only. -/
theorem resolveChainDir_eq (process : Process) (fs : PathState) (chainName : JsString) :
    resolveChainDir process fs chainName =
      if AcceptedName chainName then .ok (baseDir process ++ sep :: chainName.trim)
      else .error (js invalidChainName) := by
  by_cases haccepted : AcceptedName chainName
  · obtain ⟨hzero, hsafe⟩ := haccepted
    have hname := isSegment_of_safeChainName hsafe
    have hfound : ¬(js ".." <:+: chainName.trim ∨ js "/" <:+: chainName.trim ∨
        js "\\" <:+: chainName.trim) := by
      rintro (h | h | h)
      · exact not_infix_of_safeChainName hsafe (u := 0x2E) (by decide) (by decide) h
      · exact not_infix_of_safeChainName hsafe (u := 0x2F) (by decide) (by decide) h
      · exact not_infix_of_safeChainName hsafe (u := 0x5C) (by decide) (by decide) h
    obtain ⟨segments, hne, hsegments, hbase⟩ := exists_baseDir_eq process
    have htarget : resolve process.cwd [baseDir process, chainName.trim] =
        baseDir process ++ sep :: chainName.trim := by
      rw [hbase, resolve_child hsegments hname, ofSegments_concat hne]
    have hpre : baseDir process ++ [sep] <+: baseDir process ++ sep :: chainName.trim :=
      ⟨chainName.trim, by rw [List.append_assoc]; rfl⟩
    -- Whatever `lstatSync` tells, nothing is thrown.
    have hcaught : (tryCatch
        (match fs.lstatIsSymbolicLink (baseDir process ++ sep :: chainName.trim) with
          | .ok isSymbolicLink => check (!isSymbolicLink) invalidChainName
          | .error () => .error []) fun _ => .ok () : Except JsString Unit) = .ok () := by
      rcases fs.lstatIsSymbolicLink (baseDir process ++ sep :: chainName.trim) with _ | _ | _ <;> rfl
    have hbaseDir : resolve process.cwd [getChainPath process] = baseDir process := rfl
    rw [if_pos ⟨hzero, hsafe⟩, resolveChainDir]
    dsimp only
    rw [hbaseDir, htarget, decide_eq_true hname.ne_nil, decide_eq_true hzero,
      decide_eq_true hfound, hsafe, decide_eq_true (.inr hpre), hcaught]
    rfl
  · rw [if_neg haccepted, resolveChainDir]
    dsimp only
    by_cases hnil : chainName.trim ≠ []
    · by_cases hzero : 0 ∉ chainName
      · have hsafe : safeChainName chainName.trim = false :=
          Bool.eq_false_iff.mpr fun hsafe => haccepted ⟨hzero, hsafe⟩
        rw [decide_eq_true hnil, decide_eq_true hzero, hsafe]
        by_cases hfound : ¬(js ".." <:+: chainName.trim ∨ js "/" <:+: chainName.trim ∨
          js "\\" <:+: chainName.trim)
        · rw [decide_eq_true hfound]
          rfl
        · rw [decide_eq_false hfound]
          rfl
      · rw [decide_eq_true hnil, decide_eq_false hzero]
        rfl
    · rw [decide_eq_false hnil]
      rfl

/-! ## Confinement -/

/-- The path is a direct child of the base directory and no link, and the files of the chain are
kept inside the base directory. -/
structure Confined (process : Process) (fs : PathState) (path : JsString) : Prop where
  child : ∃ name, IsSegment name ∧ path = baseDir process ++ sep :: name
  notLink : ¬fs.IsSymbolicLink path
  inside : ∀ location file, fs.LeadsTo process.cwd path location →
    baseDir process ++ [sep] <+: location ++ sep :: file

/-- A child that is no link is where it says it is. -/
theorem confined_of_notLink (hname : IsSegment name)
    (h : ¬fs.IsSymbolicLink (baseDir process ++ sep :: name)) :
    Confined process fs (baseDir process ++ sep :: name) where
  child := ⟨name, hname, rfl⟩
  notLink := h
  inside := by
    intro location file hleads
    cases hleads with
    | here _ => exact ⟨name ++ sep :: file, by simp⟩
    | follow hlink _ => exact absurd ⟨_, hlink⟩ h

/-- **Chain directories are confined where no link is.** A returned path is confined exactly when
the name is rejected or its directory is no symbolic link. -/
theorem confined_iff (process : Process) (fs : PathState) (chainName : JsString) :
    (∀ path, resolveChainDir process fs chainName = .ok path → Confined process fs path) ↔
      (AcceptedName chainName → ¬fs.IsSymbolicLink (baseDir process ++ sep :: chainName.trim)) := by
  rw [resolveChainDir_eq]
  constructor
  · intro h haccepted
    rw [if_pos haccepted] at h
    exact (h _ rfl).notLink
  · intro h path hpath
    by_cases haccepted : AcceptedName chainName
    · rw [if_pos haccepted] at hpath
      cases hpath
      exact confined_of_notLink (isSegment_of_safeChainName haccepted.2) (h haccepted)
    · rw [if_neg haccepted] at hpath
      cases hpath

/-! ## A link that is returned -/

/-- A process with the default settings. -/
def sampleProcess : Process := ⟨⟨js "/", rfl⟩, js "/home/ada", fun _ => none⟩

/-- The directory of the journal is a link to another place. -/
def sampleLinks : PathState where
  entry path := if path = baseDir sampleProcess ++ sep :: js "journal" then
    some (.symbolicLink (js "/etc")) else none
  denied _ := false

/-- The link is returned. -/
theorem linked_chain_returned : ∃ path,
    resolveChainDir sampleProcess sampleLinks (js "journal") = .ok path ∧
      ¬Confined sampleProcess sampleLinks path := by
  have haccepted : AcceptedName (js "journal") := by decide
  have hname : (js "journal").trim = js "journal" := by decide
  have hentry : sampleLinks.entry (baseDir sampleProcess ++ sep :: js "journal") =
      some (.symbolicLink (js "/etc")) := by
    simp only [sampleLinks, if_true]
  refine ⟨_, (resolveChainDir_eq _ _ _).trans (if_pos haccepted), fun h => h.notLink ?_⟩
  rw [hname]
  exact ⟨_, hentry⟩

end MemphisOS.Chain
