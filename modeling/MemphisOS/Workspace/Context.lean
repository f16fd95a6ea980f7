import MemphisOS.Ecma.StringMethods
import MemphisOS.Ecma.Transparency
import MemphisOS.Files.Paths

/-!
# The managed context of a workspace

Guide files of a workspace hold a block between two markers. It is rendered from the context of
the workspace and replaced when the context is synchronised.
-/

namespace MemphisOS.Workspace

open Ecma Sequences

/-- `MANAGED_BLOCK_START`, as a text. -/
def startMarker : Text := "<!-- memphis:context:start -->".toList

/-- `MANAGED_BLOCK_END`, as a text. -/
def endMarker : Text := "<!-- memphis:context:end -->".toList

def managedBlockStart : JsString := ofText startMarker

def managedBlockEnd : JsString := ofText endMarker

/-! ## Contexts -/

/-- `z.string().min(1)`. -/
abbrev NonEmptyString := { s : JsString // s ≠ [] }

structure WorkspaceDirectories where
  memory : NonEmptyString
  notes : NonEmptyString
  apps : NonEmptyString

/-- A context that `workspaceContextSchema` accepts. -/
structure WorkspaceContext where
  workspaceName : NonEmptyString
  purpose : NonEmptyString
  directories : WorkspaceDirectories
  preferredFormats : { formats : List NonEmptyString // formats ≠ [] }
  rules : { rules : List NonEmptyString // rules ≠ [] }

/-- The lines of the managed block between its markers. -/
def contextLines (context : WorkspaceContext) : List JsString :=
  [js "## Memphis Workspace Context",
    [],
    js "- workspace: `" ++ context.workspaceName ++ js "`",
    js "- purpose: " ++ context.purpose,
    js "- notes dir: `" ++ context.directories.notes ++ js "/`",
    js "- memory dir: `" ++ context.directories.memory ++ js "/`",
    js "- apps dir: `" ++ context.directories.apps ++ js "/`",
    js "- preferred formats: `" ++
      (js ", ").intercalate (context.preferredFormats.val.map Subtype.val) ++ js "`",
    [],
    js "## Working Rules"] ++
  context.rules.val.map fun rule => js "- " ++ rule

def renderManagedContextBlock (context : WorkspaceContext) : JsString :=
  (js "\n").intercalate (managedBlockStart :: contextLines context ++ [managedBlockEnd])

/-- The files that hold a managed block. -/
inductive TargetFile where
  | agents
  | claude
  deriving DecidableEq

def TargetFile.text : TargetFile → JsString
  | agents => js "AGENTS.md"
  | claude => js "CLAUDE.md"

def renderManagedContextFile (targetFile : TargetFile) (context : WorkspaceContext) : JsString :=
  let title :=
    match targetFile with
    | .agents => js "# Workspace Agent Guide"
    | .claude => js "# Claude Workspace Context"
  let intro :=
    match targetFile with
    | .agents => js "This file contains Memphis-managed workspace context for agent tools."
    | .claude =>
      js "This file contains Memphis-managed workspace context for Claude-style coding agents."
  (js "\n").intercalate
    [title, [], intro, [], renderManagedContextBlock context, [], js "## Local Notes", [],
      js "Add tool-specific notes below this line. Memphis only manages the block above.", []]

/-! ## Synchronising a file -/

inductive StatusKind where
  | directory
  | file
  deriving DecidableEq

inductive MutationStatus where
  | created
  | updated
  | kept
  | skipped
  deriving DecidableEq

structure WorkspaceStatus where
  path : JsString
  kind : StatusKind
  status : MutationStatus
  detail : JsString

/-- `existing.replace(pattern, template)`, where the pattern is the two markers with
`[\s\S]*?` between them. -/
def replaceManagedBlock (existing template : JsString) : JsString :=
  match firstBlock managedBlockStart managedBlockEnd existing with
  | none => existing
  | some (before, inside, after) =>
    before ++
      JsString.getSubstitution before (managedBlockStart ++ inside ++ managedBlockEnd) after
        template ++ after

/-- A file with both markers somewhere. -/
def IsManaged (existing : JsString) : Prop :=
  managedBlockStart <:+: existing ∧ managedBlockEnd <:+: existing

instance (existing : JsString) : Decidable (IsManaged existing) :=
  inferInstanceAs (Decidable (_ ∧ _))

/-- `syncManagedContextFile`: the bytes of the file afterwards, and the status that is added.
There is no file before when `file` is `none`. -/
def syncManagedContextFile (root : JsString) (targetFile : TargetFile)
    (context : WorkspaceContext) (force : Bool) (file : Option (List UInt8)) :
    List UInt8 × WorkspaceStatus :=
  let filePath := Files.Paths.join [root, targetFile.text]
  let rendered := renderManagedContextFile targetFile context
  let report := fun status detail =>
    (⟨filePath, .file, status, targetFile.text ++ js detail⟩ : WorkspaceStatus)
  match file with
  | none => (writeText rendered, report .created " created from Memphis workspace template")
  | some bytes =>
    let existing := readText bytes
    if IsManaged existing then
      let next := replaceManagedBlock existing (renderManagedContextBlock context)
      if next = existing then (bytes, report .kept " already in sync")
      else (writeText next, report .updated " Memphis-managed block updated")
    else if force then
      (writeText rendered, report .updated " overwritten because --force was set")
    else
      (bytes, report .skipped
        " exists without Memphis markers; rerun with --force to overwrite")

/-! ## The markers -/

/-- The markers as they stand in the bytes of a file. -/
def startBytes : List UInt8 := encodeUtf8 startMarker

def endBytes : List UInt8 := encodeUtf8 endMarker

theorem isAsciiMarker_start : IsAsciiMarker startMarker where
  marker := ⟨'<', _, rfl, by decide⟩
  ascii := by
    have hall : startMarker.all (fun c => c.toNat < 0x80) = true := rfl
    exact fun c hc => of_decide_eq_true (List.all_eq_true.mp hall c hc)

theorem isAsciiMarker_end : IsAsciiMarker endMarker where
  marker := ⟨'<', _, rfl, by decide⟩
  ascii := by
    have hall : endMarker.all (fun c => c.toNat < 0x80) = true := rfl
    exact fun c hc => of_decide_eq_true (List.all_eq_true.mp hall c hc)

theorem firstBlock_eq_some_iff {existing before inside after : JsString} :
    firstBlock managedBlockStart managedBlockEnd existing = some (before, inside, after) ↔
      IsBlock managedBlockStart managedBlockEnd existing before inside after :=
  Sequences.firstBlock_eq_some_iff isAsciiMarker_start.units isAsciiMarker_end.units

/-- What the rendered block holds between its markers. -/
def managedBody (context : WorkspaceContext) : JsString :=
  js "\n" ++ (js "\n").intercalate (contextLines context) ++ js "\n"

theorem renderManagedContextBlock_eq (context : WorkspaceContext) :
    renderManagedContextBlock context =
      managedBlockStart ++ managedBody context ++ managedBlockEnd := by
  have hlines : contextLines context ≠ [] := List.cons_ne_nil _ _
  rw [renderManagedContextBlock, Files.Paths.intercalate_concat (List.cons_ne_nil _ _),
    List.intercalate_cons_of_ne_nil hlines, managedBody]
  simp only [List.append_assoc]

theorem start_plain :
    managedBlockStart.all (fun u => !JsString.isReferenceUnit u) = true := rfl

theorem end_plain : managedBlockEnd.all (fun u => !JsString.isReferenceUnit u) = true := rfl

/-- The end marker stands for itself in a template. -/
theorem getSubstitution_end (before matched after x y : JsString) :
    JsString.getSubstitution before matched after (x ++ (managedBlockEnd ++ y)) =
      JsString.getSubstitution before matched after x ++
        (managedBlockEnd ++ JsString.getSubstitution before matched after y) :=
  JsString.getSubstitution_append_append end_plain isAsciiMarker_end.units.ne_nil x y

/-- Markers around a template stay around what it stands for. -/
theorem getSubstitution_enclosed (before matched after body : JsString) :
    JsString.getSubstitution before matched after
        (managedBlockStart ++ body ++ managedBlockEnd) =
      managedBlockStart ++ JsString.getSubstitution before matched after body ++
        managedBlockEnd := by
  have hstart := @JsString.getSubstitution_append_append before matched after _ start_plain
    isAsciiMarker_start.units.ne_nil [] (body ++ managedBlockEnd)
  have hend := getSubstitution_end before matched after body []
  rw [List.append_nil, JsString.getSubstitution, List.append_nil] at hend
  rw [List.nil_append, JsString.getSubstitution, List.nil_append] at hstart
  rw [List.append_assoc, hstart, hend, List.append_assoc]

/-! ## What a synchronisation does -/

/-- What takes the place of a block that lies between these parts of a file. -/
def blockAfter (context : WorkspaceContext) (before inside after : JsString) : JsString :=
  JsString.getSubstitution before (managedBlockStart ++ inside ++ managedBlockEnd) after
    (renderManagedContextBlock context)

variable {root : JsString} {targetFile : TargetFile} {context : WorkspaceContext} {force : Bool}
  {bytes : List UInt8} {before inside after : JsString}

theorem isManaged_of_isBlock {existing : JsString}
    (h : IsBlock managedBlockStart managedBlockEnd existing before inside after) :
    IsManaged existing := by
  constructor
  · rw [h.eq_append]
    exact List.infix_append' _ _ _
  · have heq : existing =
        (before ++ managedBlockStart ++ inside) ++ (managedBlockEnd ++ after) := by
      rw [h.eq_append]
      simp only [List.append_assoc]
    rw [heq]
    exact List.infix_append' _ _ _

/-- A file with both markers and no block between them is reported to be in sync. -/
theorem sync_no_block (hmanaged : IsManaged (readText bytes))
    (hnone : firstBlock managedBlockStart managedBlockEnd (readText bytes) = none) :
    (syncManagedContextFile root targetFile context force (some bytes)).1 = bytes ∧
      (syncManagedContextFile root targetFile context force (some bytes)).2.status = .kept := by
  have hnext : replaceManagedBlock (readText bytes) (renderManagedContextBlock context) =
      readText bytes := by
    rw [replaceManagedBlock, hnone]
  rw [syncManagedContextFile]
  dsimp only
  rw [if_pos hmanaged, if_pos hnext]
  exact ⟨rfl, rfl⟩

/-- A block in its place already is kept. -/
theorem sync_kept
    (h : IsBlock managedBlockStart managedBlockEnd (readText bytes) before inside after)
    (hsame : blockAfter context before inside after =
      managedBlockStart ++ inside ++ managedBlockEnd) :
    (syncManagedContextFile root targetFile context force (some bytes)).1 = bytes ∧
      (syncManagedContextFile root targetFile context force (some bytes)).2.status = .kept := by
  have hnext : replaceManagedBlock (readText bytes) (renderManagedContextBlock context) =
      readText bytes := by
    rw [replaceManagedBlock, firstBlock_eq_some_iff.mpr h]
    exact (congrArg (before ++ · ++ after) hsame).trans h.eq.symm
  rw [syncManagedContextFile]
  dsimp only
  rw [if_pos (isManaged_of_isBlock h), if_pos hnext]
  exact ⟨rfl, rfl⟩

/-- Another block is replaced. -/
theorem sync_updated
    (h : IsBlock managedBlockStart managedBlockEnd (readText bytes) before inside after)
    (hother : blockAfter context before inside after ≠
      managedBlockStart ++ inside ++ managedBlockEnd) :
    (syncManagedContextFile root targetFile context force (some bytes)).1 =
        writeText (before ++ blockAfter context before inside after ++ after) ∧
      (syncManagedContextFile root targetFile context force (some bytes)).2.status =
        .updated := by
  have hnext : replaceManagedBlock (readText bytes) (renderManagedContextBlock context) =
      before ++ blockAfter context before inside after ++ after := by
    rw [replaceManagedBlock, firstBlock_eq_some_iff.mpr h]
    rfl
  have hne : before ++ blockAfter context before inside after ++ after ≠ readText bytes := by
    rw [h.eq]
    exact fun heq => hother (List.append_cancel_left (List.append_cancel_right heq))
  rw [syncManagedContextFile]
  dsimp only
  rw [if_pos (isManaged_of_isBlock h), hnext, if_neg hne]
  exact ⟨rfl, rfl⟩

/-- A block is reported as kept when it takes its own place. -/
theorem status_eq_kept_iff
    (h : IsBlock managedBlockStart managedBlockEnd (readText bytes) before inside after) :
    (syncManagedContextFile root targetFile context force (some bytes)).2.status = .kept ↔
      blockAfter context before inside after = managedBlockStart ++ inside ++ managedBlockEnd := by
  refine ⟨fun hkept => ?_, fun hsame => (sync_kept h hsame).2⟩
  by_contra hother
  rw [(sync_updated h hother).2] at hkept
  cases hkept

end MemphisOS.Workspace
