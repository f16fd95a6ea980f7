import MemphisOS.Workspace.Context

/-!
# Synchronised blocks

A file keeps its own text around the managed block, the block is the rendered one and a second
synchronisation finds nothing to do. This is so when the rendered block means itself as a
replacement template and can be found again, and the rest of the file can be read.
-/

namespace MemphisOS.Workspace

open Ecma Sequences

variable {root : JsString} {targetFile : TargetFile} {context : WorkspaceContext} {force : Bool}
  {bytes before inside after : List UInt8}

/-- The first managed block of a file. -/
abbrev IsFileBlock (bytes before inside after : List UInt8) : Prop :=
  IsBlock startBytes endBytes bytes before inside after

theorem IsFileBlock.read (h : IsFileBlock bytes before inside after) :
    IsBlock managedBlockStart managedBlockEnd (readText bytes) (readText before)
      (readText inside) (readText after) :=
  h.carry readText_eq_nil isAsciiMarker_start.readText isAsciiMarker_end.readText

/-- The file after a synchronisation: nothing around its first block has changed, the block reads
as the rendered one, and the next synchronisation keeps it. -/
def SyncsBlock (root : JsString) (targetFile : TargetFile) (context : WorkspaceContext)
    (force : Bool) (bytes : List UInt8) : Prop :=
  ∃ before inside after block, IsFileBlock bytes before inside after ∧
    (syncManagedContextFile root targetFile context force (some bytes)).1 =
      before ++ block ++ after ∧
    readText block = renderManagedContextBlock context ∧
    (syncManagedContextFile root targetFile context force
      (some (syncManagedContextFile root targetFile context force (some bytes)).1)).2.status =
        .kept ∧
    (syncManagedContextFile root targetFile context force
      (some (syncManagedContextFile root targetFile context force (some bytes)).1)).1 =
        (syncManagedContextFile root targetFile context force (some bytes)).1

/-- A block that can be synchronised. -/
structure CanSync (context : WorkspaceContext) (before inside after : List UInt8) : Prop where
  /-- The rendered block means itself as a replacement template between the other parts. -/
  template : JsString.getSubstitution (readText before) (renderManagedContextBlock context)
    (readText after) (renderManagedContextBlock context) = renderManagedContextBlock context
  /-- It ends where its end marker is first found. -/
  one_end : ¬ managedBlockEnd <:+: managedBody context
  /-- It holds no lone surrogates. -/
  units : ofText (wellFormed (renderManagedContextBlock context)) =
    renderManagedContextBlock context
  /-- The other parts are well-formed UTF-8, unless there is nothing to write. -/
  bytes : (IsUtf8 before ∧ IsUtf8 after) ∨
    readText (startBytes ++ inside ++ endBytes) = renderManagedContextBlock context

theorem readText_enclosed (inside : List UInt8) :
    readText (startBytes ++ inside ++ endBytes) =
      managedBlockStart ++ readText inside ++ managedBlockEnd :=
  Carries.enclosed readText_eq_nil isAsciiMarker_start.readText isAsciiMarker_end.readText inside

theorem writeText_enclosed (body : JsString) :
    writeText (managedBlockStart ++ body ++ managedBlockEnd) =
      startBytes ++ writeText body ++ endBytes :=
  Carries.enclosed writeText_eq_nil isAsciiMarker_start.writeText isAsciiMarker_end.writeText body

theorem readText_surrounded (before inside after : List UInt8) :
    readText (before ++ (startBytes ++ inside ++ endBytes) ++ after) =
      readText before ++ readText (startBytes ++ inside ++ endBytes) ++ readText after :=
  Carries.surrounded readText_eq_nil isAsciiMarker_start.readText isAsciiMarker_end.readText
    before inside after

theorem writeText_surrounded (before body after : JsString) :
    writeText (before ++ (managedBlockStart ++ body ++ managedBlockEnd) ++ after) =
      writeText before ++ writeText (managedBlockStart ++ body ++ managedBlockEnd) ++
        writeText after :=
  Carries.surrounded writeText_eq_nil isAsciiMarker_start.writeText isAsciiMarker_end.writeText
    before body after

/-! ## Templates that mean themselves -/

/-- What the rendered block stands for has the markers of the block. -/
theorem getSubstitution_rendered (context : WorkspaceContext) (before matched after : JsString) :
    JsString.getSubstitution before matched after (renderManagedContextBlock context) =
      managedBlockStart ++ JsString.getSubstitution before matched after (managedBody context) ++
        managedBlockEnd := by
  rw [renderManagedContextBlock_eq, getSubstitution_enclosed]

/-- A rendered block that means itself does not refer to the match: it would be a part of
itself, between its own markers. -/
theorem getSubstitution_congr {before after : JsString}
    (h : JsString.getSubstitution before (renderManagedContextBlock context) after
      (renderManagedContextBlock context) = renderManagedContextBlock context)
    (matched : JsString) :
    JsString.getSubstitution before matched after (renderManagedContextBlock context) =
      renderManagedContextBlock context := by
  rcases JsString.getSubstitution_matched before (renderManagedContextBlock context) after
    (managedBody context) with hsame | hin
  · rw [getSubstitution_rendered, hsame, ← getSubstitution_rendered, h]
  · have hle := hin.length_le
    have hstart : 0 < managedBlockStart.length :=
      List.length_pos_iff.mpr isAsciiMarker_start.units.ne_nil
    have hlength := congrArg List.length h
    rw [getSubstitution_rendered, List.length_append, List.length_append] at hlength
    omega

/-! ## The next synchronisation -/

variable {block : List UInt8}

/-- A part that reads as the rendered block has the markers around it. -/
theorem enclosed_of_readText (hread : readText block = renderManagedContextBlock context) :
    ∃ inner, block = startBytes ++ inner ++ endBytes ∧ readText inner = managedBody context :=
  Carries.of_enclosed readText_eq_nil isAsciiMarker_start.readText isAsciiMarker_end.readText
    (hread.trans (renderManagedContextBlock_eq context))

/-- How the file reads with the rendered block in it. -/
theorem readText_synced (hread : readText block = renderManagedContextBlock context)
    (before after : List UInt8) :
    readText (before ++ block ++ after) =
      readText before ++ (managedBlockStart ++ managedBody context ++ managedBlockEnd) ++
        readText after := by
  obtain ⟨inner, rfl, hinner⟩ := enclosed_of_readText hread
  rw [readText_surrounded, readText_enclosed, hinner]

/-- The rendered block is found again when there is no end marker in it. -/
theorem isBlock_synced (h : IsFileBlock bytes before inside after)
    (hread : readText block = renderManagedContextBlock context)
    (hend : ¬ managedBlockEnd <:+: managedBody context) :
    IsBlock managedBlockStart managedBlockEnd (readText (before ++ block ++ after))
      (readText before) (managedBody context) (readText after) :=
  ⟨readText_synced hread before after, h.read.before, hend⟩

/-- A block with an end marker in it is cut off at that marker, and replaced once more. -/
theorem one_end_of_kept (h : IsFileBlock bytes before inside after)
    (hread : readText block = renderManagedContextBlock context)
    (hkept : (syncManagedContextFile root targetFile context force
      (some (before ++ block ++ after))).2.status = .kept) :
    ¬ managedBlockEnd <:+: managedBody context := by
  intro hin
  have hne : managedBlockEnd ≠ [] := isAsciiMarker_end.units.ne_nil
  obtain ⟨x, y, hbody, hx⟩ := exists_first hne hin
  have hcut : IsBlock managedBlockStart managedBlockEnd (readText (before ++ block ++ after))
      (readText before) x (y ++ (managedBlockEnd ++ readText after)) := by
    refine ⟨?_, h.read.before, hx⟩
    rw [readText_synced hread, hbody]
    simp only [List.append_assoc]
  have hsame := (status_eq_kept_iff hcut).mp hkept
  rw [blockAfter, getSubstitution_rendered, hbody, getSubstitution_end] at hsame
  generalize JsString.getSubstitution _ _ _ x = x', JsString.getSubstitution _ _ _ y = y' at hsame
  have htail : x' ++ (managedBlockEnd ++ (y' ++ managedBlockEnd)) = x ++ managedBlockEnd := by
    simpa only [List.append_assoc, List.append_cancel_left_eq] using hsame
  have hlength := congrArg List.length htail
  have hpos := List.length_pos_iff.mpr hne
  simp only [List.length_append] at hlength
  have hpre : x' ++ managedBlockEnd <+: x := by
    have hleft : x' ++ managedBlockEnd <+: x ++ managedBlockEnd := by
      rw [← htail, ← List.append_assoc]
      exact List.prefix_append _ _
    exact List.prefix_of_prefix_length_le hleft (List.prefix_append x managedBlockEnd)
      (by rw [List.length_append]; omega)
  exact hx ((List.suffix_append x' managedBlockEnd).isInfix.trans hpre.isInfix)

/-- The next synchronisation keeps a block that means itself. -/
theorem kept_iff (h : IsFileBlock bytes before inside after)
    (hread : readText block = renderManagedContextBlock context)
    (hend : ¬ managedBlockEnd <:+: managedBody context) :
    (syncManagedContextFile root targetFile context force
        (some (before ++ block ++ after))).2.status = .kept ↔
      JsString.getSubstitution (readText before) (renderManagedContextBlock context)
        (readText after) (renderManagedContextBlock context) =
          renderManagedContextBlock context := by
  rw [status_eq_kept_iff (isBlock_synced h hread hend), blockAfter,
    ← renderManagedContextBlock_eq]

/-! ## What makes a block synchronised -/

/-- Where the file was written, the rest of it was well formed. -/
theorem isUtf8_of_written (h : IsFileBlock bytes before inside after) {body : JsString}
    (hread : readText block = renderManagedContextBlock context)
    (hfile : writeText (readText before ++ (managedBlockStart ++ body ++ managedBlockEnd) ++
      readText after) = before ++ block ++ after) :
    IsUtf8 before ∧ IsUtf8 after := by
  obtain ⟨inner, rfl, hinner⟩ := enclosed_of_readText hread
  have hstart : ¬ startBytes <:+: writeText (readText before) := fun hin =>
    h.read.before (isAsciiMarker_start.writeText.occurs hin)
  rw [writeText_surrounded, writeText_enclosed] at hfile
  simp only [List.append_assoc] at hfile
  -- The start marker is the first one in both files, so the texts before it agree.
  obtain ⟨hbefore, hrest⟩ := isAsciiMarker_start.bytes.first_unique hfile hstart h.before
  have hend : Carries readText endBytes managedBlockEnd := isAsciiMarker_end.readText
  have hbody : readText (writeText body) = readText inner := by
    have hreads := congrArg readText hrest
    rw [hend.append, hend.append, readText_writeText_readText] at hreads
    exact List.append_cancel_right hreads
  obtain ⟨-, hafter⟩ := hend.eq_of_append_eq readText_eq_nil hrest hbody
  rw [writeText_readText] at hbefore hafter
  exact ⟨hbefore, hafter⟩

/-- A file in which the rendered block was put can be synchronised again. -/
theorem SyncsBlock.of_file (h : IsFileBlock bytes before inside after)
    (hcan : CanSync context before inside after)
    (hfile : (syncManagedContextFile root targetFile context force (some bytes)).1 =
      before ++ block ++ after)
    (hread : readText block = renderManagedContextBlock context) :
    SyncsBlock root targetFile context force bytes := by
  have hkept : (syncManagedContextFile root targetFile context force
      (some (before ++ block ++ after))).2.status = .kept :=
    (kept_iff h hread hcan.one_end).mpr hcan.template
  have hsame := (status_eq_kept_iff (isBlock_synced h hread hcan.one_end)).mp hkept
  refine ⟨before, inside, after, block, h, hfile, hread, hfile ▸ hkept, ?_⟩
  rw [hfile]
  exact (sync_kept (isBlock_synced h hread hcan.one_end) hsame).1

/-- What is written where the rest of the file is well formed. -/
theorem writeText_rendered (hbefore : IsUtf8 before) (hafter : IsUtf8 after) :
    writeText (readText before ++ renderManagedContextBlock context ++ readText after) =
      before ++ writeText (renderManagedContextBlock context) ++ after := by
  rw [renderManagedContextBlock_eq, writeText_surrounded, writeText_readText, writeText_readText,
    hbefore, hafter]

/-- A file that is synchronised has a block that can be. -/
theorem SyncsBlock.canSync (h : SyncsBlock root targetFile context force bytes) :
    ∃ before inside after, IsFileBlock bytes before inside after ∧
      CanSync context before inside after := by
  obtain ⟨before, inside, after, block, h, hfile, hread, hkept, -⟩ := h
  refine ⟨before, inside, after, h, ?_⟩
  rw [hfile] at hkept
  have hend := one_end_of_kept h hread hkept
  refine ⟨(kept_iff h hread hend).mp hkept, hend, ?_, ?_⟩
  · rw [← hread, ← readText_writeText, readText_writeText_readText]
  · by_cases hsame : blockAfter context (readText before) (readText inside) (readText after) =
      managedBlockStart ++ readText inside ++ managedBlockEnd
    · rw [(sync_kept h.read hsame).1, h.eq] at hfile
      rw [List.append_cancel_left (List.append_cancel_right hfile)]
      exact .inr hread
    · rw [(sync_updated h.read hsame).1, blockAfter, getSubstitution_rendered] at hfile
      exact .inl (isUtf8_of_written h hread hfile)

/-- A block that can be synchronised is. -/
theorem CanSync.syncsBlock (h : IsFileBlock bytes before inside after)
    (hcan : CanSync context before inside after) :
    SyncsBlock root targetFile context force bytes := by
  have hrendered : blockAfter context (readText before) (readText inside) (readText after) =
      renderManagedContextBlock context := getSubstitution_congr hcan.template _
  by_cases hsame : renderManagedContextBlock context =
    managedBlockStart ++ readText inside ++ managedBlockEnd
  · refine .of_file h hcan ((sync_kept h.read (hrendered.trans hsame)).1.trans h.eq) ?_
    exact (readText_enclosed inside).trans hsame.symm
  · have hother : blockAfter context (readText before) (readText inside) (readText after) ≠
        managedBlockStart ++ readText inside ++ managedBlockEnd := hrendered ▸ hsame
    obtain ⟨hbefore, hafter⟩ := hcan.bytes.resolve_right fun hread =>
      hsame (hread.symm.trans (readText_enclosed inside))
    refine .of_file h hcan ?_ ((readText_writeText _).trans hcan.units)
    rw [(sync_updated h.read hother).1, hrendered, writeText_rendered hbefore hafter]

/-- **A synchronised block.** A file is synchronised exactly when it has a block that can be. -/
theorem syncsBlock_iff (root : JsString) (targetFile : TargetFile) (context : WorkspaceContext)
    (force : Bool) (bytes : List UInt8) :
    SyncsBlock root targetFile context force bytes ↔
      ∃ before inside after, IsFileBlock bytes before inside after ∧
        CanSync context before inside after :=
  ⟨SyncsBlock.canSync, fun ⟨_, _, _, h, hcan⟩ => hcan.syncsBlock h⟩

/-- A well-formed file is synchronised with a context without dollar signs, end markers and lone
surrogates. -/
theorem syncsBlock_of_no_dollar (h : IsFileBlock bytes before inside after)
    (hbefore : IsUtf8 before) (hafter : IsUtf8 after)
    (hdollar : 36 ∉ renderManagedContextBlock context)
    (hend : ¬ managedBlockEnd <:+: managedBody context)
    (hunits : ofText (wellFormed (renderManagedContextBlock context)) =
      renderManagedContextBlock context) : SyncsBlock root targetFile context force bytes :=
  CanSync.syncsBlock h
    ⟨JsString.getSubstitution_eq_self hdollar, hend, hunits, .inl ⟨hbefore, hafter⟩⟩

/-! ## A purpose with two dollar signs -/

def budgetContext : WorkspaceContext where
  workspaceName := ⟨js "demo", List.cons_ne_nil _ _⟩
  purpose := ⟨js "Ask before spending $$.", List.cons_ne_nil _ _⟩
  directories :=
    ⟨⟨js "memory", List.cons_ne_nil _ _⟩, ⟨js "notes", List.cons_ne_nil _ _⟩,
      ⟨js "apps", List.cons_ne_nil _ _⟩⟩
  preferredFormats := ⟨[⟨js "markdown", List.cons_ne_nil _ _⟩], List.cons_ne_nil _ _⟩
  rules := ⟨[⟨js "Prefer reversible changes.", List.cons_ne_nil _ _⟩], List.cons_ne_nil _ _⟩

/-- A file with an empty block. -/
def emptyBlockFile : List UInt8 := startBytes ++ [10] ++ endBytes ++ [10]

theorem isFileBlock_emptyBlockFile : IsFileBlock emptyBlockFile [] [10] [10] where
  eq := rfl
  before h := isAsciiMarker_start.bytes.ne_nil (List.infix_nil.mp h)
  inside h := absurd h.length_le (by decide)

theorem budget_template : JsString.getSubstitution (readText [])
    (renderManagedContextBlock budgetContext) (readText [10])
    (renderManagedContextBlock budgetContext) ≠ renderManagedContextBlock budgetContext := by
  decide +kernel

/-- One of the two dollar signs is lost, at every synchronisation. -/
theorem budget_lost : ¬ ∀ (root : JsString) (targetFile : TargetFile)
    (context : WorkspaceContext) (force : Bool) (bytes : List UInt8),
    IsManaged (readText bytes) → SyncsBlock root targetFile context force bytes := by
  intro hall
  have hmanaged := isManaged_of_isBlock (IsFileBlock.read isFileBlock_emptyBlockFile)
  obtain ⟨before, inside, after, h, hcan⟩ :=
    (hall (js "/workspace") .agents budgetContext false _ hmanaged).canSync
  obtain ⟨rfl, rfl, rfl⟩ := isFileBlock_emptyBlockFile.unique isAsciiMarker_start.bytes
    isAsciiMarker_end.bytes h
  exact budget_template hcan.template

end MemphisOS.Workspace
