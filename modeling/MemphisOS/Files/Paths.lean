import MemphisOS.Ecma.Strings
import Mathlib.Data.List.Basic

/-!
# Paths

The functions of a path module for systems whose separator is a slash. What they give is
described by segments: names without separators that are neither `.` nor `..`.
-/

namespace Files.Paths

open Ecma

/-- `path.sep`. -/
def sep : UInt16 := 47

/-! ## Functions -/

/-- One segment read by `normalizeString`, after the segments kept before it, the last first. -/
def pushSegment (allowAboveRoot : Bool) (kept : List JsString) (segment : JsString) :
    List JsString :=
  if segment = [] ∨ segment = js "." then kept
  else if segment = js ".." then
    match kept with
    | [] => if allowAboveRoot then [js ".."] else []
    | last :: rest => if last = js ".." ∧ allowAboveRoot then js ".." :: kept else rest
  else segment :: kept

/-- The segments of `normalizeString(path, allowAboveRoot)`. -/
def normalSegments (allowAboveRoot : Bool) (path : JsString) : List JsString :=
  ((path.splitOn sep).foldl (pushSegment allowAboveRoot) []).reverse

def normalizeString (allowAboveRoot : Bool) (path : JsString) : JsString :=
  [sep].intercalate (normalSegments allowAboveRoot path)

def isAbsolute (path : JsString) : Bool := path.head? = some sep

/-- `path.normalize(path)`. -/
def normalize (path : JsString) : JsString :=
  if path = [] then js "."
  else
    let trailingSeparator := path.getLast? = some sep
    let normal := normalizeString (!isAbsolute path) path
    if normal = [] then
      if isAbsolute path then [sep] else if trailingSeparator then js "./" else js "."
    else
      let normal := if trailingSeparator then normal ++ [sep] else normal
      if isAbsolute path then sep :: normal else normal

/-- `path.join(...paths)`. -/
def join (paths : List JsString) : JsString :=
  let joined := [sep].intercalate (paths.filter (· ≠ []))
  if joined = [] then js "." else normalize joined

/-- The working directory of a process. -/
abbrev WorkingDirectory := { cwd : JsString // isAbsolute cwd }

/-- The loop of `resolve` over the paths from the last to the first. -/
def resolveLoop (cwd : WorkingDirectory) : List JsString → JsString → JsString
  | [], resolvedPath => cwd.val ++ sep :: resolvedPath
  | path :: paths, resolvedPath =>
    if path = [] then resolveLoop cwd paths resolvedPath
    else if isAbsolute path then path ++ sep :: resolvedPath
    else resolveLoop cwd paths (path ++ sep :: resolvedPath)

/-- `path.resolve(...paths)`. -/
def resolve (cwd : WorkingDirectory) (paths : List JsString) : JsString :=
  sep :: normalizeString false (resolveLoop cwd paths.reverse [])

/-- `path.basename(path)`: the last part that is not empty. -/
def basename (path : JsString) : JsString :=
  ((path.splitOn sep).filter (· ≠ [])).getLast?.getD []

/-- `path.dirname(path)`: what comes before the last slash that is not at the end. -/
def dirname (path : JsString) : JsString :=
  if path = [] then js "."
  else
    match (path.reverse.dropWhile (· = sep)).dropWhile (· ≠ sep) with
    | [] => if isAbsolute path then [sep] else js "."
    | [_] => [sep]
    | [_, first] => if first = sep then [sep, sep] else [first]
    | _ :: parent => parent.reverse

/-! ## Segments -/

/-- The name of an entry of a directory. -/
structure IsSegment (s : JsString) : Prop where
  ne_nil : s ≠ []
  no_sep : sep ∉ s
  ne_dot : s ≠ js "."
  ne_dots : s ≠ js ".."

/-- The absolute path through the named directories. -/
def ofSegments (segments : List JsString) : JsString := sep :: [sep].intercalate segments

variable {segments : List JsString} {name path : JsString} {cwd : WorkingDirectory}

/-- A path of one part is its own last part. -/
theorem basename_of_not_mem (h : sep ∉ path) : basename path = path := by
  rw [basename, List.splitOn_eq_singleton h]
  cases path <;> rfl

/-- A last part is joined by one more separator. -/
theorem intercalate_concat {α : Type*} {parts : List (List α)} (hne : parts ≠ [])
    (separator part : List α) :
    separator.intercalate (parts ++ [part]) =
      separator.intercalate parts ++ (separator ++ part) := by
  induction parts with
  | nil => exact absurd rfl hne
  | cons s rest ih =>
    cases rest with
    | nil =>
      rw [List.singleton_append, List.intercalate_cons_cons, List.intercalate_singleton,
        List.intercalate_singleton, List.append_assoc]
    | cons t rest =>
      rw [List.cons_append, List.cons_append, List.intercalate_cons_cons,
        List.intercalate_cons_cons, ← List.cons_append, ih (List.cons_ne_nil t rest)]
      simp only [List.append_assoc]

/-- A path below a directory other than the root is that of the directory, a separator and the
name. -/
theorem ofSegments_concat (hne : segments ≠ []) :
    ofSegments (segments ++ [name]) = ofSegments segments ++ sep :: name := by
  rw [ofSegments, ofSegments, intercalate_concat hne]
  rfl

/-- The last name of a path can be read back. -/
theorem ofSegments_concat_inj {segments : List JsString} {name name' : JsString}
    (h : ofSegments (segments ++ [name]) = ofSegments (segments ++ [name'])) : name = name' := by
  cases segments with
  | nil => simpa [ofSegments] using h
  | cons s rest =>
    rw [ofSegments_concat (List.cons_ne_nil s rest), ofSegments_concat (List.cons_ne_nil s rest),
      List.append_cancel_left_eq] at h
    exact (List.cons.inj h).2

/-- Names are kept. -/
theorem foldl_pushSegment {allow : Bool} (h : ∀ s ∈ segments, IsSegment s)
    (kept : List JsString) :
    segments.foldl (pushSegment allow) kept = segments.reverse ++ kept := by
  induction segments generalizing kept with
  | nil => rfl
  | cons s rest ih =>
    have hs := h s List.mem_cons_self
    have hpush : pushSegment allow kept s = s :: kept := by
      unfold pushSegment
      rw [if_neg (not_or.mpr ⟨hs.ne_nil, hs.ne_dot⟩), if_neg hs.ne_dots]
    rw [List.foldl_cons, hpush, ih fun t ht => h t (List.mem_cons_of_mem s ht),
      List.reverse_cons, List.append_assoc]
    rfl

theorem pushSegment_nil (kept : List JsString) : pushSegment false kept [] = kept :=
  if_pos (.inl rfl)

/-- What is kept are names. -/
theorem isSegment_pushSegment {kept : List JsString} (hkept : ∀ s ∈ kept, IsSegment s)
    (hname : sep ∉ name) : ∀ s ∈ pushSegment false kept name, IsSegment s := by
  unfold pushSegment
  split
  · exact hkept
  · next hplain =>
    split
    · cases kept with
      | nil => exact fun s hs => by cases hs
      | cons last rest =>
        have hlast : ¬(last = js ".." ∧ false = true) := fun h => by cases h.2
        dsimp only
        rw [if_neg hlast]
        exact fun s hs => hkept s (List.mem_cons_of_mem last hs)
    · next hdots =>
      intro s hs
      rcases List.mem_cons.mp hs with rfl | hs
      · exact ⟨fun h => hplain (.inl h), hname, fun h => hplain (.inr h), hdots⟩
      · exact hkept s hs

theorem sep_not_mem_of_mem_splitOn {part : JsString} (h : part ∈ path.splitOn sep) :
    sep ∉ part := by
  induction path generalizing part with
  | nil =>
    obtain rfl := List.mem_singleton.mp h
    exact List.not_mem_nil
  | cons u rest ih =>
    rw [List.splitOn_cons_eq_if_modifyHead] at h
    split at h
    · rcases List.mem_cons.mp h with rfl | h
      · exact List.not_mem_nil
      · exact ih h
    · next hu =>
      cases hparts : rest.splitOn sep with
      | nil =>
        rw [hparts] at h
        cases h
      | cons first others =>
        rw [hparts, List.modifyHead_cons] at h
        rcases List.mem_cons.mp h with rfl | h
        · intro hmem
          rcases List.mem_cons.mp hmem with rfl | hmem
          · exact hu (beq_self_eq_true sep)
          · exact ih (hparts ▸ List.mem_cons_self) hmem
        · exact ih (hparts ▸ List.mem_cons_of_mem first h)

theorem isSegment_normalSegments (path : JsString) :
    ∀ s ∈ normalSegments false path, IsSegment s := by
  have hfold : ∀ parts kept : List JsString, (∀ part ∈ parts, sep ∉ part) →
      (∀ s ∈ kept, IsSegment s) → ∀ s ∈ parts.foldl (pushSegment false) kept, IsSegment s := by
    intro parts
    induction parts with
    | nil => exact fun kept _ hkept => hkept
    | cons part rest ih =>
      intro kept hrest hkept
      exact ih _ (fun p hp => hrest p (List.mem_cons_of_mem part hp))
        (isSegment_pushSegment hkept (hrest part List.mem_cons_self))
  intro s hs
  exact hfold _ [] (fun part => sep_not_mem_of_mem_splitOn) (fun s hs => by cases hs) s
    (List.mem_reverse.mp hs)

/-- An absolute path of names is read back. -/
theorem splitOn_ofSegments (h : ∀ s ∈ segments, IsSegment s) :
    (ofSegments segments).splitOn sep = [] :: if segments = [] then [[]] else segments := by
  rw [ofSegments, List.splitOn_cons_eq_if_modifyHead, if_pos (beq_self_eq_true sep)]
  split
  · next hnil =>
    subst hnil
    rfl
  · next hne => rw [List.splitOn_intercalate sep (fun s hs => (h s hs).no_sep) hne]

theorem foldl_ofSegments (h : ∀ s ∈ segments, IsSegment s) :
    ((ofSegments segments).splitOn sep).foldl (pushSegment false) [] = segments.reverse := by
  rw [splitOn_ofSegments h, List.foldl_cons, pushSegment_nil]
  split
  · next hnil =>
    subst hnil
    rfl
  · rw [foldl_pushSegment h, List.append_nil]

/-! ## Results -/

/-- `resolve` gives an absolute path of names. -/
theorem exists_resolve_eq (cwd : WorkingDirectory) (paths : List JsString) :
    ∃ segments, (∀ s ∈ segments, IsSegment s) ∧ resolve cwd paths = ofSegments segments :=
  ⟨_, isSegment_normalSegments _, rfl⟩

theorem ofSegments_ne_nil (segments : List JsString) : ofSegments segments ≠ [] :=
  List.cons_ne_nil _ _

theorem isAbsolute_ofSegments (segments : List JsString) :
    isAbsolute (ofSegments segments) = true :=
  decide_eq_true rfl

/-- A path of names is resolved to itself. -/
theorem resolve_ofSegments (h : ∀ s ∈ segments, IsSegment s) :
    resolve cwd [ofSegments segments] = ofSegments segments := by
  have hloop : resolveLoop cwd [ofSegments segments] [] = ofSegments segments ++ sep :: [] := by
    rw [resolveLoop, if_neg (ofSegments_ne_nil _), if_pos (isAbsolute_ofSegments segments)]
  rw [resolve, List.reverse_singleton, hloop, normalizeString, normalSegments,
    List.splitOn_append_cons_self, List.foldl_append, foldl_ofSegments h, List.splitOn_nil,
    List.foldl_cons, pushSegment_nil, List.foldl_nil, List.reverse_reverse]
  rfl

theorem not_isAbsolute (hname : IsSegment name) : ¬isAbsolute name = true := by
  intro h
  exact hname.no_sep (List.mem_of_head? (of_decide_eq_true h))

theorem foldl_child (h : ∀ s ∈ segments, IsSegment s) (hname : IsSegment name) :
    ((ofSegments segments ++ sep :: name).splitOn sep).foldl (pushSegment false) [] =
      name :: segments.reverse := by
  rw [List.splitOn_append_cons_self, List.foldl_append, foldl_ofSegments h,
    List.splitOn_eq_singleton hname.no_sep]
  exact @foldl_pushSegment [name] false (fun s hs => List.mem_singleton.mp hs ▸ hname) _

/-- A name is resolved in a directory. -/
theorem resolve_child (h : ∀ s ∈ segments, IsSegment s) (hname : IsSegment name) :
    resolve cwd [ofSegments segments, name] = ofSegments (segments ++ [name]) := by
  have hloop : resolveLoop cwd [name, ofSegments segments] [] =
      (ofSegments segments ++ sep :: name) ++ sep :: [] := by
    rw [resolveLoop, if_neg hname.ne_nil, if_neg (not_isAbsolute hname), resolveLoop,
      if_neg (ofSegments_ne_nil _), if_pos (isAbsolute_ofSegments segments), List.append_assoc]
    rfl
  have hreverse : [ofSegments segments, name].reverse = [name, ofSegments segments] := rfl
  rw [resolve, hreverse, hloop, normalizeString, normalSegments, List.splitOn_append_cons_self,
    List.foldl_append, foldl_child h hname, List.splitOn_nil, List.foldl_cons, pushSegment_nil,
    List.foldl_nil, List.reverse_cons, List.reverse_reverse]
  rfl

/-- A name is joined to a directory. -/
theorem join_child (h : ∀ s ∈ segments, IsSegment s) (hname : IsSegment name) :
    join [ofSegments segments, name] = ofSegments (segments ++ [name]) := by
  have hjoined : [sep].intercalate ([ofSegments segments, name].filter (· ≠ [])) =
      ofSegments segments ++ sep :: name := by
    have hall : ∀ path ∈ [ofSegments segments, name], decide (path ≠ []) = true := by
      intro path hpath
      rcases List.mem_cons.mp hpath with rfl | hpath
      · exact decide_eq_true (ofSegments_ne_nil segments)
      · exact decide_eq_true (List.mem_singleton.mp hpath ▸ hname.ne_nil)
    rw [List.filter_eq_self.mpr hall, List.intercalate_cons_cons, List.intercalate_singleton,
      List.append_assoc]
    rfl
  have hne : ofSegments segments ++ sep :: name ≠ [] := List.cons_ne_nil _ _
  have habsolute : isAbsolute (ofSegments segments ++ sep :: name) = true := decide_eq_true rfl
  have htrailing : (ofSegments segments ++ sep :: name).getLast? ≠ some sep := by
    rw [List.getLast?_append_of_ne_nil _ (List.cons_ne_nil _ _),
      List.getLast?_cons_of_ne_nil hname.ne_nil]
    exact fun h => hname.no_sep (List.mem_of_getLast? h)
  have hnormal : normalizeString (!true) (ofSegments segments ++ sep :: name) =
      [sep].intercalate (segments ++ [name]) := by
    rw [normalizeString, normalSegments, Bool.not_true, foldl_child h hname, List.reverse_cons,
      List.reverse_reverse]
  have hnonempty : [sep].intercalate (segments ++ [name]) ≠ [] := by
    intro hnil
    have hsep : ∀ s ∈ segments ++ [name], sep ∉ s := by
      intro s hs
      rcases List.mem_append.mp hs with hs | hs
      · exact (h s hs).no_sep
      · exact List.mem_singleton.mp hs ▸ hname.no_sep
    have hsplit := List.splitOn_intercalate sep hsep (List.concat_ne_nil name segments)
    rw [hnil, List.splitOn_nil] at hsplit
    have hmem : name ∈ [[]] := hsplit ▸ List.mem_append_right segments List.mem_cons_self
    exact hname.ne_nil (List.mem_singleton.mp hmem)
  rw [join, hjoined, if_neg hne, normalize, if_neg hne]
  dsimp only
  rw [habsolute, hnormal, if_neg hnonempty, if_pos rfl, if_neg htrailing]
  rfl

/-! ## Relative paths -/

/-- A joined path is not empty. -/
theorem intercalate_ne_nil (h : ∀ s ∈ segments, IsSegment s) (hne : segments ≠ []) :
    [sep].intercalate segments ≠ [] := by
  intro hnil
  have hsplit := List.splitOn_intercalate sep (fun s hs => (h s hs).no_sep) hne
  rw [hnil, List.splitOn_nil] at hsplit
  exact (h [] (hsplit ▸ List.mem_cons_self)).ne_nil rfl

/-- A relative path of names is not absolute. -/
theorem isAbsolute_intercalate (h : ∀ s ∈ segments, IsSegment s) (hne : segments ≠ []) :
    isAbsolute ([sep].intercalate segments) = false := by
  obtain ⟨s, rest, rfl⟩ := List.exists_cons_of_ne_nil hne
  have hs := h s List.mem_cons_self
  have hhead : ([sep].intercalate (s :: rest)).head? = s.head? := by
    cases rest with
    | nil => rw [List.intercalate_singleton]
    | cons t rest =>
      rw [List.intercalate_cons_cons, List.append_assoc, List.head?_append_of_ne_nil _ hs.ne_nil]
  rw [isAbsolute, hhead]
  exact decide_eq_false fun hhead => hs.no_sep (List.mem_of_head? hhead)

/-- A relative path of names has no slash at its end. -/
theorem getLast?_intercalate_ne (h : ∀ s ∈ segments, IsSegment s) (hne : segments ≠ []) :
    ([sep].intercalate segments).getLast? ≠ some sep := by
  obtain ⟨init, last, rfl⟩ := (List.eq_nil_or_concat' segments).resolve_left hne
  have hlast := h last (List.mem_append_right _ List.mem_cons_self)
  have hend : ([sep].intercalate (init ++ [last])).getLast? = last.getLast? := by
    by_cases hinit : init = []
    · rw [hinit, List.nil_append, List.intercalate_singleton]
    · rw [intercalate_concat hinit, ← List.append_assoc,
        List.getLast?_append_of_ne_nil _ hlast.ne_nil]
  rw [hend]
  exact fun hmem => hlast.no_sep (List.mem_of_getLast? hmem)

/-- The units of a joined path are separators or those of its parts. -/
theorem not_mem_intercalate {u : UInt16} {parts : List JsString} (hu : u ≠ sep)
    (h : ∀ part ∈ parts, u ∉ part) : u ∉ [sep].intercalate parts := by
  induction parts with
  | nil => exact List.not_mem_nil
  | cons s rest ih =>
    have hs := h s List.mem_cons_self
    cases rest with
    | nil => rwa [List.intercalate_singleton]
    | cons t rest =>
      rw [List.intercalate_cons_cons, List.mem_append, List.mem_append]
      rintro ((hmem | hmem) | hmem)
      · exact hs hmem
      · exact hu (List.mem_singleton.mp hmem)
      · exact ih (fun part hpart => h part (List.mem_cons_of_mem s hpart)) hmem

/-- A relative path of names is normal. -/
theorem normalize_intercalate (h : ∀ s ∈ segments, IsSegment s) (hne : segments ≠ []) :
    normalize ([sep].intercalate segments) = [sep].intercalate segments := by
  have hsplit := List.splitOn_intercalate sep (fun s hs => (h s hs).no_sep) hne
  have hnonempty := intercalate_ne_nil h hne
  have hnormal : normalizeString (!false) ([sep].intercalate segments) =
      [sep].intercalate segments := by
    rw [normalizeString, normalSegments, hsplit, foldl_pushSegment h, List.append_nil,
      List.reverse_reverse]
  rw [normalize, if_neg hnonempty]
  dsimp only
  rw [isAbsolute_intercalate h hne, hnormal, if_neg hnonempty,
    if_neg (getLast?_intercalate_ne h hne)]
  rfl

/-- A name is joined to a relative path. -/
theorem join_relative (h : ∀ s ∈ segments, IsSegment s) (hne : segments ≠ [])
    (hname : IsSegment name) :
    join [[sep].intercalate segments, name] = [sep].intercalate (segments ++ [name]) := by
  have hall : ∀ s ∈ segments ++ [name], IsSegment s := by
    intro s hs
    rcases List.mem_append.mp hs with hs | hs
    · exact h s hs
    · exact List.mem_singleton.mp hs ▸ hname
  have hfilter : [[sep].intercalate segments, name].filter (· ≠ []) =
      [[sep].intercalate segments, name] := by
    simp [intercalate_ne_nil h hne, hname.ne_nil]
  have hjoined : [sep].intercalate [[sep].intercalate segments, name] =
      [sep].intercalate (segments ++ [name]) := by
    rw [List.intercalate_cons_cons, List.intercalate_singleton, intercalate_concat hne,
      List.append_assoc]
  rw [join, hfilter, hjoined, if_neg (intercalate_ne_nil hall (List.concat_ne_nil _ _)),
    normalize_intercalate hall (List.concat_ne_nil _ _)]

/-! ## Paths below a directory -/

/-- The names on a path, when none of its parts is `..`. -/
def namesOf (path : JsString) : List JsString :=
  (path.splitOn sep).filter fun s => s ≠ [] && s ≠ js "."

theorem isSegment_namesOf (hdots : js ".." ∉ path.splitOn sep) :
    ∀ s ∈ namesOf path, IsSegment s := by
  intro s hs
  obtain ⟨hmem, hkept⟩ := List.mem_filter.mp hs
  rw [Bool.and_eq_true, decide_eq_true_eq, decide_eq_true_eq] at hkept
  exact ⟨hkept.1, sep_not_mem_of_mem_splitOn hmem, hkept.2, fun h => hdots (h ▸ hmem)⟩

/-- Parts other than `..` are kept or left out. -/
theorem foldl_pushSegment_parts {parts : List JsString} (hdots : js ".." ∉ parts)
    (kept : List JsString) : parts.foldl (pushSegment false) kept =
      (parts.filter fun s => s ≠ [] && s ≠ js ".").reverse ++ kept := by
  induction parts generalizing kept with
  | nil => rfl
  | cons s rest ih =>
    rw [List.mem_cons, not_or] at hdots
    rw [List.foldl_cons, ih hdots.2, List.filter_cons]
    unfold pushSegment
    by_cases hplain : s = [] ∨ s = js "."
    · have hleft : (s ≠ [] && s ≠ js ".") = false := by
        rcases hplain with rfl | rfl <;> rfl
      rw [if_pos hplain, hleft]
      rfl
    · have hkept : (s ≠ [] && s ≠ js ".") = true := by
        simpa [not_or] using hplain
      rw [if_neg hplain, if_neg (Ne.symm hdots.1), hkept, if_pos rfl, List.reverse_cons,
        List.append_assoc]
      rfl

/-- The segments of an absolute path, with or without a slash at its end. -/
theorem normalSegments_ofSegments (h : ∀ s ∈ segments, IsSegment s) {trail : JsString}
    (htrail : trail = [] ∨ trail = [sep]) :
    normalSegments false (ofSegments segments ++ trail) = segments := by
  rcases htrail with rfl | rfl
  · rw [List.append_nil, normalSegments, foldl_ofSegments h, List.reverse_reverse]
  · rw [normalSegments, List.splitOn_append_cons_self, List.foldl_append, foldl_ofSegments h,
      List.splitOn_nil, List.foldl_cons, pushSegment_nil, List.foldl_nil, List.reverse_reverse]

/-- **A relative path without `..` is joined below a directory.** -/
theorem join_below (h : ∀ s ∈ segments, IsSegment s) (hne : path ≠ [])
    (hdots : js ".." ∉ path.splitOn sep) (hnames : namesOf path ≠ []) :
    ∃ trail, (trail = [] ∨ trail = [sep]) ∧ (path.getLast? ≠ some sep → trail = []) ∧
      join [ofSegments segments, path] = ofSegments (segments ++ namesOf path) ++ trail := by
  have hfilter : [ofSegments segments, path].filter (· ≠ []) = [ofSegments segments, path] := by
    simp [ofSegments_ne_nil, hne]
  have hjoined : [sep].intercalate [ofSegments segments, path] =
      ofSegments segments ++ sep :: path := by
    rw [List.intercalate_cons_cons, List.intercalate_singleton, List.append_assoc]
    rfl
  have hlast : (ofSegments segments ++ sep :: path).getLast? = path.getLast? := by
    rw [List.getLast?_append_of_ne_nil _ (List.cons_ne_nil _ _), List.getLast?_cons_of_ne_nil hne]
  have hall : ∀ s ∈ segments ++ namesOf path, IsSegment s := by
    intro s hs
    rcases List.mem_append.mp hs with hs | hs
    · exact h s hs
    · exact isSegment_namesOf hdots s hs
  have hnormal : normalizeString (!true) (ofSegments segments ++ sep :: path) =
      [sep].intercalate (segments ++ namesOf path) := by
    rw [normalizeString, normalSegments, Bool.not_true, List.splitOn_append_cons_self,
      List.foldl_append, foldl_ofSegments h, foldl_pushSegment_parts hdots, List.reverse_append,
      List.reverse_reverse, List.reverse_reverse]
    rfl
  have hnonempty := intercalate_ne_nil hall (List.append_ne_nil_of_right_ne_nil segments hnames)
  have habsolute : isAbsolute (ofSegments segments ++ sep :: path) = true := decide_eq_true rfl
  have hne' : ofSegments segments ++ sep :: path ≠ [] := List.cons_ne_nil _ _
  rw [join, hfilter, hjoined, if_neg hne', normalize, if_neg hne']
  dsimp only
  rw [habsolute, hnormal, if_neg hnonempty, if_pos rfl, hlast]
  by_cases htrailing : path.getLast? = some sep
  · refine ⟨[sep], .inr rfl, fun hnot => absurd htrailing hnot, ?_⟩
    rw [if_pos htrailing]
    rfl
  · refine ⟨[], .inl rfl, fun _ => rfl, ?_⟩
    rw [if_neg htrailing, List.append_nil]
    rfl

/-- What comes before the last name and the slashes at the end. -/
theorem dropWhile_reverse_name {front trail : JsString} (hname : IsSegment name)
    (htrail : trail = [] ∨ trail = [sep]) :
    ((front ++ sep :: name ++ trail).reverse.dropWhile (· = sep)).dropWhile (· ≠ sep) =
      sep :: front.reverse := by
  have hends : ∃ last rest, name.reverse = last :: rest ∧ last ≠ sep := by
    obtain ⟨last, rest, heq⟩ := List.exists_cons_of_ne_nil
      (List.reverse_eq_nil_iff.not.mpr hname.ne_nil)
    refine ⟨last, rest, heq, ?_⟩
    rintro rfl
    exact hname.no_sep (List.mem_reverse.mp (heq ▸ List.mem_cons_self))
  obtain ⟨last, rest, hreverse, hlast⟩ := hends
  have hslashes : (front ++ sep :: name ++ trail).reverse.dropWhile (· = sep) =
      name.reverse ++ sep :: front.reverse := by
    have hplain : (name.reverse ++ sep :: front.reverse).dropWhile (· = sep) =
        name.reverse ++ sep :: front.reverse := by
      rw [hreverse, List.cons_append, List.dropWhile_cons_of_neg (by simpa using hlast)]
    rcases htrail with rfl | rfl
    · rw [List.append_nil, List.reverse_append, List.reverse_cons, List.append_assoc]
      exact hplain
    · have htail : (front ++ sep :: name ++ [sep]).reverse =
          sep :: (name.reverse ++ sep :: front.reverse) := by
        simp
      rw [htail, List.dropWhile_cons_of_pos (by simp)]
      exact hplain
  have hkept : ∀ u ∈ name.reverse, decide (u ≠ sep) = true := by
    intro u hu
    refine decide_eq_true ?_
    rintro rfl
    exact hname.no_sep (List.mem_reverse.mp hu)
  rw [hslashes, List.dropWhile_append_of_pos hkept, List.dropWhile_cons_of_neg (by simp)]

/-- The directory of an absolute path. -/
theorem dirname_ofSegments (h : ∀ s ∈ segments, IsSegment s) (hname : IsSegment name)
    {trail : JsString} (htrail : trail = [] ∨ trail = [sep]) :
    dirname (ofSegments (segments ++ [name]) ++ trail) = ofSegments segments := by
  by_cases hne : segments = []
  · subst hne
    have hpath : ofSegments [name] = [] ++ sep :: name := by
      rw [ofSegments, List.intercalate_singleton, List.nil_append]
    have hnonempty : [] ++ sep :: name ++ trail ≠ [] := by simp
    rw [List.nil_append, hpath, dirname, if_neg hnonempty, dropWhile_reverse_name hname htrail]
    rfl
  · have hnonempty : ofSegments segments ++ sep :: name ++ trail ≠ [] := by simp
    rw [ofSegments_concat hne, dirname, if_neg hnonempty, dropWhile_reverse_name hname htrail]
    have hlong : ∃ u v rest, (ofSegments segments).reverse = u :: v :: rest := by
      have hfirst := intercalate_ne_nil h hne
      obtain ⟨u, rest, hrest⟩ := List.exists_cons_of_ne_nil
        (List.reverse_eq_nil_iff.not.mpr hfirst)
      cases rest with
      | nil => exact ⟨u, sep, [], by rw [ofSegments, List.reverse_cons, hrest]; rfl⟩
      | cons v rest =>
        exact ⟨u, v, rest ++ [sep], by rw [ofSegments, List.reverse_cons, hrest]; rfl⟩
    obtain ⟨u, v, rest, hreverse⟩ := hlong
    rw [hreverse]
    dsimp only
    rw [← hreverse, List.reverse_reverse]

end Files.Paths
