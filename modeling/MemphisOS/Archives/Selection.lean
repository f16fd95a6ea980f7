import MemphisOS.Archives.Listing
import Mathlib.Data.Set.Finite.Basic

/-!
# Choosing an archive by name

`resolveBackupFile` takes the first listed archive that has the name that was given, or that name
without its suffix, or a name that contains it. A second backup of one minute gets the name of the
first with a number at its end, so it is found under the name of the first.
-/

namespace MemphisOS.Archives

open Ecma Files

/-! ## Resolving -/

/-- `s.includes(pattern)`. -/
def includes (s pattern : JsString) : Bool := decide (pattern <:+: s)

/-- The test of the search. -/
def isHit (input file : JsString) : Bool :=
  let normalized := withoutSuffix (Paths.basename input)
  file = input || withoutSuffix file = normalized || includes file normalized

/-- The message of the error. -/
def notFound (input : JsString) : JsString := js "Backup not found: " ++ input

/-- `existsSync` looks from the working directory. -/
def resolveBackupFile (host : Host) (existsSync : JsString → Bool) (cwd : Paths.WorkingDirectory)
    (dir : BackupDir) (input : JsString) : Except JsString JsString :=
  if existsSync input then .ok (Paths.resolve cwd [input])
  else
    match (getBackupArchives host dir).find? fun archive => isHit input archive.file with
    | some hit => .ok hit.path
    | none => .error (notFound input)

/-! ## Unique names -/

/-- The candidate the loop tries after this many others. -/
def candidate (base : JsString) : ℕ → JsString
  | 0 => base ++ backupSuffix
  | suffix + 1 => base ++ js "-" ++ ofText (digits (suffix + 1)) ++ backupSuffix

theorem candidate_injective (base : JsString) : Function.Injective (candidate base) := by
  have hsucc : ∀ n, candidate base (n + 1) ≠ candidate base 0 := by
    intro n h
    have hlength := congrArg List.length h
    have hdash : (js "-").length = 1 := rfl
    simp only [candidate, List.length_append] at hlength
    omega
  intro m n h
  cases m with
  | zero =>
    cases n with
    | zero => rfl
    | succ n => exact absurd h.symm (hsucc n)
  | succ m =>
    cases n with
    | zero => exact absurd h (hsucc m)
    | succ n =>
      simp only [candidate, List.append_cancel_right_eq, List.append_cancel_left_eq] at h
      exact digits_inj.mp (ofText_injective h)

/-- Not every candidate exists. -/
theorem exists_unused (names : List JsString) (base : JsString) :
    ∃ suffix, candidate base suffix ∉ names := by
  by_contra hall
  rw [not_exists] at hall
  have hsubset : Set.range (candidate base) ⊆ {name | name ∈ names} := by
    rintro name ⟨suffix, rfl⟩
    exact not_not.mp (hall suffix)
  exact Set.infinite_range_of_injective (candidate_injective base)
    ((List.finite_toSet names).subset hsubset)

/-- `base` is the tag and the stamp of the minute. -/
def createUniqueBackupFilename (dir : BackupDir) (base : JsString) : JsString :=
  candidate base (Nat.find (exists_unused dir.files.names base))

/-- The loop ends at the first candidate that does not exist. -/
theorem createUniqueBackupFilename_spec (dir : BackupDir) (base : JsString) :
    ∃ suffix, createUniqueBackupFilename dir base = candidate base suffix ∧
      candidate base suffix ∉ dir.files.names ∧
      ∀ earlier < suffix, candidate base earlier ∈ dir.files.names :=
  ⟨_, rfl, Nat.find_spec (exists_unused dir.files.names base), fun _ hearlier =>
    not_not.mp (Nat.find_min (exists_unused dir.files.names base) hearlier)⟩

/-! ## What is found -/

variable {host : Host} {existsSync : JsString → Bool} {cwd : Paths.WorkingDirectory}
  {dir : BackupDir} {target : BackupArchive} {input stem : JsString}

/-- Without repetitions, an element is found exactly when it meets the test and none before it
does. -/
theorem find?_eq_some_iff_of_nodup {α : Type} {p : α → Bool} {l : List α} {a : α}
    (hnodup : l.Nodup) (ha : a ∈ l) :
    l.find? p = some a ↔ p a = true ∧ ∀ b, [b, a].Sublist l → p b = false := by
  rw [List.find?_eq_some_iff_append]
  refine and_congr_right fun _ => ⟨?_, fun h => ?_⟩
  · rintro ⟨before, after, rfl, hbefore⟩ b hb
    obtain ⟨front, back, hsplit, hfront, hback⟩ := List.cons_sublist_iff.mp hb
    have hafter : a ∈ back := List.singleton_sublist.mp hback
    rw [hsplit, List.nodup_append] at hnodup
    have hmem : b ∈ before := by
      rcases List.append_eq_append_iff.mp hsplit with ⟨t, rfl, ht⟩ | ⟨t, rfl, -⟩
      · cases t with
        | nil => rwa [List.append_nil] at hfront
        | cons c t =>
          obtain rfl := (List.cons.inj ht).1
          exact absurd rfl (hnodup.2.2 a (by simp) a hafter)
      · exact List.mem_append_left _ hfront
    simpa using hbefore b hmem
  · obtain ⟨before, after, rfl⟩ := List.append_of_mem ha
    refine ⟨before, after, rfl, fun b hb => ?_⟩
    rw [h b ((List.singleton_sublist.mpr hb).append
      (List.singleton_sublist.mpr List.mem_cons_self))]
    rfl

/-- A name of the directory is its own last part, with the suffix or without it. -/
theorem basename_input (htarget : target ∈ getBackupArchives host dir)
    (hname : input = target.file ∨ input ++ backupSuffix = target.file) :
    Paths.basename input = input := by
  have hsep := (file_of_mem htarget).2.1.no_sep
  refine Paths.basename_of_not_mem ?_
  rcases hname with rfl | hname
  · exact hsep
  · rw [← hname] at hsep
    exact fun hmem => hsep (List.mem_append_left _ hmem)

/-- The test for the name of an archive. -/
theorem isHit_iff (htarget : target ∈ getBackupArchives host dir)
    (hname : input = target.file ∨ input ++ backupSuffix = target.file) (file : JsString) :
    isHit input file = true ↔ file = input ∨ withoutSuffix file = withoutSuffix input ∨
      withoutSuffix input <:+: file := by
  rw [isHit, basename_input htarget hname, Bool.or_eq_true, Bool.or_eq_true, decide_eq_true_eq,
    decide_eq_true_eq, includes, decide_eq_true_eq, or_assoc]

/-- An archive is returned when it is the first hit. -/
theorem resolves_iff_first_hit (htarget : target ∈ getBackupArchives host dir)
    (hcwd : existsSync input = false) :
    resolveBackupFile host existsSync cwd dir input = .ok target.path ↔
      isHit input target.file = true ∧
        ∀ other, [other, target].Sublist (getBackupArchives host dir) →
          isHit input other.file = false := by
  rw [← @find?_eq_some_iff_of_nodup _ (fun archive => isHit input archive.file) _ _
    (nodup_files host dir).of_map htarget]
  rw [resolveBackupFile, if_neg (by rw [hcwd]; exact Bool.false_ne_true)]
  cases hfound : (getBackupArchives host dir).find? fun archive => isHit input archive.file with
  | none => exact iff_of_false (by intro h; cases h) (by intro h; cases h)
  | some hit =>
    have hmem := List.mem_of_find?_eq_some hfound
    constructor
    · intro h
      rw [eq_of_path hmem htarget (Except.ok.inj h)]
    · intro h
      rw [Option.some.inj h]

/-- **An archive is found by its name exactly when it meets the test and no archive before it
does.** -/
theorem resolves_iff (htarget : target ∈ getBackupArchives host dir)
    (hname : input = target.file ∨ input ++ backupSuffix = target.file)
    (hcwd : existsSync input = false) :
    resolveBackupFile host existsSync cwd dir input = .ok target.path ↔
      (target.file = input ∨ withoutSuffix target.file = withoutSuffix input ∨
        withoutSuffix input <:+: target.file) ∧
      ∀ other, [other, target].Sublist (getBackupArchives host dir) →
        other.file ≠ input ∧ withoutSuffix other.file ≠ withoutSuffix input ∧
          ¬withoutSuffix input <:+: other.file := by
  rw [resolves_iff_first_hit htarget hcwd, isHit_iff htarget hname]
  refine and_congr_right fun _ => forall₂_congr fun other _ => ?_
  rw [← Bool.not_eq_true, isHit_iff htarget hname, not_or, not_or]

/-! ## Names without a dot -/

/-- The dot. -/
def dot : UInt16 := 46

/-- The suffix is looked for after a stem without a dot. -/
theorem withoutSuffix_stem_append (h : dot ∉ stem) (rest : JsString) :
    withoutSuffix (stem ++ rest) = stem ++ withoutSuffix rest := by
  induction stem with
  | nil => rfl
  | cons u stem ih =>
    rw [List.mem_cons, not_or] at h
    have hfront : backupSuffix.isPrefixOf (u :: (stem ++ rest)) = false := by
      rw [show backupSuffix = dot :: js "tar.gz" from rfl, List.isPrefixOf_cons_cons,
        beq_false_of_ne h.1, Bool.false_and]
    rw [withoutSuffix, List.cons_append, JsString.removeFirst, if_neg (by simp [hfront])]
    exact congrArg (u :: ·) (ih h.2)

/-- The suffix goes from a name that has no other dot. -/
theorem withoutSuffix_append (h : dot ∉ stem) : withoutSuffix (stem ++ backupSuffix) = stem :=
  (withoutSuffix_stem_append h backupSuffix).trans (List.append_nil stem)

theorem withoutSuffix_stem (h : dot ∉ stem) : withoutSuffix stem = stem := by
  have hstem := withoutSuffix_stem_append h []
  rw [List.append_nil] at hstem
  exact hstem.trans (List.append_nil stem)

/-- Two dots at most go with the suffix. -/
theorem count_withoutSuffix (file : JsString) :
    file.count dot ≤ (withoutSuffix file).count dot + 2 := by
  induction file with
  | nil => exact Nat.zero_le _
  | cons u file ih =>
    rw [withoutSuffix, JsString.removeFirst]
    split
    · next h =>
      obtain ⟨rest, hrest⟩ := List.isPrefixOf_iff_prefix.mp h
      rw [← hrest, List.drop_left, List.count_append, Nat.add_comm]
      exact Nat.le_refl _
    · rw [List.count_cons, List.count_cons, Nat.add_right_comm]
      exact Nat.add_le_add_right ih _

/-- A dotless stem that is left of an archive's name is contained in it. -/
theorem infix_of_withoutSuffix {file : JsString} (hfile : backupSuffix <:+ file)
    (hstem : dot ∉ stem) (h : withoutSuffix file = stem) : stem <:+: file := by
  obtain ⟨front, rfl⟩ := hfile
  have hcount := count_withoutSuffix (front ++ backupSuffix)
  have hsuffix : backupSuffix.count dot = 2 := by decide
  rw [h, List.count_append, hsuffix, List.count_eq_zero.mpr hstem] at hcount
  have hfront : dot ∉ front := List.count_eq_zero.mp (by omega)
  rw [withoutSuffix_append hfront] at h
  exact ⟨[], backupSuffix, by rw [h, List.nil_append]⟩

/-- **An archive whose name has no dot but those of its suffix is found exactly when no archive
before it has a name that contains its own.** -/
theorem resolves_iff_of_dotless (htarget : target ∈ getBackupArchives host dir)
    (hstem : dot ∉ stem) (hfile : target.file = stem ++ backupSuffix)
    (hname : input = target.file ∨ input = stem) (hcwd : existsSync input = false) :
    resolveBackupFile host existsSync cwd dir input = .ok target.path ↔
      ∀ other, [other, target].Sublist (getBackupArchives host dir) → ¬stem <:+: other.file := by
  have hname' : input = target.file ∨ input ++ backupSuffix = target.file :=
    hname.imp id fun h => by rw [h, hfile]
  have hremove : withoutSuffix input = stem := by
    rcases hname with rfl | rfl
    · rw [hfile, withoutSuffix_append hstem]
    · exact withoutSuffix_stem hstem
  have hinfix : stem <:+: target.file := ⟨[], backupSuffix, by rw [hfile, List.nil_append]⟩
  rw [resolves_iff_first_hit htarget hcwd, isHit_iff htarget hname', hremove,
    and_iff_right (.inr (.inr hinfix))]
  have hinput : stem <:+: input := by
    rcases hname with rfl | rfl
    · exact hinfix
    · exact List.infix_rfl
  refine forall₂_congr fun other hother => ?_
  rw [← Bool.not_eq_true, isHit_iff htarget hname', hremove, not_or, not_or]
  refine ⟨fun h => h.2.2, fun h => ⟨fun heq => ?_, ?_, h⟩⟩
  · rw [heq] at h
    exact h hinput
  · have hmem := hother.subset List.mem_cons_self
    exact fun heq => h (infix_of_withoutSuffix (file_of_mem hmem).1 hstem heq)

/-- A backup that got a number for the minute of another one is found in its place, if it is
listed before it. -/
theorem not_resolves_of_candidate {base : JsString} {suffix : ℕ} {other : BackupArchive}
    (htarget : target ∈ getBackupArchives host dir) (hbase : dot ∉ base)
    (hfile : target.file = candidate base 0) (hother : other.file = candidate base suffix)
    (hbefore : [other, target].Sublist (getBackupArchives host dir))
    (hcwd : existsSync target.file = false) :
    resolveBackupFile host existsSync cwd dir target.file ≠ .ok target.path := by
  rw [ne_eq, resolves_iff_of_dotless htarget hbase hfile (.inl rfl) hcwd]
  intro hnone
  refine hnone other hbefore ?_
  rw [hother]
  cases suffix with
  | zero => exact ⟨[], backupSuffix, rfl⟩
  | succ n =>
    refine ⟨[], js "-" ++ ofText (digits (n + 1)) ++ backupSuffix, ?_⟩
    simp only [candidate, List.nil_append, List.append_assoc]

/-! ## Two backups of one minute -/

/-- The tag and the stamp of the minute. -/
def sampleBase : JsString := js "backup-2026-01-01-10-00"

/-- The second backup of a minute was made half a minute after the first. -/
def sampleFiles : List (JsString × StoredFile) :=
  [(candidate sampleBase 0, ⟨[], js "2026-01-01T10:00:05.000Z"⟩),
    (candidate sampleBase 1, ⟨[], js "2026-01-01T10:00:35.000Z"⟩)]

theorem nodup_sampleFiles : (sampleFiles.map Prod.fst).Nodup := by decide

theorem isSegment_sampleFiles :
    ∀ name ∈ sampleFiles.map Prod.fst, Paths.IsSegment name := by
  intro name hname
  rcases List.mem_cons.mp hname with rfl | hname
  · exact ⟨by decide, by decide, by decide, by decide⟩
  · obtain rfl := List.mem_singleton.mp hname
    exact ⟨by decide, by decide, by decide, by decide⟩

theorem isSegment_backups : ∀ s ∈ [js "backups"], Paths.IsSegment s := by
  intro s hs
  obtain rfl := List.mem_singleton.mp hs
  exact ⟨by decide, by decide, by decide, by decide⟩

def sampleDir : BackupDir where
  root := [js "backups"]
  root_names := isSegment_backups
  files := ⟨sampleFiles, nodup_sampleFiles⟩
  file_names := isSegment_sampleFiles
  manifest := none

/-- The archives of the two backups. -/
def sampleFirst : BackupArchive :=
  archiveOf sampleHost sampleDir (candidate sampleBase 0, ⟨[], js "2026-01-01T10:00:05.000Z"⟩)

def sampleSecond : BackupArchive :=
  archiveOf sampleHost sampleDir (candidate sampleBase 1, ⟨[], js "2026-01-01T10:00:35.000Z"⟩)

theorem getBackupArchives_sampleDir :
    getBackupArchives sampleHost sampleDir = [sampleSecond, sampleFirst] := by
  have hlist : listArchives sampleHost sampleDir = [sampleFirst, sampleSecond] := rfl
  have hnewer : ¬newer sampleFirst sampleSecond := by decide
  rw [getBackupArchives, hlist]
  exact (List.insertionSort_cons newer sampleFirst [sampleSecond]).trans (if_neg hnewer)

/-- The root directory. -/
def sampleCwd : Paths.WorkingDirectory := ⟨js "/", by decide⟩

/-- The second backup is listed first and is found. -/
theorem resolves_iff_sample :
    resolveBackupFile sampleHost (fun _ => false) sampleCwd sampleDir sampleSecond.file =
      .ok sampleSecond.path := by
  have hmem : sampleSecond ∈ getBackupArchives sampleHost sampleDir := by
    rw [getBackupArchives_sampleDir]
    exact List.mem_cons_self
  refine (resolves_iff hmem (.inl rfl) rfl).mpr ⟨.inl rfl, fun other hother => ?_⟩
  rw [getBackupArchives_sampleDir] at hother
  obtain ⟨-, hfirst⟩ := List.cons.inj (hother.eq_of_length rfl)
  have hfile : candidate sampleBase 1 = candidate sampleBase 0 :=
    congrArg (fun archive : BackupArchive => archive.file) (List.cons.inj hfirst).1
  exact absurd (candidate_injective sampleBase hfile) Nat.one_ne_zero

/-- The name of the first backup stands for the second one. -/
theorem first_backup_not_found :
    sampleFirst ∈ getBackupArchives sampleHost sampleDir ∧
      resolveBackupFile sampleHost (fun _ => false) sampleCwd sampleDir sampleFirst.file ≠
        .ok sampleFirst.path := by
  have hlist := getBackupArchives_sampleDir
  have hmem : sampleFirst ∈ getBackupArchives sampleHost sampleDir := by
    rw [hlist]
    exact List.mem_cons_of_mem _ List.mem_cons_self
  have hother : sampleSecond.file = candidate sampleBase 1 := rfl
  refine ⟨hmem, not_resolves_of_candidate hmem (by decide) rfl hother ?_ rfl⟩
  rw [hlist]

end MemphisOS.Archives
