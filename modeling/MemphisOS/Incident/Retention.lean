import MemphisOS.Files.Directory
import MemphisOS.Sequences.Sorting
import Mathlib.Data.Rat.Defs
import Mathlib.Algebra.Order.Ring.Rat

/-!
# Retention of incident bundles

After an export the bundles of its directory are sorted by their times of modification, and those
behind the retention count or too old are deleted along with their companions. The bundle that was
just written is one of them.
-/

namespace MemphisOS.Incident

open Ecma Files

def incidentBundlePrefix : JsString := js "incident-bundle-"

def jsonSuffix : JsString := js ".json"

def manifestSuffix : JsString := js ".manifest.json"

def isIncidentBundleFile (name : JsString) : Bool :=
  incidentBundlePrefix.isPrefixOf name && jsonSuffix.isSuffixOf name &&
    !manifestSuffix.isSuffixOf name

def manifestNameForBundle (bundleName : JsString) : JsString :=
  if jsonSuffix.isSuffixOf bundleName then
    bundleName.take (bundleName.length - jsonSuffix.length) ++ manifestSuffix
  else bundleName ++ manifestSuffix

def encryptedCompanionPath (filePath : JsString) : JsString := filePath ++ js ".enc"

/-- The files of the directory of the bundle, each with its time of modification in milliseconds,
in the order in which they are listed. -/
abbrev BundleDir := Directory ℚ

/-- The files that are deleted with a bundle. -/
def companions (bundleName : JsString) : List JsString :=
  [encryptedCompanionPath bundleName, manifestNameForBundle bundleName,
    encryptedCompanionPath (manifestNameForBundle bundleName)]

structure PruneState where
  dir : BundleDir
  removed : List JsString

/-- A file that is there is deleted; deletions succeed. -/
def unlinkFile (state : PruneState) (name : JsString) : PruneState :=
  if (state.dir.read name).isSome then ⟨state.dir.delete name, state.removed ++ [name]⟩ else state

/-- The order of the sort: `b.mtimeMs - a.mtimeMs` is not positive. -/
def Newer (a b : JsString × ℚ) : Prop := b.2 ≤ a.2

instance : DecidableRel Newer := fun _ _ => inferInstanceAs (Decidable (_ ≤ _))

instance : Std.Total Newer := ⟨fun _ _ => le_total _ _⟩

instance : IsTrans (JsString × ℚ) Newer := ⟨fun _ _ _ hab hbc => le_trans hbc hab⟩

/-- The bundles of a directory, as they are listed. -/
def bundleFiles (dir : BundleDir) : List (JsString × ℚ) :=
  dir.entries.filter fun entry => isIncidentBundleFile entry.1

/-- `nowMs - bundle.mtimeMs > maxAgeMs`. -/
def OverAge (nowMs : ℤ) (retentionDays : ℕ) (mtimeMs : ℚ) : Prop :=
  (retentionDays * 24 * 60 * 60 * 1000 : ℕ) < nowMs - mtimeMs

instance (nowMs : ℤ) (retentionDays : ℕ) (mtimeMs : ℚ) :
    Decidable (OverAge nowMs retentionDays mtimeMs) := inferInstanceAs (Decidable (_ < _))

section

variable (retentionCount retentionDays : ℕ) (nowMs : ℤ)

/-- The loop over the sorted bundles, from an index on. -/
def pruneFrom (index : ℕ) (state : PruneState) : List (JsString × ℚ) → PruneState
  | [] => state
  | bundle :: bundles =>
    pruneFrom (index + 1)
      (if retentionCount ≤ index ∨ OverAge nowMs retentionDays bundle.2 then
        (bundle.1 :: companions bundle.1).foldl unlinkFile state
      else state) bundles

/-- The directory after the deletions, and the names of the files that were deleted. -/
def pruneIncidentBundleHistory (dir : BundleDir) : PruneState :=
  pruneFrom retentionCount retentionDays nowMs 0 ⟨dir, []⟩ ((bundleFiles dir).insertionSort Newer)

/-- Fewer bundles than the retention count are newer, or as new and listed before, and the bundle
is not too old. -/
def Retained (dir : BundleDir) (bundle : JsString × ℚ) : Prop :=
  Sequences.rank Newer (bundleFiles dir) bundle < retentionCount ∧
    ¬ OverAge nowMs retentionDays bundle.2

instance (dir : BundleDir) (bundle : JsString × ℚ) :
    Decidable (Retained retentionCount retentionDays nowMs dir bundle) :=
  inferInstanceAs (Decidable (_ ∧ _))

end

/-! ## Names -/

theorem getLast?_of_suffix {α : Type} {s t : List α} (h : s <:+ t) (hs : s ≠ []) :
    t.getLast? = s.getLast? := by
  obtain ⟨u, rfl⟩ := h
  exact List.getLast?_append_of_ne_nil _ hs

/-- An encrypted file is no bundle. -/
theorem isBundle_encrypted (name : JsString) :
    isIncidentBundleFile (encryptedCompanionPath name) = false := by
  have hjson : jsonSuffix.isSuffixOf (encryptedCompanionPath name) = false := by
    rw [Bool.eq_false_iff]
    intro h
    have hlast := getLast?_of_suffix (List.isSuffixOf_iff_suffix.mp h) (by decide)
    rw [encryptedCompanionPath, List.getLast?_append_of_ne_nil _ (by decide)] at hlast
    exact absurd hlast (by decide)
  rw [isIncidentBundleFile, hjson, Bool.and_false, Bool.false_and]

/-- A manifest is no bundle. -/
theorem isBundle_manifest (name : JsString) :
    isIncidentBundleFile (manifestNameForBundle name) = false := by
  have hmanifest : manifestSuffix.isSuffixOf (manifestNameForBundle name) = true := by
    rw [List.isSuffixOf_iff_suffix, manifestNameForBundle]
    split
    · exact List.suffix_append _ _
    · exact List.suffix_append _ _
  rw [isIncidentBundleFile, hmanifest, Bool.not_true, Bool.and_false]

theorem isBundle_companion {name companion : JsString} (h : companion ∈ companions name) :
    isIncidentBundleFile companion = false := by
  simp only [companions, List.mem_cons, List.not_mem_nil, or_false] at h
  rcases h with rfl | rfl | rfl
  · exact isBundle_encrypted name
  · exact isBundle_manifest name
  · exact isBundle_encrypted _

/-- A bundle is deleted as itself only. -/
theorem eq_of_mem_files {name bundle : JsString} (hname : isIncidentBundleFile name = true)
    (h : name ∈ bundle :: companions bundle) : name = bundle := by
  rcases List.mem_cons.mp h with heq | h
  · exact heq
  · rw [isBundle_companion h] at hname
    cases hname

/-- The encrypted companion of a bundle is deleted with the bundle only. -/
theorem eq_of_mem_encrypted {name bundle : JsString} (hname : isIncidentBundleFile name = true)
    (hbundle : isIncidentBundleFile bundle = true)
    (h : encryptedCompanionPath name ∈ bundle :: companions bundle) : name = bundle := by
  have hinj {a b : JsString} (heq : encryptedCompanionPath a = encryptedCompanionPath b) :
      a = b := List.append_cancel_right heq
  simp only [companions, List.mem_cons, List.not_mem_nil, or_false] at h
  rcases h with heq | heq | heq | heq
  · rw [← heq, isBundle_encrypted] at hbundle
    cases hbundle
  · exact hinj heq
  · have hlast := congrArg List.getLast? heq
    have hmanifest : (manifestNameForBundle bundle).getLast? = manifestSuffix.getLast? := by
      rw [manifestNameForBundle]
      split <;> exact List.getLast?_append_of_ne_nil _ (by decide)
    rw [hmanifest, encryptedCompanionPath, List.getLast?_append_of_ne_nil _ (by decide)] at hlast
    exact absurd hlast (by decide)
  · rw [hinj heq, isBundle_manifest] at hname
    cases hname

/-! ## Deleting -/

variable {state : PruneState} {name : JsString}

theorem read_unlinkFile (state : PruneState) (file name : JsString) :
    (unlinkFile state file).dir.read name = if name = file then none else state.dir.read name := by
  rw [unlinkFile]
  split
  · exact Directory.read_delete _ _ _
  · rename_i hnone
    split
    · rename_i heq
      rw [heq]
      simpa using hnone
    · rfl

theorem read_unlinkFiles (files : List JsString) (state : PruneState) (name : JsString) :
    (files.foldl unlinkFile state).dir.read name =
      if name ∈ files then none else state.dir.read name := by
  induction files generalizing state with
  | nil => rfl
  | cons file files ih =>
    rw [List.foldl_cons, ih, read_unlinkFile]
    by_cases hrest : name ∈ files
    · rw [if_pos hrest, if_pos (List.mem_cons_of_mem _ hrest)]
    · rw [if_neg hrest]
      refine if_congr ?_ rfl rfl
      rw [List.mem_cons, or_iff_left hrest]

section

variable {retentionCount retentionDays : ℕ} {nowMs : ℤ}

/-- The files that are deleted are those of the bundles that are over the count or too old. -/
theorem read_pruneFrom (index : ℕ) (state : PruneState) (bundles : List (JsString × ℚ))
    (name : JsString) :
    (pruneFrom retentionCount retentionDays nowMs index state bundles).dir.read name = none ↔
      state.dir.read name = none ∨
        ∃ (k : ℕ) (bundle : JsString × ℚ), bundles[k]? = some bundle ∧
          (retentionCount ≤ index + k ∨ OverAge nowMs retentionDays bundle.2) ∧
          name ∈ bundle.1 :: companions bundle.1 := by
  induction bundles generalizing index state with
  | nil => simp [pruneFrom]
  | cons first bundles ih =>
    have hfirst : ∀ next, next = (if retentionCount ≤ index ∨ OverAge nowMs retentionDays first.2
        then (first.1 :: companions first.1).foldl unlinkFile state else state) →
        (next.dir.read name = none ↔ state.dir.read name = none ∨
          (retentionCount ≤ index ∨ OverAge nowMs retentionDays first.2) ∧
            name ∈ first.1 :: companions first.1) := by
      rintro next rfl
      split
      · rename_i hdoomed
        rw [read_unlinkFiles]
        split
        · rename_i hmem
          exact ⟨fun _ => .inr ⟨hdoomed, hmem⟩, fun _ => rfl⟩
        · rename_i hmem
          exact ⟨.inl, fun hor => hor.elim (fun hnone => hnone) fun hfile => absurd hfile.2 hmem⟩
      · rename_i hkept
        exact ⟨.inl, fun hor => hor.elim (fun hnone => hnone) fun hfile => absurd hfile.1 hkept⟩
    rw [pruneFrom, ih, hfirst _ rfl, or_assoc]
    refine or_congr_right ⟨?_, ?_⟩
    · rintro (⟨hdoomed, hmem⟩ | ⟨k, bundle, hget, hdoomed, hmem⟩)
      · exact ⟨0, first, rfl, hdoomed, hmem⟩
      · exact ⟨k + 1, bundle, hget, by rwa [Nat.add_right_comm, Nat.add_assoc] at hdoomed, hmem⟩
    · rintro ⟨k, bundle, hget, hdoomed, hmem⟩
      cases k with
      | zero =>
        cases hget
        exact .inl ⟨hdoomed, hmem⟩
      | succ k =>
        exact .inr ⟨k, bundle, hget, by rwa [Nat.add_right_comm, Nat.add_assoc], hmem⟩

variable {dir : BundleDir}

theorem nodup_bundleFiles (dir : BundleDir) : (bundleFiles dir).Nodup :=
  (List.Nodup.of_map _ dir.nodup).filter _

theorem mem_bundleFiles {bundle : JsString × ℚ} : bundle ∈ bundleFiles dir ↔
    bundle ∈ dir.entries ∧ isIncidentBundleFile bundle.1 = true := List.mem_filter

variable (retentionCount retentionDays nowMs) in
/-- **What is deleted.** A file is deleted when it is one of the files of a bundle that is not
retained. -/
theorem read_prune (dir : BundleDir) (name : JsString) :
    (pruneIncidentBundleHistory retentionCount retentionDays nowMs dir).dir.read name = none ↔
      dir.read name = none ∨
        ∃ bundle ∈ bundleFiles dir, ¬ Retained retentionCount retentionDays nowMs dir bundle ∧
          name ∈ bundle.1 :: companions bundle.1 := by
  have hdropped (bundle : JsString × ℚ) (hbundle : bundle ∈ bundleFiles dir) :
      (∃ k : ℕ, ((bundleFiles dir).insertionSort Newer)[k]? = some bundle ∧
        (retentionCount ≤ 0 + k ∨ OverAge nowMs retentionDays bundle.2)) ↔
        ¬ Retained retentionCount retentionDays nowMs dir bundle := by
    have hrank := Sequences.mem_drop_insertionSort_iff (r := Newer) (nodup_bundleFiles dir) hbundle
      retentionCount
    rw [Retained, not_and_or, not_lt, not_not, ← hrank, List.mem_iff_getElem?]
    simp only [List.getElem?_drop]
    constructor
    · rintro ⟨k, hget, hcount | hage⟩
      · rw [Nat.zero_add] at hcount
        exact .inl ⟨k - retentionCount, by rwa [Nat.add_sub_cancel' hcount]⟩
      · exact .inr hage
    · rintro (⟨k, hget⟩ | hage)
      · exact ⟨retentionCount + k, hget, .inl (by omega)⟩
      · obtain ⟨k, hget⟩ := List.mem_iff_getElem?.mp ((List.mem_insertionSort Newer).mpr hbundle)
        exact ⟨k, hget, .inr hage⟩
  rw [pruneIncidentBundleHistory, read_pruneFrom]
  refine or_congr_right ⟨?_, ?_⟩
  · rintro ⟨k, bundle, hget, hdoomed, hmem⟩
    have hbundle := (List.mem_insertionSort Newer).mp (List.mem_of_getElem? hget)
    exact ⟨bundle, hbundle, (hdropped bundle hbundle).mp ⟨k, hget, hdoomed⟩, hmem⟩
  · rintro ⟨bundle, hbundle, hlost, hmem⟩
    obtain ⟨k, hget, hdoomed⟩ := (hdropped bundle hbundle).mpr hlost
    exact ⟨k, bundle, hget, hdoomed, hmem⟩

/-- What is left was there before. -/
theorem names_prune {name : JsString}
    (h : name ∈ (pruneIncidentBundleHistory retentionCount retentionDays nowMs dir).dir.names) :
    name ∈ dir.names := by
  by_contra hnot
  have hnone := (read_prune retentionCount retentionDays nowMs dir name).mpr
    (.inl (Directory.read_eq_none_iff.mpr hnot))
  exact Directory.read_eq_none_iff.mp hnone h

/-- A bundle that is left is one of the first of the sorted bundles. -/
theorem mem_take_of_left {name : JsString} (hname : isIncidentBundleFile name = true)
    (h : name ∈ (pruneIncidentBundleHistory retentionCount retentionDays nowMs dir).dir.names) :
    name ∈ (((bundleFiles dir).insertionSort Newer).take retentionCount).map Prod.fst := by
  obtain ⟨mtime, hread⟩ := Directory.mem_names_iff.mp (names_prune h)
  have hbundle : (name, mtime) ∈ bundleFiles dir :=
    mem_bundleFiles.mpr ⟨(mem_iff_lookup dir.nodup).mpr hread, hname⟩
  have hretained : Retained retentionCount retentionDays nowMs dir (name, mtime) := by
    by_contra hlost
    have hnone := (read_prune retentionCount retentionDays nowMs dir name).mpr
      (.inr ⟨(name, mtime), hbundle, hlost, List.mem_cons_self⟩)
    exact Directory.read_eq_none_iff.mp hnone h
  have hsorted : (name, mtime) ∈ ((bundleFiles dir).insertionSort Newer).take retentionCount ++
      ((bundleFiles dir).insertionSort Newer).drop retentionCount := by
    rw [List.take_append_drop]
    exact (List.mem_insertionSort Newer).mpr hbundle
  rcases List.mem_append.mp hsorted with hkept | hdropped
  · exact List.mem_map_of_mem hkept
  · have hrank := (Sequences.mem_drop_insertionSort_iff (nodup_bundleFiles dir) hbundle
      retentionCount).mp hdropped
    exact absurd hretained.1 (Nat.not_lt_of_le hrank)

/-! ## What an export relies on -/

/-- The directory after the deletions, for an export that has written some of its files. -/
structure PrunedSafely (dir after : BundleDir) (retentionCount : ℕ) (written : List JsString) :
    Prop where
  /-- What the export has written is still there. -/
  kept : ∀ name ∈ written, name ∈ dir.names → name ∈ after.names
  /-- No more bundles than the retention count are left. -/
  count : (after.names.filter fun name => isIncidentBundleFile name).length ≤ retentionCount
  /-- Of a bundle that is deleted nothing is left. -/
  companions : ∀ bundle ∈ dir.names, isIncidentBundleFile bundle = true → bundle ∉ after.names →
    ∀ name ∈ Incident.companions bundle, name ∉ after.names

variable (retentionCount retentionDays nowMs) in
/-- The bundles that are left are not too many. -/
theorem length_bundles_prune (dir : BundleDir) :
    ((pruneIncidentBundleHistory retentionCount retentionDays nowMs dir).dir.names.filter
      fun name => isIncidentBundleFile name).length ≤ retentionCount := by
  set after := (pruneIncidentBundleHistory retentionCount retentionDays nowMs dir).dir
  have hsub : (after.names.filter fun name => isIncidentBundleFile name) ⊆
      (((bundleFiles dir).insertionSort Newer).take retentionCount).map Prod.fst := by
    intro name hname
    obtain ⟨hleft, hbundle⟩ := List.mem_filter.mp hname
    exact mem_take_of_left hbundle hleft
  have hlength := (List.subperm_of_subset (after.nodup_names.filter _) hsub).length_le
  rw [List.length_map] at hlength
  exact hlength.trans (List.length_take_le _ _)

/-- A bundle that is deleted is deleted with its companions. -/
theorem companions_deleted {bundle name : JsString} (hbundle : bundle ∈ dir.names)
    (hname : isIncidentBundleFile bundle = true)
    (hdeleted : bundle ∉
      (pruneIncidentBundleHistory retentionCount retentionDays nowMs dir).dir.names)
    (hcompanion : name ∈ companions bundle) :
    name ∉ (pruneIncidentBundleHistory retentionCount retentionDays nowMs dir).dir.names := by
  have hnone := (read_prune retentionCount retentionDays nowMs dir bundle).mp
    (Directory.read_eq_none_iff.mpr hdeleted)
  rcases hnone with hnone | ⟨other, hother, hlost, hmem⟩
  · exact absurd hbundle (Directory.read_eq_none_iff.mp hnone)
  · obtain rfl := eq_of_mem_files hname hmem
    exact Directory.read_eq_none_iff.mp ((read_prune _ _ _ dir name).mpr
      (.inr ⟨other, hother, hlost, List.mem_cons_of_mem _ hcompanion⟩))

/-- **The retention of bundles.** The deletions spare what the export has written exactly when the
bundles whose files it has written are retained; this is so for a bundle that is named as such and
its encrypted companion when fewer bundles than the retention count are newer, or as new and listed
before, and it is not too old. -/
theorem prunedSafely_iff (dir : BundleDir) (retentionCount retentionDays : ℕ) (nowMs : ℤ)
    (written : List JsString) :
    let after := (pruneIncidentBundleHistory retentionCount retentionDays nowMs dir).dir
    (PrunedSafely dir after retentionCount written ↔
      ∀ name ∈ written, name ∈ dir.names → ∀ bundle ∈ bundleFiles dir,
        name ∈ bundle.1 :: companions bundle.1 →
          Retained retentionCount retentionDays nowMs dir bundle) ∧
    ∀ bundle ∈ bundleFiles dir,
      (PrunedSafely dir after retentionCount [bundle.1, encryptedCompanionPath bundle.1] ↔
        Retained retentionCount retentionDays nowMs dir bundle) := by
  intro after
  have hiff (written : List JsString) : PrunedSafely dir after retentionCount written ↔
      ∀ name ∈ written, name ∈ dir.names → ∀ bundle ∈ bundleFiles dir,
        name ∈ bundle.1 :: companions bundle.1 →
          Retained retentionCount retentionDays nowMs dir bundle := by
    constructor
    · intro hsafe name hwritten hname bundle hbundle hfile
      by_contra hlost
      have hnone := (read_prune retentionCount retentionDays nowMs dir name).mpr
        (.inr ⟨bundle, hbundle, hlost, hfile⟩)
      exact Directory.read_eq_none_iff.mp hnone (hsafe.kept name hwritten hname)
    · intro hretained
      refine ⟨fun name hwritten hname => ?_, length_bundles_prune _ _ _ dir,
        fun bundle hbundle hname hdeleted name hcompanion =>
          companions_deleted hbundle hname hdeleted hcompanion⟩
      by_contra hdeleted
      rcases (read_prune retentionCount retentionDays nowMs dir name).mp
        (Directory.read_eq_none_iff.mpr hdeleted) with hnone | ⟨bundle, hbundle, hlost, hfile⟩
      · exact Directory.read_eq_none_iff.mp hnone hname
      · exact hlost (hretained name hwritten hname bundle hbundle hfile)
  refine ⟨hiff written, fun bundle hbundle => (hiff _).trans ⟨fun hretained => ?_, ?_⟩⟩
  · obtain ⟨hentry, -⟩ := mem_bundleFiles.mp hbundle
    exact hretained bundle.1 List.mem_cons_self (List.mem_map_of_mem hentry) bundle hbundle
      List.mem_cons_self
  · intro hretained name hname _ other hother hfile
    obtain ⟨hentry, hnamed⟩ := mem_bundleFiles.mp hbundle
    obtain ⟨hentry', hnamed'⟩ := mem_bundleFiles.mp hother
    have hsame : bundle.1 = other.1 := by
      simp only [List.mem_cons, List.not_mem_nil, or_false] at hname
      rcases hname with rfl | rfl
      · exact eq_of_mem_files hnamed hfile
      · exact eq_of_mem_encrypted hnamed hnamed' hfile
    have heq : bundle = other := List.inj_on_of_nodup_map dir.nodup hentry hentry' hsame
    rwa [← heq]

/-- A directory in which another bundle has a time of modification in the future. -/
def skewedDir : BundleDir where
  entries := [(js "incident-bundle-old.json", 2000), (js "incident-bundle-new.json", 1000)]
  nodup := nodup_skewedDir
where
  nodup_skewedDir : ([js "incident-bundle-old.json", js "incident-bundle-new.json"]).Nodup := by
    decide

/-- With room for two bundles the one that was just written is kept. -/
theorem prunedSafely_two :
    PrunedSafely skewedDir (pruneIncidentBundleHistory 2 14 1000 skewedDir).dir 2
      [js "incident-bundle-new.json", encryptedCompanionPath (js "incident-bundle-new.json")] :=
  ((prunedSafely_iff skewedDir 2 14 1000 []).2 (js "incident-bundle-new.json", 1000)
    (by decide +kernel)).mpr (by decide +kernel)

/-- **A bundle that is lost.** The bundle that was just written is deleted. -/
theorem current_bundle_deleted :
    ¬ PrunedSafely skewedDir (pruneIncidentBundleHistory 1 14 1000 skewedDir).dir 1
      [js "incident-bundle-new.json", encryptedCompanionPath (js "incident-bundle-new.json")] := by
  intro hsafe
  have hkept := hsafe.kept (js "incident-bundle-new.json") List.mem_cons_self (by decide)
  revert hkept
  decide +kernel

end

end MemphisOS.Incident
