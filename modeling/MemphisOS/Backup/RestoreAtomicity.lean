import MemphisOS.Backup.Restore

/-!
# What a restore leaves

A restore that throws is undone when the failing step is in the `try` block or comes before the
first move. In the loop before it, what was moved aside is gone from the root. A restore that
returns has deleted what the archive does not hold.
-/

namespace MemphisOS.Backup

open Ecma Files

/-- The root holds what it held before, and perhaps new backup files. -/
structure Held (before after : Folder) : Prop where
  items : ∀ name, name ≠ backupsName → after.read name = before.read name
  backups : after.read backupsName = before.read backupsName ∨
    ∃ files, after.read backupsName = some (addFiles files (before.read backupsName))

/-! ## What the steps leave -/

/-- What is under a name when the staged items were moved in and the compensation ended. -/
def leftByCompensation (host : Host) (root : Folder) (moved : List JsString) :
    Option Step → JsString → Option Node
  | none, name => root.read name
  | some .listRoot, name => if name ∈ moved then host.staged.read name else none
  | some (.remove item), name =>
    if item = name ∧ (host.left name).isSome = true then host.left name
    else if name ∈ moved.takeWhile (· ≠ item) then none
    else if name ∈ moved then host.staged.read name else none
  | some (.moveBack item), name =>
    if name ∈ (items root).takeWhile (· ≠ item) then root.read name else none
  | some _, _ => none

/-- What is under a name after a step has thrown. -/
def leftOver (host : Host) (root : Folder) : Step → Option Step → JsString → Option Node
  | .moveOut item, _, name =>
    if name ∈ (items root).takeWhile (· ≠ item) then none else root.read name
  | .listStaged, compensation, name => leftByCompensation host root [] compensation name
  | .moveIn item, compensation, name =>
    leftByCompensation host root (host.staged.names.takeWhile (· ≠ item)) compensation name
  | .cleanUp, _, name | .verifyAgain, _, name | .log, _, name => host.staged.read name
  | _, _, name => root.read name

/-- The restore throws before the first item is moved, or the compensation succeeds, or what is
left happens to be what was there. -/
def Compensated (host : Host) (root : Folder) : Step → Option Step → Prop
  | .makeDirectories, _ | .verify, _ | .backup, _ | .extract, _ | .listItems, _ => True
  | .moveOut item, _ => (items root).head? = some item
  | .listStaged, none | .moveIn _, none => True
  | step, compensation => ∀ name, name ≠ backupsName →
      leftOver host root step compensation name = root.read name

variable {host : Host} {root root' current : Folder} {step : Step} {compensation : Option Step}

/-! ## Backup files -/

theorem read_addBackups_of_ne {files : List (JsString × Node)} {name : JsString}
    (h : name ≠ backupsName) : (addBackups files root).read name = root.read name := by
  rw [addBackups, Directory.read_write, if_neg h]

theorem read_addBackups_self (files : List (JsString × Node)) (root : Folder) :
    (addBackups files root).read backupsName =
      some (addFiles files (root.read backupsName)) := by
  rw [addBackups, Directory.read_write, if_pos rfl]

theorem held_addBackups (files : List (JsString × Node)) (root : Folder) :
    Held root (addBackups files root) where
  items _ h := read_addBackups_of_ne h
  backups := .inr ⟨files, read_addBackups_self files root⟩

theorem Held.refl (root : Folder) : Held root root where
  items _ _ := rfl
  backups := .inl rfl

theorem nodup_items (root : Folder) : (items root).Nodup := root.nodup_names.filter _

theorem items_addBackups (files : List (JsString × Node)) (root : Folder) :
    items (addBackups files root) = items root := by
  have hnames : (addBackups files root).names =
      if backupsName ∈ root.names then root.names else root.names ++ [backupsName] :=
    keys_setMember _ _ _
  rw [items, hnames, items]
  split
  · rfl
  · simp [List.filter_append]

theorem mem_items_iff {name : JsString} :
    name ∈ items root ↔ name ≠ backupsName ∧ ∃ node, root.read name = some node := by
  rw [items, List.mem_filter, Directory.mem_names_iff, decide_eq_true_eq, and_comm]

/-- A directory with a file in it. -/
def Filled (entry : Option Node) : Prop := ∃ first rest, entry = some (.dir (first :: rest))

theorem setMember_ne_nil (name : JsString) (node : Node) (entries : List (JsString × Node)) :
    setMember name node entries ≠ [] := by
  cases entries with
  | nil => exact List.cons_ne_nil _ _
  | cons entry entries =>
    rw [setMember]
    split <;> exact List.cons_ne_nil _ _

theorem filled_addFiles (file : JsString × Node) (files : List (JsString × Node))
    (entry : Option Node) : Filled (some (addFiles (file :: files) entry)) := by
  obtain ⟨before, last, hlast⟩ : ∃ before last, file :: files = before ++ [last] := by
    simpa using List.eq_nil_or_concat (file :: files)
  rw [addFiles, hlast, List.foldl_append, List.foldl_cons, List.foldl_nil]
  obtain ⟨first, rest, hcons⟩ := List.exists_cons_of_ne_nil (setMember_ne_nil last.1 last.2 _)
  exact ⟨first, rest, by rw [hcons]⟩

/-- Nothing is moved onto a directory with a file in it. -/
theorem not_replaces_filled {entry : Option Node} (h : Filled entry) (node : Node) :
    entry.all (replaces node) = false := by
  obtain ⟨first, rest, rfl⟩ := h
  cases node <;> rfl

theorem backups_not_mem_items : backupsName ∉ items root := fun h => (mem_items_iff.mp h).1 rfl

/-- Once the current tree is moved aside, only the backups are left. -/
theorem read_aside {aside : Folder}
    (hout : Directory.Moved (items root) root .empty aside current) (name : JsString) :
    aside.read name = if name = backupsName then root.read name else none := by
  rw [hout.source_read]
  by_cases hname : name = backupsName
  · rw [if_pos hname, if_neg (hname ▸ backups_not_mem_items)]
  · rw [if_neg hname]
    by_cases hitem : name ∈ items root
    · rw [if_pos hitem]
    · rw [if_neg hitem]
      by_contra hsome
      exact hitem (mem_items_iff.mpr ⟨hname, Option.ne_none_iff_exists'.mp hsome⟩)

/-! ## The compensation -/

variable {moved : List JsString}

/-- What the `catch` block leaves, after the current tree was moved aside and some staged items
moved in. -/
theorem compensate_threw {aside staged after : Folder} {step' : Step}
    (hout : Directory.Moved (items root) root .empty aside current)
    (hin : Directory.Moved moved host.staged aside staged root')
    (hmoved : backupsName ∉ moved) (hnodup : moved.Nodup)
    (hthrew : compensate host step root' current = .threw step' compensation after) :
    step' = step ∧ after.read backupsName = root.read backupsName ∧
      ∀ name, name ≠ backupsName →
        after.read name = leftByCompensation host root moved compensation name := by
  have haside : ∀ name, name ≠ backupsName → aside.read name = none := fun name hname => by
    rw [read_aside hout, if_neg hname]
  have hbackups : root'.read backupsName = root.read backupsName := by
    rw [hin.target_read, if_neg hmoved, read_aside hout, if_pos rfl]
  have hread : ∀ name, name ≠ backupsName →
      root'.read name = if name ∈ moved then host.staged.read name else none := by
    intro name hname
    rw [hin.target_read, haside name hname]
  have hitems : items root' = moved := by
    have hnew : ∀ name ∈ moved, name ∉ aside.names := by
      intro name hname
      exact Directory.read_eq_none_iff.mp (haside name fun h => hmoved (h ▸ hname))
    have hkept : aside.names.filter (· ≠ backupsName) = [] := by
      rw [List.filter_eq_nil_iff]
      intro name hname hne
      exact Directory.read_eq_none_iff.mp (haside name (of_decide_eq_true hne)) hname
    have hall : moved.filter (· ≠ backupsName) = moved := by
      rw [List.filter_eq_self]
      exact fun name hname => decide_eq_true fun h => hmoved (h ▸ hname)
    rw [items, hin.target_names hnew, List.filter_append, hkept, hall, List.nil_append]
  have hcurrent : current.names = items root := by
    rw [hout.target_names (by simp)]
    rfl
  have hcurrentRead : ∀ name ∈ items root, current.read name = root.read name := by
    intro name hname
    rw [hout.target_read, if_pos hname]
  unfold compensate at hthrew
  split at hthrew
  · cases hthrew
    exact ⟨rfl, hbackups, hread⟩
  rw [hitems] at hthrew
  obtain ⟨done, rest, hsplit, hhead, hremoved⟩ := Directory.removeAll_read
    (fun item => host.fails (.remove item)) host.left moved root'
  split at hthrew
  · next item root₁ hremove =>
    rw [hremove] at hhead hremoved
    cases hthrew
    have hdone := Directory.takeWhile_eq_of_split hnodup hsplit hhead
    have hne : item ≠ backupsName := by
      rintro rfl
      exact hmoved (hsplit ▸ List.mem_append_right _ (List.mem_of_head? hhead))
    refine ⟨rfl, ?_, fun name hname => ?_⟩
    · rw [hremoved, if_neg (by simp [hhead, hne]), if_neg, hbackups]
      exact fun h => hmoved (hsplit ▸ List.mem_append_left _ h)
    · rw [hremoved, hhead, hread name hname, leftByCompensation, hdone]
      simp only [Option.some.injEq]
  · next root₁ hremove =>
    rw [hremove] at hhead hremoved
    obtain rfl := List.head?_eq_none_iff.mp hhead
    rw [List.append_nil] at hsplit
    subst hsplit
    have hread₁ : ∀ name, root₁.read name = if name ∈ moved then none else root'.read name := by
      intro name
      rw [hremoved, if_neg (by simp)]
    have hbackups₁ : root₁.read backupsName = root.read backupsName := by
      rw [hread₁, if_neg hmoved, hbackups]
    have hempty : ∀ name, name ≠ backupsName → root₁.read name = none := by
      intro name hname
      rw [hread₁, hread name hname]
      split <;> rfl
    split at hthrew
    · cases hthrew
      exact ⟨rfl, hbackups₁, hempty⟩
    · rw [hcurrent] at hthrew
      obtain ⟨done, rest, hsplit, hhead, hback, -⟩ := Directory.moved_moveAll
        (fun item => host.fails (.moveBack item)) replaces (nodup_items root) current root₁
      have hsub : ∀ name ∈ done, name ∈ items root := fun name h =>
        hsplit ▸ List.mem_append_left _ h
      have hread₂ : ∀ name, name ≠ backupsName → (Directory.moveAll
          (fun item => host.fails (.moveBack item)) replaces (items root) current
            root₁).2.2.read name = if name ∈ done then root.read name else none := by
        intro name hname
        rw [hback.target_read, hempty name hname]
        split
        · next h => exact hcurrentRead name (hsub name h)
        · rfl
      have hbackups₂ : (Directory.moveAll (fun item => host.fails (.moveBack item)) replaces
          (items root) current root₁).2.2.read backupsName = root.read backupsName := by
        rw [hback.target_read, if_neg fun h => backups_not_mem_items (hsub _ h),
          hbackups₁]
      split at hthrew
      · next item source target hmove =>
        rw [hmove] at hhead hread₂ hbackups₂
        cases hthrew
        refine ⟨rfl, hbackups₂, fun name hname => ?_⟩
        rw [hread₂ name hname, leftByCompensation,
          Directory.takeWhile_eq_of_split (nodup_items root) hsplit hhead]
      · next source target hmove =>
        rw [hmove] at hhead hread₂ hbackups₂
        cases hthrew
        obtain rfl := List.head?_eq_none_iff.mp hhead
        rw [List.append_nil] at hsplit
        subst hsplit
        refine ⟨rfl, hbackups₂, fun name hname => ?_⟩
        rw [hread₂ name hname, leftByCompensation]
        by_cases hitem : name ∈ items root
        · rw [if_pos hitem]
        · rw [if_neg hitem]
          by_contra hsome
          exact hitem (mem_items_iff.mpr ⟨hname, Option.ne_none_iff_exists'.mp (Ne.symm hsome)⟩)

/-! ## The second loop -/

/-- The second loop moves staged items in, never onto the backups. -/
theorem moveIn_moved {aside : Folder}
    (hout : Directory.Moved (items root) root .empty aside current)
    (hfilled : Filled (root.read backupsName)) {stopped : Option JsString}
    {staged after : Folder}
    (hmove : Directory.moveAll (fun item => host.fails (.moveIn item)) replaces
      host.staged.names host.staged aside = (stopped, staged, after)) :
    ∃ moved rest, host.staged.names = moved ++ rest ∧ rest.head? = stopped ∧
      Directory.Moved moved host.staged aside staged after ∧ backupsName ∉ moved := by
  obtain ⟨moved, rest, hsplit, hhead, hmoved, hall⟩ := Directory.moved_moveAll
    (fun item => host.fails (.moveIn item)) replaces host.staged.nodup_names host.staged aside
  rw [hmove] at hhead hmoved
  refine ⟨moved, rest, hsplit, hhead, hmoved, fun h => ?_⟩
  obtain ⟨node, hreplaces⟩ := hall backupsName h
  rw [read_aside hout, if_pos rfl, not_replaces_filled hfilled] at hreplaces
  cases hreplaces

/-- What is there once the whole staged tree is in. -/
theorem read_of_staged {aside staged after : Folder}
    (hout : Directory.Moved (items root) root .empty aside current)
    (hin : Directory.Moved host.staged.names host.staged aside staged after)
    (hmoved : backupsName ∉ host.staged.names) :
    after.read backupsName = root.read backupsName ∧
      ∀ name, name ≠ backupsName → after.read name = host.staged.read name := by
  constructor
  · rw [hin.target_read, if_neg hmoved, read_aside hout, if_pos rfl]
  · intro name hname
    rw [hin.target_read, read_aside hout, if_neg hname]
    split
    · rfl
    · next h => exact (Directory.read_eq_none_iff.mpr h).symm

theorem finish_threw {after : Folder} (h : finish host root = .threw step compensation after) :
    after = root ∧ (step = .cleanUp ∨ step = .verifyAgain ∨ step = .log) := by
  unfold finish at h
  split at h
  · cases h
    exact ⟨rfl, .inl rfl⟩
  · split at h
    · cases h
      exact ⟨rfl, .inr (.inl rfl)⟩
    · split at h
      · cases h
        exact ⟨rfl, .inr (.inr rfl)⟩
      · cases h

theorem finish_returned {after : Folder} (h : finish host root = .returned after) :
    after = addBackups [(js "restore.log", host.restoreLog)] root := by
  unfold finish at h
  split at h
  · cases h
  · split at h
    · cases h
    · split at h
      · cases h
      · cases h
        rfl

theorem compensate_ne_returned {after : Folder} :
    compensate host step root current ≠ .returned after := by
  unfold compensate
  split
  · exact Outcome.noConfusion
  · split
    · exact Outcome.noConfusion
    · split
      · exact Outcome.noConfusion
      · split <;> exact Outcome.noConfusion

/-- What a throw from the second loop on leaves. -/
theorem replaceTree_threw {aside after : Folder}
    (hout : Directory.Moved (items root) root .empty aside current)
    (hfilled : Filled (root.read backupsName))
    (h : replaceTree host aside current = .threw step compensation after) :
    after.read backupsName = root.read backupsName ∧
      (∀ name, name ≠ backupsName →
        after.read name = leftOver host root step compensation name) ∧
      ∀ item, step ≠ .moveOut item := by
  unfold replaceTree at h
  split at h
  · obtain ⟨rfl, hbackups, hread⟩ := compensate_threw hout
      (Directory.Moved.nil host.staged aside) List.not_mem_nil List.nodup_nil h
    exact ⟨hbackups, hread, fun _ => Step.noConfusion⟩
  · split at h
    · next item staged root' hmove =>
      obtain ⟨moved, rest, hsplit, hhead, hin, hnot⟩ := moveIn_moved hout hfilled hmove
      have hnodup : moved.Nodup :=
        (hsplit ▸ host.staged.nodup_names : (moved ++ rest).Nodup).of_append_left
      obtain ⟨rfl, hbackups, hread⟩ := compensate_threw hout hin hnot hnodup h
      refine ⟨hbackups, fun name hname => ?_, fun _ => Step.noConfusion⟩
      rw [hread name hname, leftOver,
        Directory.takeWhile_eq_of_split host.staged.nodup_names hsplit hhead]
    · next staged root' hmove =>
      obtain ⟨moved, rest, hsplit, hhead, hin, hnot⟩ := moveIn_moved hout hfilled hmove
      obtain rfl := List.head?_eq_none_iff.mp hhead
      rw [List.append_nil] at hsplit
      subst hsplit
      obtain ⟨rfl, hstep⟩ := finish_threw h
      obtain ⟨hbackups, hread⟩ := read_of_staged hout hin hnot
      refine ⟨hbackups, fun name hname => ?_, ?_⟩
      · rw [hread name hname]
        rcases hstep with rfl | rfl | rfl <;> rfl
      · rcases hstep with rfl | rfl | rfl <;> exact fun _ => Step.noConfusion

/-- What is there when the restore returns. -/
theorem replaceTree_returned {aside after : Folder}
    (hout : Directory.Moved (items root) root .empty aside current)
    (hfilled : Filled (root.read backupsName))
    (h : replaceTree host aside current = .returned after) :
    ∀ name, name ≠ backupsName → after.read name = host.staged.read name := by
  unfold replaceTree at h
  split at h
  · exact absurd h compensate_ne_returned
  · split at h
    · exact absurd h compensate_ne_returned
    · next staged root' hmove =>
      obtain ⟨moved, rest, hsplit, hhead, hin, hnot⟩ := moveIn_moved hout hfilled hmove
      obtain rfl := List.head?_eq_none_iff.mp hhead
      rw [List.append_nil] at hsplit
      subst hsplit
      obtain rfl := finish_returned h
      intro name hname
      rw [read_addBackups_of_ne hname]
      exact (read_of_staged hout hin hnot).2 name hname

/-! ## The whole restore -/

theorem leftOver_addBackups (files : List (JsString × Node)) {name : JsString}
    (hname : name ≠ backupsName) :
    leftOver host (addBackups files root) step compensation name =
      leftOver host root step compensation name := by
  have hleft : ∀ moved, leftByCompensation host (addBackups files root) moved compensation name =
      leftByCompensation host root moved compensation name := by
    intro moved
    cases compensation with
    | none => exact read_addBackups_of_ne hname
    | some step =>
      cases step with
      | moveBack item =>
        rw [leftByCompensation, leftByCompensation, items_addBackups, read_addBackups_of_ne hname]
      | _ => rfl
  cases step with
  | moveOut item => rw [leftOver, leftOver, items_addBackups, read_addBackups_of_ne hname]
  | listStaged => exact hleft _
  | moveIn item => exact hleft _
  | cleanUp => rfl
  | verifyAgain => rfl
  | log => rfl
  | _ => exact read_addBackups_of_ne hname

/-- **What a throw leaves** besides the backups. -/
theorem restoreBackup_threw {after : Folder}
    (h : restoreBackup host root = .threw step compensation after) :
    (after.read backupsName = root.read backupsName ∨
      ∃ files, after.read backupsName = some (addFiles files (root.read backupsName))) ∧
    (∀ name, name ≠ backupsName → after.read name = leftOver host root step compensation name) ∧
    ∀ item, step = .moveOut item → item ∈ items root := by
  unfold restoreBackup at h
  split at h
  · cases h
    exact ⟨.inl rfl, fun _ _ => rfl, fun _ => Step.noConfusion⟩
  · cases h
    exact ⟨.inl rfl, fun _ _ => rfl, fun _ => Step.noConfusion⟩
  have hadd := fun files => held_addBackups files root
  split at h
  · cases h
    exact ⟨(hadd _).backups, (hadd _).items, fun _ => Step.noConfusion⟩
  split at h
  · cases h
    exact ⟨(hadd _).backups, (hadd _).items, fun _ => Step.noConfusion⟩
  dsimp only at h
  split at h
  · cases h
    exact ⟨(hadd _).backups, (hadd _).items, fun _ => Step.noConfusion⟩
  split at h
  · cases h
    exact ⟨(hadd _).backups, (hadd _).items, fun _ => Step.noConfusion⟩
  obtain ⟨done, rest, hsplit, hhead, hout, -⟩ := Directory.moved_moveAll
    (fun item => host.fails (.moveOut item)) replaces
    (nodup_items (addBackups (host.archive :: host.archiveFiles) root))
    (addBackups (host.archive :: host.archiveFiles) root) .empty
  split at h
  · next item aside current hmove =>
    rw [hmove] at hhead hout
    cases h
    have hdone := Directory.takeWhile_eq_of_split (nodup_items _) hsplit hhead
    rw [items_addBackups] at hsplit hdone
    refine ⟨?_, fun name hname => ?_, fun item' hitem => ?_⟩
    · rw [hout.source_read, if_neg]
      · exact (hadd _).backups
      · exact fun h => backups_not_mem_items (hsplit ▸ List.mem_append_left _ h)
    · rw [hout.source_read, read_addBackups_of_ne hname, leftOver, hdone]
    · obtain rfl := Step.moveOut.inj hitem
      exact hsplit ▸ List.mem_append_right _ (List.mem_of_head? hhead)
  · next aside current hmove =>
    rw [hmove] at hhead hout
    obtain rfl := List.head?_eq_none_iff.mp hhead
    rw [List.append_nil] at hsplit
    subst hsplit
    have hfilled : Filled ((addBackups (host.archive :: host.archiveFiles) root).read
        backupsName) := read_addBackups_self _ root ▸ filled_addFiles _ _ _
    obtain ⟨hbackups, hread, hstep⟩ := replaceTree_threw hout hfilled h
    refine ⟨?_, fun name hname => ?_, fun item hitem => absurd hitem (hstep item)⟩
    · rw [hbackups]
      exact (hadd _).backups
    · rw [hread name hname, leftOver_addBackups _ hname]

/-- **What is there when the restore returns** besides the backups. -/
theorem restoreBackup_returned {after : Folder} (h : restoreBackup host root = .returned after)
    (name : JsString) (hname : name ≠ backupsName) : after.read name = host.staged.read name := by
  unfold restoreBackup at h
  split at h
  · cases h
  · cases h
  split at h
  · cases h
  split at h
  · cases h
  dsimp only at h
  split at h
  · cases h
  split at h
  · cases h
  obtain ⟨done, rest, hsplit, hhead, hout, -⟩ := Directory.moved_moveAll
    (fun item => host.fails (.moveOut item)) replaces
    (nodup_items (addBackups (host.archive :: host.archiveFiles) root))
    (addBackups (host.archive :: host.archiveFiles) root) .empty
  split at h
  · cases h
  · next aside current hmove =>
    rw [hmove] at hhead hout
    obtain rfl := List.head?_eq_none_iff.mp hhead
    rw [List.append_nil] at hsplit
    subst hsplit
    exact replaceTree_returned hout
      (read_addBackups_self _ root ▸ filled_addFiles _ _ _) h name hname

/-- A throw leaves what was held exactly in the compensated cases. -/
theorem held_iff_compensated {after : Folder}
    (h : restoreBackup host root = .threw step compensation after) :
    Held root after ↔ Compensated host root step compensation := by
  obtain ⟨hbackups, hread, hitem⟩ := restoreBackup_threw h
  have hheld : Held root after ↔ ∀ name, name ≠ backupsName →
      leftOver host root step compensation name = root.read name := by
    constructor
    · exact fun hheld name hname => (hread name hname).symm.trans (hheld.items name hname)
    · exact fun hleft => ⟨fun name hname => (hread name hname).trans (hleft name hname), hbackups⟩
  rw [hheld]
  cases step with
  | moveOut item =>
    obtain ⟨before, rest, hsplit⟩ := List.append_of_mem (hitem item rfl)
    have hdone := Directory.takeWhile_eq_of_split (nodup_items root) hsplit rfl
    simp only [leftOver, hdone, Compensated]
    constructor
    · intro hleft
      cases before with
      | nil => rw [hsplit, List.nil_append, List.head?_cons]
      | cons first before =>
        have hfirst : first ∈ items root := hsplit ▸ List.mem_cons_self
        obtain ⟨hname, node, hnode⟩ := mem_items_iff.mp hfirst
        have hgone := hleft first hname
        rw [if_pos List.mem_cons_self, hnode] at hgone
        cases hgone
    · intro hhead name _
      cases before with
      | nil => rw [if_neg List.not_mem_nil]
      | cons first before =>
        rw [hsplit, List.cons_append, List.head?_cons] at hhead
        obtain rfl := Option.some.inj hhead
        have hnodup := hsplit ▸ nodup_items root
        exact absurd (List.mem_append_right before List.mem_cons_self)
          (List.nodup_cons.mp hnodup).1
  | listStaged =>
    cases compensation with
    | none => exact iff_of_true (fun _ _ => rfl) trivial
    | some _ => exact Iff.rfl
  | moveIn item =>
    cases compensation with
    | none => exact iff_of_true (fun _ _ => rfl) trivial
    | some _ => exact Iff.rfl
  | makeDirectories => exact iff_of_true (fun _ _ => rfl) trivial
  | verify => exact iff_of_true (fun _ _ => rfl) trivial
  | backup => exact iff_of_true (fun _ _ => rfl) trivial
  | extract => exact iff_of_true (fun _ _ => rfl) trivial
  | listItems => exact iff_of_true (fun _ _ => rfl) trivial
  | _ => exact Iff.rfl

end MemphisOS.Backup
