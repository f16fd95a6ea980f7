import MemphisOS.Ecma.Maps

/-!
# Directories

A directory holds entries of different names, in the order in which they are listed. Entries
are moved from one directory to another one by one, until a move fails.
-/

namespace Files

open Ecma

/-- A directory. -/
structure Directory (α : Type) where
  entries : List (JsString × α)
  nodup : (entries.map Prod.fst).Nodup

namespace Directory

variable {α : Type}

def empty : Directory α := ⟨[], List.nodup_nil⟩

/-- The names in a directory, as they are listed. -/
def names (dir : Directory α) : List JsString := dir.entries.map Prod.fst

def read (dir : Directory α) (name : JsString) : Option α := dir.entries.lookup name

def write (dir : Directory α) (name : JsString) (a : α) : Directory α :=
  ⟨setMember name a dir.entries, nodup_setMember dir.nodup name a⟩

def delete (dir : Directory α) (name : JsString) : Directory α :=
  ⟨dir.entries.filter (·.1 ≠ name), dir.nodup.sublist (List.filter_sublist.map _)⟩

@[simp] theorem read_empty (name : JsString) : (empty : Directory α).read name = none := rfl

@[simp] theorem names_empty : (empty : Directory α).names = [] := rfl

theorem read_write (dir : Directory α) (name : JsString) (a : α) (name' : JsString) :
    (dir.write name a).read name' = if name' = name then some a else dir.read name' :=
  lookup_setMember name a dir.entries name'

theorem read_delete (dir : Directory α) (name name' : JsString) :
    (dir.delete name).read name' = if name' = name then none else dir.read name' := by
  have h := lookup_filter (fun key => decide (key ≠ name)) dir.entries name'
  by_cases hname : name' = name
  · rw [if_pos hname]
    exact h.trans (if_neg (by simpa using hname))
  · rw [if_neg hname]
    exact h.trans (if_pos (by simpa using hname))

/-- A name is listed when there is an entry under it. -/
theorem mem_names_iff {dir : Directory α} {name : JsString} :
    name ∈ dir.names ↔ ∃ a, dir.read name = some a := by
  constructor
  · intro h
    obtain ⟨⟨name', a⟩, hentry, rfl⟩ := List.mem_map.mp h
    exact ⟨a, (mem_iff_lookup dir.nodup).mp hentry⟩
  · rintro ⟨a, h⟩
    exact List.mem_map_of_mem (mem_of_lookup_eq_some h)

theorem read_eq_none_iff {dir : Directory α} {name : JsString} :
    dir.read name = none ↔ name ∉ dir.names := by
  rw [mem_names_iff, not_exists, Option.eq_none_iff_forall_ne_some]

theorem nodup_names (dir : Directory α) : dir.names.Nodup := dir.nodup

theorem names_delete (dir : Directory α) (name : JsString) :
    (dir.delete name).names = dir.names.filter (· ≠ name) := by
  rw [names, names, delete, List.filter_map]
  rfl

theorem names_write_of_not_mem {dir : Directory α} {name : JsString} (h : name ∉ dir.names)
    (a : α) : (dir.write name a).names = dir.names ++ [name] :=
  (keys_setMember name a dir.entries).trans (if_neg h)

/-! ## Moving -/

/-- Move the entries of these names, in order. The first move that fails ends the loop: one
that the host fails, one of a name that is not there, and one onto an entry that cannot be
replaced. -/
def moveAll (fails : JsString → Bool) (replaces : α → α → Bool) :
    List JsString → Directory α → Directory α → Option JsString × Directory α × Directory α
  | [], source, target => (none, source, target)
  | name :: names, source, target =>
    if fails name then (some name, source, target)
    else
      match source.read name with
      | none => (some name, source, target)
      | some a =>
        if (target.read name).all (replaces a) then
          moveAll fails replaces names (source.delete name) (target.write name a)
        else (some name, source, target)

variable {fails : JsString → Bool} {replaces : α → α → Bool} {names : List JsString}
  {source target : Directory α}

/-- These names were moved from one directory to the other, and nothing else changed. -/
structure Moved (done : List JsString) (source target source' target' : Directory α) : Prop where
  source_read : ∀ name, source'.read name = if name ∈ done then none else source.read name
  target_read : ∀ name, target'.read name =
    if name ∈ done then source.read name else target.read name
  source_names : source'.names = source.names.filter (· ∉ done)
  target_names : (∀ name ∈ done, name ∉ target.names) → target'.names = target.names ++ done

theorem Moved.nil (source target : Directory α) : Moved [] source target source target where
  source_read := by simp
  target_read := by simp
  source_names := by simp
  target_names := by simp

/-- One more name, moved first. -/
theorem Moved.cons {name : JsString} {a : α} {done : List JsString}
    {source' target' : Directory α} (hread : source.read name = some a) (hdone : name ∉ done)
    (h : Moved done (source.delete name) (target.write name a) source' target') :
    Moved (name :: done) source target source' target' where
  source_read name' := by
    rw [h.source_read, read_delete]
    by_cases hname : name' = name
    · simp [hname]
    · simp [hname]
  target_read name' := by
    rw [h.target_read, read_delete, read_write]
    by_cases hname : name' = name
    · simp [hname, hdone, hread]
    · simp [hname]
  source_names := by
    rw [h.source_names, names_delete, List.filter_filter]
    congr 1
    funext name'
    by_cases hname : name' = name <;> simp [hname]
  target_names hnew := by
    have hname := hnew name List.mem_cons_self
    rw [h.target_names, names_write_of_not_mem hname, List.append_assoc, List.singleton_append]
    intro name' hname'
    rw [names_write_of_not_mem hname, List.mem_append, not_or, List.mem_singleton]
    exact ⟨hnew name' (List.mem_cons_of_mem _ hname'), fun heq => hdone (heq ▸ hname')⟩

/-- **The loop moves the names before the one it stops at**, each onto nothing or onto an entry
it can replace. -/
theorem moved_moveAll (fails : JsString → Bool) (replaces : α → α → Bool) (hnames : names.Nodup)
    (source target : Directory α) :
    ∃ done rest, names = done ++ rest ∧
      rest.head? = (moveAll fails replaces names source target).1 ∧
      Moved done source target (moveAll fails replaces names source target).2.1
        (moveAll fails replaces names source target).2.2 ∧
      ∀ name ∈ done, ∃ a, (target.read name).all (replaces a) = true := by
  induction names generalizing source target with
  | nil => exact ⟨[], [], rfl, rfl, .nil source target, by simp⟩
  | cons name names ih =>
    rw [List.nodup_cons] at hnames
    rw [moveAll]
    split
    · exact ⟨[], name :: names, rfl, rfl, .nil source target, by simp⟩
    · split
      · exact ⟨[], name :: names, rfl, rfl, .nil source target, by simp⟩
      · next a hread =>
        split
        · next hreplaces =>
          obtain ⟨done, rest, hsplit, hhead, hmoved, hall⟩ :=
            ih hnames.2 (source.delete name) (target.write name a)
          have hdone : name ∉ done := fun h => hnames.1 (hsplit ▸ List.mem_append_left _ h)
          refine ⟨name :: done, rest, by rw [hsplit, List.cons_append], hhead,
            hmoved.cons hread hdone, fun name' hname' => ?_⟩
          rcases List.mem_cons.mp hname' with rfl | hname'
          · exact ⟨a, hreplaces⟩
          · have hne : name' ≠ name := fun h => hdone (h ▸ hname')
            have h := hall name' hname'
            rwa [read_write, if_neg hne] at h
        · exact ⟨[], name :: names, rfl, rfl, .nil source target, by simp⟩

/-- The names before the one a loop stops at. -/
theorem takeWhile_eq_of_split {names done rest : List JsString} {name : JsString}
    (hnames : names.Nodup) (hsplit : names = done ++ rest) (hhead : rest.head? = some name) :
    names.takeWhile (· ≠ name) = done := by
  obtain ⟨rest, rfl⟩ := List.head?_eq_some_iff.mp hhead
  have hdone : name ∉ done := by
    intro h
    rw [hsplit, List.nodup_append] at hnames
    exact hnames.2.2 name h name List.mem_cons_self rfl
  rw [hsplit, List.takeWhile_append_of_pos, List.takeWhile_cons_of_neg (by simp),
    List.append_nil]
  intro name' h
  simpa using fun heq : name' = name => hdone (heq ▸ h)

/-- The loop moves all names when no move fails. -/
theorem moveAll_eq_none (hnames : names.Nodup) (hfails : ∀ name ∈ names, fails name = false)
    (hsource : ∀ name ∈ names, name ∈ source.names)
    (htarget : ∀ name ∈ names, name ∉ target.names) :
    (moveAll fails replaces names source target).1 = none := by
  induction names generalizing source target with
  | nil => rfl
  | cons name names ih =>
    rw [List.nodup_cons] at hnames
    obtain ⟨a, hread⟩ := mem_names_iff.mp (hsource name List.mem_cons_self)
    have hnew := htarget name List.mem_cons_self
    rw [moveAll, if_neg (by simp [hfails name List.mem_cons_self]), hread]
    dsimp only
    rw [read_eq_none_iff.mpr hnew, Option.all_none, if_pos rfl]
    apply ih hnames.2
    · exact fun name' h => hfails name' (List.mem_cons_of_mem _ h)
    · intro name' h
      rw [names_delete, List.mem_filter]
      exact ⟨hsource name' (List.mem_cons_of_mem _ h), by
        simpa using fun heq : name' = name => hnames.1 (heq ▸ h)⟩
    · intro name' h
      rw [names_write_of_not_mem hnew, List.mem_append, not_or, List.mem_singleton]
      exact ⟨htarget name' (List.mem_cons_of_mem _ h), fun heq => hnames.1 (heq ▸ h)⟩

/-! ## Removing -/

/-- Remove the entries of these names, in order, until a removal fails. That one leaves its entry
as it is, or this in its place. -/
def removeAll (fails : JsString → Bool) (left : JsString → Option α) :
    List JsString → Directory α → Option JsString × Directory α
  | [], dir => (none, dir)
  | name :: names, dir =>
    if fails name then
      (some name, match left name with
        | none => dir
        | some a => dir.write name a)
    else removeAll fails left names (dir.delete name)

/-- **The loop removes the names before the one it stops at.** -/
theorem removeAll_read (fails : JsString → Bool) (left : JsString → Option α)
    (names : List JsString) (dir : Directory α) :
    ∃ done rest, names = done ++ rest ∧ rest.head? = (removeAll fails left names dir).1 ∧
      ∀ name, (removeAll fails left names dir).2.read name =
        if rest.head? = some name ∧ (left name).isSome = true then left name
        else if name ∈ done then none else dir.read name := by
  induction names generalizing dir with
  | nil => exact ⟨[], [], rfl, rfl, by simp [removeAll]⟩
  | cons name names ih =>
    rw [removeAll]
    split
    · refine ⟨[], name :: names, rfl, rfl, fun name' => ?_⟩
      cases hleft : left name with
      | none =>
        by_cases hname : name = name'
        · subst hname
          simp [hleft]
        · simp [hname]
      | some a =>
        dsimp only
        rw [read_write]
        by_cases hname : name' = name
        · subst hname
          simp [hleft]
        · simp [hname, Ne.symm hname]
    · obtain ⟨done, rest, hsplit, hhead, hread⟩ := ih (dir.delete name)
      refine ⟨name :: done, rest, by rw [hsplit, List.cons_append], hhead, fun name' => ?_⟩
      rw [hread, read_delete]
      by_cases hname : name' = name
      · simp [hname]
      · simp [hname]

end Directory

end Files
