import Mathlib.Data.List.Nodup

/-!
# Tables with a primary key

A table is a list of rows in insertion order with pairwise different keys. Inserting
refuses a key that is taken, and updating leaves keys alone.
-/

namespace Sql

variable {Row Key : Type} {key : Row → Key}

/-- The rows of a table with the given primary key. -/
structure Table (key : Row → Key) where
  rows : List Row
  /-- No two rows share a key. -/
  keysNodup : (rows.map key).Nodup

namespace Table

/-- The table without rows. -/
def empty : Table key := ⟨[], by simp⟩

@[ext] theorem ext {t u : Table key} (h : t.rows = u.rows) : t = u := by
  cases t
  cases u
  simpa using h

/-- Rows with the same key are the same row. -/
theorem eq_of_key_eq {t : Table key} {r s : Row} (hr : r ∈ t.rows) (hs : s ∈ t.rows)
    (h : key r = key s) : r = s :=
  List.inj_on_of_nodup_map t.keysNodup hr hs h

variable [DecidableEq Key]

/-- The row with a key. -/
def find (t : Table key) (k : Key) : Option Row := t.rows.find? fun r => key r = k

/-- Insert a row unless its key is taken. -/
def insert (t : Table key) (row : Row) : Option (Table key) :=
  if h : key row ∈ t.rows.map key then none
  else some ⟨t.rows ++ [row], by
    rw [List.map_append, List.map_singleton, List.nodup_append]
    refine ⟨t.keysNodup, by simp, ?_⟩
    rintro k hk _ hk' rfl
    exact h (List.mem_singleton.mp hk' ▸ hk)⟩

omit [DecidableEq Key] in
/-- Replace the selected rows by rows with the same key. -/
def update (t : Table key) (selected : Row → Bool) (set : Row → Row)
    (hset : ∀ r, key (set r) = key r) : Table key where
  rows := t.rows.map fun r => if selected r then set r else r
  keysNodup := by
    have hkeys : (t.rows.map fun r => if selected r then set r else r).map key =
        t.rows.map key := by
      rw [List.map_map]
      apply List.map_congr_left
      intro r _
      by_cases hr : selected r = true <;> simp [hr, hset]
    rw [hkeys]
    exact t.keysNodup

omit [DecidableEq Key] in
/-- The number of rows an update changes. -/
def changes (t : Table key) (selected : Row → Bool) : ℕ := t.rows.countP selected

variable {t t' : Table key} {k : Key} {r row : Row}

theorem find_eq_some : t.find k = some r ↔ r ∈ t.rows ∧ key r = k := by
  constructor
  · intro h
    exact ⟨List.mem_of_find?_eq_some h, by simpa using List.find?_some h⟩
  · rintro ⟨hr, rfl⟩
    cases hfind : t.find (key r) with
    | none =>
      have hnone := List.find?_eq_none.mp hfind r hr
      simp at hnone
    | some s =>
      have hs := List.mem_of_find?_eq_some hfind
      have hkey : key s = key r := by simpa using List.find?_some hfind
      rw [t.eq_of_key_eq hs hr hkey]

theorem find_eq_none : t.find k = none ↔ ∀ r ∈ t.rows, key r ≠ k := by
  simp [find]

theorem key_of_find (h : t.find k = some r) : key r = k := (find_eq_some.mp h).2

@[simp] theorem find_empty : (empty : Table key).find k = none := rfl

/-- What a successful insertion does: the key was free and only the row is new. -/
theorem insert_eq_some (h : t.insert row = some t') :
    t.find (key row) = none ∧ t'.rows = t.rows ++ [row] := by
  unfold insert at h
  split at h
  · cases h
  · next hfree =>
    obtain rfl := Option.some.inj h
    refine ⟨find_eq_none.mpr fun r hr heq => hfree ?_, rfl⟩
    exact heq ▸ List.mem_map_of_mem hr

theorem insert_eq_none : t.insert row = none ↔ ∃ r, t.find (key row) = some r := by
  unfold insert
  split
  · next hmem =>
    obtain ⟨r, hr, hkey⟩ := List.mem_map.mp hmem
    simpa using ⟨r, find_eq_some.mpr ⟨hr, hkey⟩⟩
  · next hfree =>
    simp only [reduceCtorEq, false_iff, not_exists]
    intro r hr
    obtain ⟨hmem, hkey⟩ := find_eq_some.mp hr
    exact hfree (hkey ▸ List.mem_map_of_mem hmem)

/-- Looking up after an insertion. -/
theorem find_insert (h : t.insert row = some t') (k : Key) :
    t'.find k = if key row = k then some row else t.find k := by
  obtain ⟨hfree, hrows⟩ := insert_eq_some h
  split
  · next hkey => exact find_eq_some.mpr ⟨by simp [hrows], hkey⟩
  · next hkey => simp [find, hrows, List.find?_append, hkey]

/-- Looking up after an update. -/
theorem find_update (selected : Row → Bool) (set : Row → Row) (hset : ∀ r, key (set r) = key r)
    (k : Key) : (t.update selected set hset).find k =
      (t.find k).map fun r => if selected r then set r else r := by
  cases hfind : t.find k with
  | none =>
    rw [Option.map_none, find_eq_none]
    intro r hr
    obtain ⟨s, hs, rfl⟩ := List.mem_map.mp hr
    have hs' := find_eq_none.mp hfind s hs
    by_cases hsel : selected s = true <;> simpa [hsel, hset] using hs'
  | some r =>
    obtain ⟨hr, rfl⟩ := find_eq_some.mp hfind
    rw [Option.map_some, find_eq_some]
    refine ⟨List.mem_map_of_mem hr, ?_⟩
    by_cases hsel : selected r = true <;> simp [hsel, hset]

/-- An update selecting within one key changes one row when the row with that key is
selected, and none otherwise. -/
theorem changes_of_key {selected : Row → Bool} (hselected : ∀ r, selected r = true → key r = k) :
    t.changes selected = if ∃ r, t.find k = some r ∧ selected r = true then 1 else 0 := by
  split
  · next h =>
    obtain ⟨r, hfind, hsel⟩ := h
    obtain ⟨hr, hkey⟩ := find_eq_some.mp hfind
    have hle : t.changes selected ≤ 1 := by
      have hcount : (t.rows.map key).count k ≤ 1 := List.nodup_iff_count_le_one.mp t.keysNodup k
      rw [List.count_eq_countP, List.countP_map] at hcount
      have hmono : t.changes selected ≤ t.rows.countP ((· == k) ∘ key) :=
        List.countP_mono_left fun s _ hs => by simpa using hselected s hs
      exact Nat.le_trans hmono hcount
    have hpos : 0 < t.changes selected := List.countP_pos_iff.mpr ⟨r, hr, hsel⟩
    omega
  · next h =>
    refine List.countP_eq_zero.mpr fun r hr hsel => h ⟨r, ?_, hsel⟩
    exact find_eq_some.mpr ⟨hr, hselected r hsel⟩

/-- An update within one key that changes no row finds what was there. -/
theorem find_update_of_changes_ne_one {selected : Row → Bool}
    (hselected : ∀ r, selected r = true → key r = k) (hchanges : t.changes selected ≠ 1)
    (set : Row → Row) (hset : ∀ r, key (set r) = key r) (l : Key) :
    (t.update selected set hset).find l = t.find l := by
  rw [changes_of_key hselected] at hchanges
  rw [find_update]
  cases hfind : t.find l with
  | none => rfl
  | some r =>
    have hnot : selected r ≠ true := by
      intro hr
      obtain ⟨hmem, -⟩ := find_eq_some.mp hfind
      apply hchanges
      rw [if_pos ⟨r, find_eq_some.mpr ⟨hmem, hselected r hr⟩, hr⟩]
    rw [Option.map_some, if_neg hnot]

end Table

end Sql
