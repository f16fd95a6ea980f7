import Mathlib.Data.List.Basic
import Mathlib.Tactic.Common

/-!
# Generations of a list

A list that grows at its end is kept in numbered pieces, the youngest under zero. A rotation gives
every piece the next number, from the oldest to the youngest, so that the oldest is overwritten.
Numbers may be missing.
-/

namespace Generations

variable {α : Type}

/-- The pieces under their numbers. -/
abbrev Pieces (α : Type) := ℕ → Option (List α)

/-- The pieces below a number one after another, the oldest first. -/
def contents : ℕ → Pieces α → List α
  | 0, _ => []
  | n + 1, pieces => (pieces n).getD [] ++ contents n pieces

/-- A piece gets the next number, if there is one. -/
def move (pieces : Pieces α) (i : ℕ) : Pieces α := fun j =>
  if (pieces i).isSome then
    if j = i + 1 then pieces i else if j = i then none else pieces j
  else pieces j

/-- The pieces from a number down to the first are moved. -/
def shift : ℕ → Pieces α → Pieces α
  | 0, pieces => pieces
  | i + 1, pieces => shift i (move pieces (i + 1))

/-- All pieces are moved, of which the last is overwritten. -/
def rotate (keep : ℕ) (pieces : Pieces α) : Pieces α := move (shift keep pieces) 0

/-- The youngest piece grows. -/
def append (pieces : Pieces α) (items : List α) : Pieces α := fun j =>
  if j = 0 then some ((pieces 0).getD [] ++ items) else pieces j

variable {pieces : Pieces α} {i n : ℕ}

theorem contents_congr {other : Pieces α} (h : ∀ j < n, pieces j = other j) :
    contents n pieces = contents n other := by
  induction n with
  | zero => rfl
  | succ n ih =>
    rw [contents, contents, h n (Nat.lt_succ_self n), ih fun j hj => h j (Nat.lt_succ_of_lt hj)]

/-! ## Moving -/

/-- The number of the piece that is moved is free afterwards. -/
theorem move_self (pieces : Pieces α) (i : ℕ) : move pieces i i = none := by
  rw [move]
  split
  · rw [if_neg (Nat.succ_ne_self i).symm, if_pos rfl]
  · rename_i hnone
    simpa using hnone

theorem move_of_ne {j : ℕ} (hself : j ≠ i) (hnext : j ≠ i + 1) : move pieces i j = pieces j := by
  rw [move, if_neg hnext, if_neg hself, ite_self]

theorem contents_move_below (pieces : Pieces α) (i : ℕ) :
    contents i (move pieces i) = contents i pieces :=
  contents_congr fun _ hj => move_of_ne (by omega) (by omega)

/-- What was under the next number is lost. -/
theorem contents_move_top (pieces : Pieces α) (i : ℕ) :
    contents (i + 2) (move pieces i) <:+ contents (i + 2) pieces := by
  have hpieces : contents (i + 2) pieces = (pieces (i + 1)).getD [] ++
      ((pieces i).getD [] ++ contents i pieces) := rfl
  by_cases hsome : (pieces i).isSome
  · have hmoved : contents (i + 2) (move pieces i) = (pieces i).getD [] ++ contents i pieces := by
      have hnext : move pieces i (i + 1) = pieces i := by rw [move, if_pos hsome, if_pos rfl]
      have hunfold : contents (i + 2) (move pieces i) = (move pieces i (i + 1)).getD [] ++
          ((move pieces i i).getD [] ++ contents i (move pieces i)) := rfl
      rw [hunfold, hnext, move_self, contents_move_below, Option.getD_none, List.nil_append]
    rw [hmoved, hpieces]
    exact List.suffix_append _ _
  · have hsame : move pieces i = pieces := funext fun j => if_neg hsome
    have hkept : contents (i + 2) (move pieces i) = contents (i + 2) pieces := congrArg _ hsame
    exact hkept ▸ List.suffix_refl _

/-- Nothing is lost when the next number is free. -/
theorem contents_move_of_free (hfree : pieces (i + 1) = none) (hn : i + 2 ≤ n) :
    contents n (move pieces i) = contents n pieces := by
  induction hn with
  | refl =>
    have hpieces : contents (i + 2) pieces = (pieces i).getD [] ++ contents i pieces := by
      rw [contents, contents, hfree]
      rfl
    by_cases hsome : (pieces i).isSome
    · have hnext : move pieces i (i + 1) = pieces i := by rw [move, if_pos hsome, if_pos rfl]
      rw [hpieces, contents, contents, hnext, move_self, contents_move_below]
      rfl
    · have hsame : move pieces i = pieces := funext fun j => if_neg hsome
      rw [hsame]
  | @step n hn ih =>
    have hle : i + 2 ≤ n := hn
    rw [contents, contents, ih, move_of_ne (by omega) (by omega)]

/-! ## Rotating -/

theorem shift_zero (keep : ℕ) (pieces : Pieces α) : shift keep pieces 0 = pieces 0 := by
  induction keep generalizing pieces with
  | zero => rfl
  | succ keep ih => rw [shift, ih, move_of_ne (by omega) (by omega)]

/-- Behind a free number the pieces are moved without a loss, and the first number is free. -/
theorem contents_shift_of_free (hfree : pieces (i + 1) = none) (hn : i + 2 ≤ n) :
    contents n (shift i pieces) = contents n pieces ∧ shift i pieces 1 = none := by
  induction i generalizing pieces with
  | zero => exact ⟨rfl, hfree⟩
  | succ i ih =>
    obtain ⟨hcontents, hone⟩ := ih (move_self pieces (i + 1)) (by omega)
    exact ⟨hcontents.trans (contents_move_of_free hfree hn), hone⟩

/-- **Rotations.** A rotation loses no more than the oldest pieces. -/
theorem contents_rotate (keep : ℕ) (pieces : Pieces α) :
    contents (keep + 2) (rotate keep pieces) <:+ contents (keep + 2) pieces := by
  cases keep with
  | zero => exact contents_move_top pieces 0
  | succ keep =>
    obtain ⟨hcontents, hone⟩ :=
      contents_shift_of_free (n := keep + 3) (move_self pieces (keep + 1)) (by omega)
    have hrotate : contents (keep + 3) (rotate (keep + 1) pieces) =
        contents (keep + 3) (move pieces (keep + 1)) := by
      rw [rotate, shift, contents_move_of_free hone (by omega), hcontents]
    rw [hrotate]
    exact contents_move_top pieces (keep + 1)

/-- What is appended comes last. -/
theorem contents_append (n : ℕ) (pieces : Pieces α) (items : List α) :
    contents (n + 1) (append pieces items) = contents (n + 1) pieces ++ items := by
  induction n with
  | zero =>
    rw [contents, contents, contents, contents, append, if_pos rfl, Option.getD_some,
      List.append_nil, List.append_nil]
  | succ n ih =>
    have hnext : append pieces items (n + 1) = pieces (n + 1) := if_neg (Nat.succ_ne_zero n)
    have hsplit : contents (n + 2) pieces = (pieces (n + 1)).getD [] ++ contents (n + 1) pieces :=
      rfl
    rw [contents, ih, hnext, hsplit, List.append_assoc]

theorem append_append (pieces : Pieces α) (items items' : List α) :
    append (append pieces items) items' = append pieces (items ++ items') := by
  funext j
  rw [append, append, append, append, if_pos rfl, Option.getD_some, List.append_assoc]
  split <;> rfl

/-! ## Pieces of lists -/

/-- Every piece is made of lists. -/
def flatten (pieces : Pieces (List α)) : Pieces α := fun j => (pieces j).map List.flatten

theorem flatten_move (pieces : Pieces (List α)) (i : ℕ) :
    flatten (move pieces i) = move (flatten pieces) i := by
  funext j
  rw [flatten, move, move, flatten, Option.isSome_map]
  split
  · split
    · rfl
    · split <;> rfl
  · rfl

theorem flatten_shift (keep : ℕ) (pieces : Pieces (List α)) :
    flatten (shift keep pieces) = shift keep (flatten pieces) := by
  induction keep generalizing pieces with
  | zero => rfl
  | succ keep ih => rw [shift, shift, ih, flatten_move]

theorem flatten_rotate (keep : ℕ) (pieces : Pieces (List α)) :
    flatten (rotate keep pieces) = rotate keep (flatten pieces) := by
  rw [rotate, rotate, flatten_move, flatten_shift]

theorem flatten_append (pieces : Pieces (List α)) (item : List α) :
    flatten (append pieces [item]) = append (flatten pieces) item := by
  funext j
  rw [flatten, append, append, flatten]
  split
  · cases pieces 0 with
    | none => simp
    | some items => simp
  · rfl

theorem contents_flatten (n : ℕ) (pieces : Pieces (List α)) :
    contents n (flatten pieces) = (contents n pieces).flatten := by
  induction n with
  | zero => rfl
  | succ n ih =>
    rw [contents, contents, ih, List.flatten_append, flatten]
    cases pieces n <;> rfl

end Generations
