import Mathlib
import MemphisOS.Ecma.Maps
import MemphisOS.Ecma.NumberOrder

/-!
# Maps of sizes

Entries that have sizes, how setting and deleting entries changes the total size, and exact amounts
compared with a number that limits them.
-/

namespace Ecma

/-! ## Limits -/

namespace JsNumber

/-- The comparison of an exact amount with a limit: it is greater. -/
def exceededBy (limit : JsNumber) (amount : ℚ) : Bool :=
  match limit with
  | nan => false
  | infinity negative => negative
  | negZero => 0 < amount
  | finite q _ => q < amount

/-- The comparison of an exact amount with a limit: it is at least as great. -/
def reachedBy (limit : JsNumber) (amount : ℚ) : Bool :=
  limit ≠ nan && limit.rank ≤ (amount : WithTop ℚ)

variable {limit : JsNumber} {amount amount' : ℚ}

/-- Counters that are numbers are compared exactly. -/
theorem exceededBy_natCast (limit : JsNumber) {n : ℕ} (hn : n < 2 ^ 53) :
    limit.exceededBy n = limit.lt (ofNat n) := by
  rw [ofNat_eq hn]
  cases limit with
  | nan => rfl
  | infinity negative => rfl
  | negZero => rfl
  | finite q _ => rfl

/-- Every greater amount exceeds the limit as well. -/
theorem exceededBy_mono (hle : amount ≤ amount') (h : limit.exceededBy amount = true) :
    limit.exceededBy amount' = true := by
  cases limit with
  | nan => exact h
  | infinity negative => exact h
  | negZero => exact decide_eq_true ((of_decide_eq_true h).trans_le hle)
  | finite q _ => exact decide_eq_true ((of_decide_eq_true h).trans_le hle)

/-- An amount within a limit leaves every smaller one within it. -/
theorem not_exceededBy_mono (hle : amount ≤ amount') (h : limit.exceededBy amount' = false) :
    limit.exceededBy amount = false := by
  by_contra hne
  rw [Bool.not_eq_false] at hne
  rw [exceededBy_mono hle hne] at h
  cases h

end JsNumber

/-! ## Totals -/

variable {α : Type}

/-- `Map.prototype.delete`. -/
def deleteEntry (k : JsString) (entries : List (JsString × α)) : List (JsString × α) :=
  entries.filter fun entry => entry.1 ≠ k

/-- The sizes of all entries together. -/
def totalSize (size : α → ℕ) : List (JsString × α) → ℕ
  | [] => 0
  | entry :: entries => size entry.2 + totalSize size entries

/-- The size of the entry of a key, if there is one. -/
def sizeAt (size : α → ℕ) (k : JsString) (entries : List (JsString × α)) : ℕ :=
  ((entries.lookup k).map size).getD 0

variable {size : α → ℕ} {entries : List (JsString × α)} {k k' : JsString} {a : α}

theorem keys_deleteEntry (k : JsString) (entries : List (JsString × α)) :
    (deleteEntry k entries).map Prod.fst = (entries.map Prod.fst).filter fun key => key ≠ k := by
  rw [deleteEntry, List.filter_map]
  rfl

theorem mem_keys_deleteEntry :
    k' ∈ (deleteEntry k entries).map Prod.fst ↔ k' ∈ entries.map Prod.fst ∧ k' ≠ k := by
  rw [keys_deleteEntry, List.mem_filter, decide_eq_true_eq]

theorem not_mem_keys_deleteEntry (k : JsString) (entries : List (JsString × α)) :
    k ∉ (deleteEntry k entries).map Prod.fst :=
  fun h => (mem_keys_deleteEntry.mp h).2 rfl

theorem nodup_deleteEntry (k : JsString) (h : (entries.map Prod.fst).Nodup) :
    ((deleteEntry k entries).map Prod.fst).Nodup :=
  h.sublist (List.filter_sublist.map _)

theorem deleteEntry_of_not_mem (h : k ∉ entries.map Prod.fst) :
    deleteEntry k entries = entries := by
  refine List.filter_eq_self.mpr fun entry hentry => decide_eq_true ?_
  rintro rfl
  exact h (List.mem_map_of_mem hentry)

/-- A key that is there is found. -/
theorem lookup_isSome_iff : (entries.lookup k).isSome = true ↔ k ∈ entries.map Prod.fst := by
  induction entries with
  | nil => simp
  | cons entry entries ih =>
    obtain ⟨key, b⟩ := entry
    rw [List.lookup_cons, List.map_cons, List.mem_cons]
    by_cases hk : k = key
    · subst hk
      simp
    · rw [beq_false_of_ne hk, ih]
      simp [hk]

theorem sizeAt_of_not_mem (h : k ∉ entries.map Prod.fst) : sizeAt size k entries = 0 := by
  have hnone : entries.lookup k = none := by
    rw [← Option.not_isSome_iff_eq_none, lookup_isSome_iff]
    exact h
  rw [sizeAt, hnone]
  rfl

theorem totalSize_append (size : α → ℕ) (entries entries' : List (JsString × α)) :
    totalSize size (entries ++ entries') = totalSize size entries + totalSize size entries' := by
  induction entries with
  | nil => rw [List.nil_append, totalSize, Nat.zero_add]
  | cons entry entries ih => rw [List.cons_append, totalSize, ih, totalSize, Nat.add_assoc]

/-- What is deleted is taken from the total. -/
theorem totalSize_deleteEntry (size : α → ℕ) (k : JsString)
    (hkeys : (entries.map Prod.fst).Nodup) :
    totalSize size (deleteEntry k entries) + sizeAt size k entries = totalSize size entries := by
  induction entries with
  | nil => rfl
  | cons entry entries ih =>
    obtain ⟨key, b⟩ := entry
    rw [List.map_cons, List.nodup_cons] at hkeys
    by_cases hkey : key = k
    · subst hkey
      rw [deleteEntry, List.filter_cons_of_neg (by simp), ← deleteEntry,
        deleteEntry_of_not_mem hkeys.1, sizeAt, List.lookup_cons_self, totalSize, Option.map_some,
        Option.getD_some, Nat.add_comm]
    · have hsize : sizeAt size k ((key, b) :: entries) = sizeAt size k entries := by
        rw [sizeAt, List.lookup_cons, beq_false_of_ne (Ne.symm hkey), sizeAt]
      rw [deleteEntry, List.filter_cons_of_pos (by simpa using hkey), ← deleteEntry, totalSize,
        hsize, Nat.add_assoc, ih hkeys.2, totalSize]

/-- What is set takes the place of what was there. -/
theorem totalSize_setMember (size : α → ℕ) (k : JsString) (a : α)
    (hkeys : (entries.map Prod.fst).Nodup) :
    totalSize size (setMember k a entries) + sizeAt size k entries =
      totalSize size entries + size a := by
  induction entries with
  | nil => simp [setMember, totalSize, sizeAt]
  | cons entry entries ih =>
    obtain ⟨key, b⟩ := entry
    rw [List.map_cons, List.nodup_cons] at hkeys
    by_cases hkey : key = k
    · subst hkey
      rw [setMember, if_pos rfl, sizeAt, List.lookup_cons_self, totalSize, totalSize,
        Option.map_some, Option.getD_some]
      dsimp only
      omega
    · have hsize : sizeAt size k ((key, b) :: entries) = sizeAt size k entries := by
        rw [sizeAt, List.lookup_cons, beq_false_of_ne (Ne.symm hkey), sizeAt]
      have hrest := ih hkeys.2
      rw [setMember, if_neg hkey, hsize, totalSize, totalSize]
      omega

/-- No entry is larger than all together. -/
theorem sizeAt_le_totalSize (size : α → ℕ) (k : JsString) (hkeys : (entries.map Prod.fst).Nodup) :
    sizeAt size k entries ≤ totalSize size entries := by
  rw [← totalSize_deleteEntry size k hkeys]
  exact Nat.le_add_left _ _

end Ecma
