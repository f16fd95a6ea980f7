import Mathlib.Data.List.Forall2
import Mathlib.Data.List.Nodup
import Mathlib.Tactic.Common

/-!
# First occurrences

The elements of a sequence without those whose key has occurred before.
-/

namespace Sequences

variable {α κ : Type} [DecidableEq κ] (key : α → κ)

/-- The elements whose key has not been seen before them. -/
def firsts (seen : List κ) : List α → List α
  | [] => []
  | a :: rest => if key a ∈ seen then firsts seen rest else a :: firsts (seen ++ [key a]) rest

variable {key} {seen : List κ} {l : List α}

theorem firsts_sublist (key : α → κ) (seen : List κ) (l : List α) :
    (firsts key seen l).Sublist l := by
  induction l generalizing seen with
  | nil => exact .refl _
  | cons a rest ih =>
    rw [firsts]
    split
    · exact (ih seen).cons a
    · exact (ih _).cons_cons a

/-- The keys are different, and none has been seen before. -/
theorem keys_firsts (key : α → κ) (seen : List κ) (l : List α) :
    ((firsts key seen l).map key).Nodup ∧ ∀ a ∈ firsts key seen l, key a ∉ seen := by
  induction l generalizing seen with
  | nil => exact ⟨.nil, List.forall_mem_nil _⟩
  | cons a rest ih =>
    rw [firsts]
    split
    · exact ih seen
    · next hnew =>
      obtain ⟨hnodup, hunseen⟩ := ih (seen ++ [key a])
      refine ⟨List.nodup_cons.mpr ⟨?_, hnodup⟩, List.forall_mem_cons.mpr ⟨hnew, ?_⟩⟩
      · intro hmem
        obtain ⟨b, hb, hkey⟩ := List.mem_map.mp hmem
        exact hunseen b hb (List.mem_append_right _ (List.mem_singleton.mpr hkey))
      · exact fun b hb hmem => hunseen b hb (List.mem_append_left _ hmem)

/-- A key occurs among the first occurrences unless it has been seen before. -/
theorem mem_keys_firsts {k : κ} :
    k ∈ (firsts key seen l).map key ↔ k ∈ l.map key ∧ k ∉ seen := by
  induction l generalizing seen with
  | nil => simp [firsts]
  | cons a rest ih =>
    rw [firsts]
    by_cases ha : key a ∈ seen
    · rw [if_pos ha, ih, List.map_cons, List.mem_cons]
      constructor
      · rintro ⟨hrest, hseen⟩
        exact ⟨.inr hrest, hseen⟩
      · rintro ⟨rfl | hrest, hseen⟩
        · exact absurd ha hseen
        · exact ⟨hrest, hseen⟩
    · rw [if_neg ha, List.map_cons, List.mem_cons, ih, List.map_cons, List.mem_cons]
      by_cases hk : k = key a
      · exact iff_of_true (.inl hk) ⟨.inl hk, hk ▸ ha⟩
      · simp [hk]

theorem mem_firsts_id {k : κ} {l : List κ} : k ∈ firsts id [] l ↔ k ∈ l := by
  have h := @mem_keys_firsts κ κ _ id [] l k
  rw [List.map_id, List.map_id] at h
  rw [h]
  exact and_iff_left List.not_mem_nil

/-- A last element is a first occurrence if its key is new. -/
theorem firsts_concat (key : α → κ) (seen : List κ) (l : List α) (a : α) :
    firsts key seen (l ++ [a]) =
      if key a ∈ seen ++ l.map key then firsts key seen l else firsts key seen l ++ [a] := by
  induction l generalizing seen with
  | nil => simp [firsts]
  | cons b rest ih =>
    rw [List.cons_append, firsts, firsts, ih, ih]
    by_cases hb : key b ∈ seen
    · rw [if_pos hb, if_pos hb]
      congr 1
      simp only [List.mem_append, List.map_cons, List.mem_cons, eq_iff_iff]
      constructor
      · rintro (h | h)
        · exact .inl h
        · exact .inr (.inr h)
      · rintro (h | h | h)
        · exact .inl h
        · exact .inl (h ▸ hb)
        · exact .inr h
    · rw [if_neg hb, if_neg hb, List.append_assoc, List.singleton_append, List.map_cons]
      split
      · rfl
      · rfl

/-- Keys that tell the same elements apart have the same first occurrences. -/
theorem firsts_congr {κ' : Type} [DecidableEq κ'] {key' : α → κ'} {seen' : List κ'}
    (h : ∀ a ∈ l, ∀ b ∈ l, key a = key b ↔ key' a = key' b)
    (hseen : ∀ a ∈ l, key a ∈ seen ↔ key' a ∈ seen') : firsts key seen l = firsts key' seen' l := by
  induction l generalizing seen seen' with
  | nil => rfl
  | cons a rest ih =>
    have hrest : ∀ b ∈ rest, ∀ c ∈ rest, key b = key c ↔ key' b = key' c :=
      fun b hb c hc => h b (List.mem_cons_of_mem a hb) c (List.mem_cons_of_mem a hc)
    have ha := hseen a List.mem_cons_self
    rw [firsts, firsts]
    by_cases hkey : key a ∈ seen
    · rw [if_pos hkey, if_pos (ha.mp hkey)]
      exact ih hrest fun b hb => hseen b (List.mem_cons_of_mem a hb)
    · rw [if_neg hkey, if_neg (mt ha.mpr hkey)]
      refine congrArg (a :: ·) (ih hrest fun b hb => ?_)
      rw [List.mem_append, List.mem_append, List.mem_singleton, List.mem_singleton,
        hseen b (List.mem_cons_of_mem a hb),
        h b (List.mem_cons_of_mem a hb) a List.mem_cons_self]

/-- Elements with different keys are all first. -/
theorem firsts_eq_self (hnodup : (l.map key).Nodup) (hunseen : ∀ a ∈ l, key a ∉ seen) :
    firsts key seen l = l := by
  induction l generalizing seen with
  | nil => rfl
  | cons a rest ih =>
    rw [List.map_cons, List.nodup_cons] at hnodup
    rw [firsts, if_neg (hunseen a List.mem_cons_self), ih hnodup.2]
    intro b hb hmem
    rcases List.mem_append.mp hmem with hseen | hkey
    · exact hunseen b (List.mem_cons_of_mem a hb) hseen
    · exact hnodup.1 (List.mem_singleton.mp hkey ▸ List.mem_map_of_mem hb)

/-- Related sequences with equal keys have related first occurrences. -/
theorem forall₂_firsts {β : Type} {key' : β → κ} {R : α → β → Prop}
    (hkey : ∀ a b, R a b → key a = key' b) {l' : List β} (h : List.Forall₂ R l l')
    (seen : List κ) : List.Forall₂ R (firsts key seen l) (firsts key' seen l') := by
  induction h generalizing seen with
  | nil => exact .nil
  | @cons a b rest rest' hab _ ih =>
    rw [firsts, firsts, ← hkey a b hab]
    split
    · exact ih seen
    · exact .cons hab (ih _)

end Sequences

/-!
## Budgets

The longest part of a sequence from its start that fits a budget.
-/

namespace Sequences

variable {α : Type} (weight : α → ℕ)

def totalWeight : List α → ℕ
  | [] => 0
  | a :: l => weight a + totalWeight l

/-- The elements up to the first one that does not fit. -/
def takeFitting : ℕ → List α → List α
  | _, [] => []
  | budget, a :: l => if weight a ≤ budget then a :: takeFitting (budget - weight a) l else []

variable {weight} {budget : ℕ} {l part : List α}

theorem totalWeight_append (weight : α → ℕ) (l l' : List α) :
    totalWeight weight (l ++ l') = totalWeight weight l + totalWeight weight l' := by
  induction l with
  | nil => rw [List.nil_append, totalWeight, Nat.zero_add]
  | cons a l ih => rw [List.cons_append, totalWeight, ih, totalWeight, Nat.add_assoc]

theorem totalWeight_reverse (weight : α → ℕ) (l : List α) :
    totalWeight weight l.reverse = totalWeight weight l := by
  induction l with
  | nil => rfl
  | cons a l ih =>
    rw [List.reverse_cons, totalWeight_append, ih, totalWeight, totalWeight, totalWeight]
    omega

theorem takeFitting_prefix (weight : α → ℕ) (budget : ℕ) (l : List α) :
    takeFitting weight budget l <+: l := by
  induction l generalizing budget with
  | nil => exact List.prefix_rfl
  | cons a l ih =>
    rw [takeFitting]
    split
    · exact List.cons_prefix_cons.mpr ⟨rfl, ih _⟩
    · exact List.nil_prefix

theorem totalWeight_takeFitting_le (weight : α → ℕ) (budget : ℕ) (l : List α) :
    totalWeight weight (takeFitting weight budget l) ≤ budget := by
  induction l generalizing budget with
  | nil => exact Nat.zero_le _
  | cons a l ih =>
    rw [takeFitting]
    split
    · next hfits =>
      have hrest := ih (budget - weight a)
      rw [totalWeight]
      omega
    · exact Nat.zero_le _

/-- **It is the longest one.** -/
theorem prefix_takeFitting (hpart : part <+: l) (hfits : totalWeight weight part ≤ budget) :
    part <+: takeFitting weight budget l := by
  induction l generalizing budget part with
  | nil =>
    rw [List.prefix_nil.mp hpart]
    exact List.nil_prefix
  | cons a l ih =>
    cases part with
    | nil => exact List.nil_prefix
    | cons b part =>
      obtain ⟨rfl, hrest⟩ := List.cons_prefix_cons.mp hpart
      rw [totalWeight] at hfits
      rw [takeFitting, if_pos (by omega)]
      exact List.cons_prefix_cons.mpr ⟨rfl, ih hrest (by omega)⟩

end Sequences

/-!
## Good prefixes

Sequences whose elements are checked one after another, each against the element before it. The
elements before the first that fails form the longest prefix in which none does.
-/

namespace Sequences

variable {α : Type} (ok : Option α → α → Bool)

/-- Every element passes the check against the one before it; the first is checked against the
given one. -/
def allGood : Option α → List α → Bool
  | _, [] => true
  | previous, a :: rest => ok previous a && allGood (some a) rest

/-- The elements before the first that fails. -/
def goodPrefix : Option α → List α → List α
  | _, [] => []
  | previous, a :: rest => if ok previous a then a :: goodPrefix (some a) rest else []

variable {ok} {previous : Option α} {l p : List α}

theorem goodPrefix_isPrefix (ok : Option α → α → Bool) (previous : Option α) (l : List α) :
    goodPrefix ok previous l <+: l := by
  induction l generalizing previous with
  | nil => exact List.nil_prefix
  | cons a rest ih =>
    rw [goodPrefix]
    split
    · exact List.cons_prefix_cons.mpr ⟨rfl, ih (some a)⟩
    · exact List.nil_prefix

theorem allGood_goodPrefix (ok : Option α → α → Bool) (previous : Option α) (l : List α) :
    allGood ok previous (goodPrefix ok previous l) = true := by
  induction l generalizing previous with
  | nil => rfl
  | cons a rest ih =>
    rw [goodPrefix]
    split
    · next hok => rw [allGood, hok, ih (some a), Bool.and_self]
    · rfl

/-- No longer prefix is good. -/
theorem prefix_goodPrefix (hp : p <+: l) (hgood : allGood ok previous p = true) :
    p <+: goodPrefix ok previous l := by
  induction p generalizing previous l with
  | nil => exact List.nil_prefix
  | cons a p ih =>
    obtain ⟨rest, rfl⟩ := hp
    rw [allGood, Bool.and_eq_true] at hgood
    rw [List.cons_append, goodPrefix, if_pos hgood.1]
    exact List.cons_prefix_cons.mpr ⟨rfl, ih (List.prefix_append p rest) hgood.2⟩

theorem goodPrefix_eq_self (hgood : allGood ok previous l = true) :
    goodPrefix ok previous l = l :=
  List.IsPrefix.eq_of_length_le (goodPrefix_isPrefix ok previous l)
    (prefix_goodPrefix (List.prefix_refl l) hgood).length_le

/-- Prefixes of good sequences are good. -/
theorem allGood_of_prefix (hp : p <+: l) (hgood : allGood ok previous l = true) :
    allGood ok previous p = true := by
  induction p generalizing previous l with
  | nil => rfl
  | cons a p ih =>
    obtain ⟨rest, rfl⟩ := hp
    rw [List.cons_append, allGood, Bool.and_eq_true] at hgood
    rw [allGood, hgood.1, ih (List.prefix_append p rest) hgood.2, Bool.and_self]

/-- A check of two parts holds where both do. -/
theorem allGood_and (check : α → Bool) (previous : Option α) (l : List α) :
    allGood (fun previous a => ok previous a && check a) previous l =
      (allGood ok previous l && l.all check) := by
  induction l generalizing previous with
  | nil => rfl
  | cons a rest ih =>
    rw [allGood, allGood, List.all_cons, ih]
    cases ok previous a <;> cases check a <;> simp

end Sequences
