import Mathlib.Algebra.Order.Group.Int
import Mathlib.Data.List.Chain
import Mathlib.Tactic.Linarith

/-!
# Linked sequences

Sequences of elements with integer positions, in which each element stands at the position
after its predecessor's and is linked to it. In a sequence sorted by position this is a
property of the set of the elements.
-/

namespace Linked

variable {α : Type*} (position : α → ℤ) (Links : α → α → Prop)

/-- The second element stands right after the first and is linked to it. -/
def Precedes (a b : α) : Prop := position b = position a + 1 ∧ Links a b

variable {position Links} {l : List α}

/-- Positions go up along a linked sequence. -/
theorem pairwise_lt_of_isChain (h : l.IsChain (Precedes position Links)) :
    l.Pairwise fun a b => position a < position b := by
  have htrans : IsTrans α fun a b => position a < position b := ⟨fun _ _ _ => lt_trans⟩
  refine List.IsChain.pairwise (h.imp fun a b hab => ?_)
  rw [hab.1]
  omega

/-- **Linked sequences by their elements.** A sequence sorted by position is linked when
every element above another has a predecessor in it. -/
theorem isChain_iff (hsorted : l.Pairwise fun a b => position a < position b) :
    l.IsChain (Precedes position Links) ↔
      ∀ b ∈ l, (∃ a ∈ l, position a < position b) → ∃ c ∈ l, Precedes position Links c b := by
  rw [List.pairwise_iff_getElem] at hsorted
  constructor
  · intro hchain b hb
    rintro ⟨a, ha, hlt⟩
    obtain ⟨i, hi, rfl⟩ := List.mem_iff_getElem.mp hb
    obtain ⟨j, hj, rfl⟩ := List.mem_iff_getElem.mp ha
    have hne : i ≠ 0 := by
      rintro rfl
      rcases Nat.eq_zero_or_pos j with rfl | hpos
      · exact lt_irrefl _ hlt
      · exact lt_asymm hlt (hsorted 0 j hi hj hpos)
    obtain ⟨i, rfl⟩ := Nat.exists_eq_succ_of_ne_zero hne
    exact ⟨l[i], List.getElem_mem _, List.isChain_iff_getElem.mp hchain i hi⟩
  · intro hgrounded
    rw [List.isChain_iff_getElem]
    intro i hi
    have hlt := hsorted i (i + 1) (by omega) hi (by omega)
    obtain ⟨c, hc, hprecedes⟩ :=
      hgrounded _ (List.getElem_mem hi) ⟨_, List.getElem_mem (by omega : i < l.length), hlt⟩
    obtain ⟨j, hj, rfl⟩ := List.mem_iff_getElem.mp hc
    -- The predecessor cannot stand before or after the element in between.
    have hposition := hprecedes.1
    rcases Nat.lt_trichotomy j i with hji | rfl | hij
    · have := hsorted j i hj (by omega) hji
      omega
    · exact hprecedes
    · rcases Nat.lt_or_ge (i + 1) j with hgt | hle
      · have := hsorted (i + 1) j hi hj hgt
        omega
      · obtain rfl : j = i + 1 := by omega
        omega

/-- Two elements of a sorted sequence at one position are the same. -/
theorem eq_of_position_eq (hsorted : l.Pairwise fun a b => position a < position b) {a b : α}
    (ha : a ∈ l) (hb : b ∈ l) (h : position a = position b) : a = b := by
  rw [List.pairwise_iff_getElem] at hsorted
  obtain ⟨i, hi, rfl⟩ := List.mem_iff_getElem.mp ha
  obtain ⟨j, hj, rfl⟩ := List.mem_iff_getElem.mp hb
  rcases Nat.lt_trichotomy i j with hij | rfl | hji
  · have := hsorted i j hi hj hij
    omega
  · rfl
  · have := hsorted j i hj hi hji
    omega

/-- Elements sorted by position, no two of them at one, have ascending positions. -/
theorem pairwise_lt_of_le (hsorted : l.Pairwise fun a b => position a ≤ position b)
    (hnodup : l.Nodup) (hdistinct : ∀ a ∈ l, ∀ b ∈ l, position a = position b → a = b) :
    l.Pairwise fun a b => position a < position b := by
  refine (hsorted.and hnodup).imp_of_mem fun {a b} ha hb h => ?_
  exact lt_of_le_of_ne h.1 fun heq => h.2 (hdistinct a ha b hb heq)

end Linked

/-- Sorting needs an order on the elements of the list only. -/
theorem List.pairwise_mergeSort_of_mem {α : Type*} {le : α → α → Bool} {l : List α}
    (htrans : ∀ a ∈ l, ∀ b ∈ l, ∀ c ∈ l, le a b = true → le b c = true → le a c = true)
    (htotal : ∀ a ∈ l, ∀ b ∈ l, (le a b || le b a) = true) :
    (l.mergeSort le).Pairwise fun a b => le a b = true := by
  have hattach := @List.pairwise_mergeSort _ (fun a b : {a // a ∈ l} => le a.1 b.1)
    (fun a b c => htrans a.1 a.2 b.1 b.2 c.1 c.2) (fun a b => htotal a.1 a.2 b.1 b.2) l.attach
  have hmap := List.map_mergeSort (f := Subtype.val) (l := l.attach)
    (r := fun a b : {a // a ∈ l} => le a.1 b.1) (s := le) fun _ _ _ _ => rfl
  rw [List.attach_map_subtype_val] at hmap
  rw [← hmap, List.pairwise_map]
  exact hattach
