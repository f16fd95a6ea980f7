import Mathlib.Data.List.Sort

/-!
# Stable sorting

The rank of an element in a list that is sorted stably: the number of the elements that go before
it, by the order or, among equals, by their places in the list. And lists from which items are left
out, and the place of a last item.
-/

namespace Sequences

/-! ## Ranks -/

section Ranks

variable {α : Type*} [DecidableEq α] {r : α → α → Prop} [DecidableRel r] {l : List α} {a b : α}

/-- The element goes before the other one when the list is sorted. -/
def Precedes (r : α → α → Prop) (l : List α) (a b : α) : Prop :=
  r a b ∧ (r b a → [a, b].Sublist l)

instance (r : α → α → Prop) [DecidableRel r] (l : List α) (a b : α) :
    Decidable (Precedes r l a b) :=
  inferInstanceAs (Decidable (_ ∧ (_ → _)))

/-- The number of the elements that go before an element. -/
def rank (r : α → α → Prop) [DecidableRel r] (l : List α) (b : α) : ℕ :=
  l.countP fun a => Precedes r l a b

omit [DecidableEq α] in
/-- One of two elements stands before the other. -/
theorem pair_sublist_or (ha : a ∈ l) (hb : b ∈ l) (hne : a ≠ b) :
    [a, b].Sublist l ∨ [b, a].Sublist l := by
  obtain ⟨front, back, rfl⟩ := List.append_of_mem ha
  rcases List.mem_append.mp hb with hb | hb
  · exact .inr ((List.singleton_sublist.mpr hb).append
      (List.singleton_sublist.mpr List.mem_cons_self))
  · rcases List.mem_cons.mp hb with rfl | hb
    · exact absurd rfl hne
    · exact .inl ((List.cons_sublist_cons.mpr (List.singleton_sublist.mpr hb)).trans
        (List.sublist_append_right _ _))

omit [DecidableEq α] in
/-- Two elements do not stand before each other. -/
theorem not_pair_sublist (hnodup : l.Nodup) (h : [a, b].Sublist l) : ¬ [b, a].Sublist l := by
  intro hother
  induction l with
  | nil => cases h
  | cons c l ih =>
    obtain ⟨hc, hl⟩ := List.nodup_cons.mp hnodup
    cases h with
    | cons _ h =>
      cases hother with
      | cons _ hother => exact ih hl h hother
      | cons_cons _ hother => exact hc (h.subset (List.mem_cons_of_mem _ List.mem_cons_self))
    | cons_cons _ h =>
      cases hother with
      | cons _ hother => exact hc (hother.subset (List.mem_cons_of_mem _ List.mem_cons_self))
      | cons_cons _ _ => exact hc (List.singleton_sublist.mp h)

section

variable [Std.Total r] [IsTrans α r]

omit [DecidableEq α] in
/-- The sorted list has the elements in the order in which they go before each other. -/
theorem pair_sublist_insertionSort_iff (hnodup : l.Nodup) (ha : a ∈ l) (hb : b ∈ l) (hne : a ≠ b) :
    [a, b].Sublist (l.insertionSort r) ↔ Precedes r l a b := by
  have hsorted : (l.insertionSort r).Pairwise r := List.pairwise_insertionSort r l
  have hsame : (l.insertionSort r).Nodup := (List.perm_insertionSort r l).nodup_iff.mpr hnodup
  constructor
  · intro h
    refine ⟨List.pairwise_pair.mp (hsorted.sublist h), fun hba => ?_⟩
    refine (pair_sublist_or ha hb hne).resolve_right fun hother => ?_
    exact not_pair_sublist hsame h (List.pair_sublist_insertionSort hba hother)
  · rintro ⟨hab, hequal⟩
    refine (pair_sublist_or ((List.mem_insertionSort r).mpr ha)
      ((List.mem_insertionSort r).mpr hb) hne).resolve_right fun hother => ?_
    have hba : r b a := List.pairwise_pair.mp (hsorted.sublist hother)
    exact not_pair_sublist hsame (List.pair_sublist_insertionSort hab (hequal hba)) hother

/-- **Ranks.** An element is left when the first `n` of the sorted list are dropped exactly when `n`
elements go before it. -/
theorem mem_drop_insertionSort_iff (hnodup : l.Nodup) (hb : b ∈ l) (n : ℕ) :
    b ∈ (l.insertionSort r).drop n ↔ n ≤ rank r l b := by
  have hperm := List.perm_insertionSort r l
  have hsame : (l.insertionSort r).Nodup := hperm.nodup_iff.mpr hnodup
  obtain ⟨front, back, hsplit⟩ := List.append_of_mem ((List.mem_insertionSort r).mpr hb)
  have hmem (c : α) (hc : c ∈ front ++ b :: back) : c ∈ l :=
    (List.mem_insertionSort r).mp (hsplit ▸ hc)
  rw [hsplit] at hsame hperm
  have hself : ¬ Precedes r l b b := by
    rintro ⟨hbb, hpair⟩
    exact not_pair_sublist hnodup (hpair hbb) (hpair hbb)
  have hfront : ∀ c ∈ front, Precedes r l c b := by
    intro c hc
    have hne : c ≠ b := by
      rintro rfl
      exact (List.nodup_append.mp hsame).2.2 c hc c List.mem_cons_self rfl
    refine (pair_sublist_insertionSort_iff hnodup (hmem c (List.mem_append_left _ hc)) hb hne).mp ?_
    rw [hsplit]
    exact (List.singleton_sublist.mpr hc).append (List.singleton_sublist.mpr List.mem_cons_self)
  have hback : ∀ c ∈ back, ¬ Precedes r l c b := by
    intro c hc hprecedes
    have hcl := hmem c (List.mem_append_right _ (List.mem_cons_of_mem _ hc))
    have hne : c ≠ b := by
      rintro rfl
      exact hself hprecedes
    have hpair := (pair_sublist_insertionSort_iff hnodup hcl hb hne).mpr hprecedes
    rw [hsplit] at hpair
    refine not_pair_sublist hsame ?_ hpair
    exact (List.cons_sublist_cons.mpr (List.singleton_sublist.mpr hc)).trans
      (List.sublist_append_right _ _)
  have hrank : rank r l b = front.length := by
    rw [rank, ← hperm.countP_eq, List.countP_append, List.countP_cons_of_neg (by simpa using hself),
      List.countP_eq_length.mpr (by simpa using hfront),
      List.countP_eq_zero.mpr (by simpa using hback)]
    rfl
  have hnot : b ∉ front := fun hmem =>
    (List.nodup_append.mp hsame).2.2 b hmem b List.mem_cons_self rfl
  rw [hrank, hsplit]
  rcases Nat.lt_or_ge front.length n with hlt | hge
  · refine ⟨fun hdrop => ?_, fun hle => absurd hle (Nat.not_le_of_lt hlt)⟩
    have hrest : b ∈ back := by
      have hdrop' : b ∈ (b :: back).drop (n - front.length) := by
        rwa [List.drop_append, List.drop_eq_nil_of_le hlt.le, List.nil_append] at hdrop
      obtain ⟨k, hk⟩ := Nat.exists_eq_add_of_lt hlt
      rw [show n - front.length = k + 1 by omega, List.drop_succ_cons] at hdrop'
      exact List.mem_of_mem_drop hdrop'
    exact absurd hrest (List.nodup_cons.mp (List.nodup_append.mp hsame).2.1).1
  · refine ⟨fun _ => hge, fun _ => ?_⟩
    rw [List.drop_append_of_le_length hge]
    exact List.mem_append_right _ List.mem_cons_self

end

end Ranks

/-! ## Items left out -/

section LeftOut

variable {α β : Type*} {r : α → α → Prop} [DecidableRel r] {s : β → β → Prop} [DecidableRel s]
  {f : α → Option β} {l front back : List α} {a new : α}

/-- An item is inserted before the others where it goes first. -/
theorem orderedInsert_filterMap [IsTrans α r]
    (hf : ∀ a b a' b', f a = some a' → f b = some b' → (r a b ↔ s a' b'))
    (hsorted : l.Pairwise r) {b : β} (ha : f a = some b) :
    (l.orderedInsert r a).filterMap f = (l.filterMap f).orderedInsert s b := by
  induction l with
  | nil => rw [List.orderedInsert_nil, List.filterMap_cons_some ha]; rfl
  | cons c l ih =>
    obtain ⟨hc, hl⟩ := List.pairwise_cons.mp hsorted
    rw [List.orderedInsert_cons]
    by_cases hac : r a c
    · rw [if_pos hac, List.filterMap_cons_some ha]
      have hfirst : ∀ b' ∈ (c :: l).filterMap f, s b b' := by
        intro b' hb'
        obtain ⟨c', hc', heq⟩ := List.mem_filterMap.mp hb'
        refine (hf a c' b b' ha heq).mp ?_
        rcases List.mem_cons.mp hc' with rfl | hc'
        · exact hac
        · exact IsTrans.trans a c c' hac (hc c' hc')
      cases hrest : (c :: l).filterMap f with
      | nil => rfl
      | cons b' rest =>
        rw [List.orderedInsert_cons, if_pos (hfirst b' (hrest ▸ List.mem_cons_self))]
    · rw [if_neg hac]
      cases hcf : f c with
      | none => rw [List.filterMap_cons_none hcf, List.filterMap_cons_none hcf, ih hl]
      | some c' =>
        rw [List.filterMap_cons_some hcf, List.filterMap_cons_some hcf, List.orderedInsert_cons,
          if_neg fun h => hac ((hf a c b c' ha hcf).mpr h), ih hl]

/-- **Sorting and leaving items out.** What is kept of a sorted list is what is kept, sorted. -/
theorem insertionSort_filterMap [Std.Total r] [IsTrans α r]
    (hf : ∀ a b a' b', f a = some a' → f b = some b' → (r a b ↔ s a' b')) (l : List α) :
    (l.insertionSort r).filterMap f = (l.filterMap f).insertionSort s := by
  induction l with
  | nil => rfl
  | cons a l ih =>
    rw [List.insertionSort_cons]
    cases ha : f a with
    | some b =>
      rw [orderedInsert_filterMap hf (List.pairwise_insertionSort r l) ha, ih,
        List.filterMap_cons_some ha, List.insertionSort_cons]
    | none =>
      rw [List.filterMap_cons_none ha, ← ih, List.orderedInsert_eq_take_drop, List.filterMap_append,
        List.filterMap_cons_none ha, ← List.filterMap_append, List.takeWhile_append_dropWhile]

/-! ## The last item -/

theorem orderedInsert_concat (h : r a new) (l : List α) :
    (l ++ [new]).orderedInsert r a = l.orderedInsert r a ++ [new] := by
  induction l with
  | nil => rw [List.nil_append, List.orderedInsert_cons, if_pos h]; rfl
  | cons b l ih =>
    rw [List.cons_append, List.orderedInsert_cons, List.orderedInsert_cons]
    by_cases hab : r a b
    · rw [if_pos hab, if_pos hab]
      rfl
    · rw [if_neg hab, if_neg hab, ih]
      rfl

theorem orderedInsert_last (h : ∀ x ∈ l, ¬r new x) : l.orderedInsert r new = l ++ [new] := by
  induction l with
  | nil => rfl
  | cons b l ih =>
    rw [List.orderedInsert_cons, if_neg (h b List.mem_cons_self),
      ih fun x hx => h x (List.mem_cons_of_mem b hx)]
    rfl

/-- An item that goes last among others is the last one of the sorted list. -/
theorem insertionSort_append_cons (hfront : ∀ x ∈ front, r x new)
    (hback : ∀ x ∈ back, ¬r new x) :
    (front ++ new :: back).insertionSort r = (front ++ back).insertionSort r ++ [new] := by
  induction front with
  | nil =>
    rw [List.nil_append, List.nil_append, List.insertionSort_cons,
      orderedInsert_last fun x hx => hback x ((List.mem_insertionSort r).mp hx)]
  | cons b front ih =>
    rw [List.cons_append, List.cons_append, List.insertionSort_cons, List.insertionSort_cons,
      ih fun x hx => hfront x (List.mem_cons_of_mem b hx),
      orderedInsert_concat (hfront b List.mem_cons_self)]

/-- An item that is the last one of the sorted list goes last among the others. -/
theorem of_insertionSort_eq_concat [Std.Total r] [IsTrans α r] {sorted : List α}
    (hnodup : (front ++ new :: back).Nodup)
    (h : (front ++ new :: back).insertionSort r = sorted ++ [new]) :
    (∀ x ∈ front, r x new) ∧ ∀ x ∈ back, ¬r new x := by
  have hperm := h ▸ List.perm_insertionSort r (front ++ new :: back)
  have hpairwise := h ▸ List.pairwise_insertionSort r (front ++ new :: back)
  have hlast : new ∉ sorted := fun hmem =>
    (List.nodup_append.mp (hperm.nodup_iff.mpr hnodup)).2.2 new hmem new
      (List.mem_singleton_self new) rfl
  constructor
  · intro x hx
    have hmem : x ∈ sorted ++ [new] := hperm.mem_iff.mpr (List.mem_append_left _ hx)
    rcases List.mem_append.mp hmem with hin | heq
    · exact (List.pairwise_append.mp hpairwise).2.2 x hin new (List.mem_singleton_self new)
    · obtain rfl := List.mem_singleton.mp heq
      exact absurd rfl
        ((List.nodup_append.mp hnodup).2.2 x hx x List.mem_cons_self)
  · intro x hx hr
    have hbefore : [new, x].Sublist (front ++ new :: back) :=
      (List.cons_sublist_cons.mpr (List.singleton_sublist.mpr hx)).trans
        (List.sublist_append_right _ _)
    have hsorted := List.pair_sublist_insertionSort hr hbefore
    rw [h] at hsorted
    obtain ⟨first, second, heq, hfirst, hsecond⟩ := List.sublist_append_iff.mp hsorted
    cases first with
    | nil =>
      rw [List.nil_append] at heq
      have hlength := hsecond.length_le
      rw [← heq] at hlength
      simp at hlength
    | cons b first =>
      obtain rfl := (List.cons.inj heq).1
      exact hlast (hfirst.subset List.mem_cons_self)

end LeftOut

/-! ## First items -/

/-- The first `n` items of a list in an order. -/
structure IsTop {α : Type*} (r : α → α → Prop) (n : ℕ) (l top : List α) : Prop where
  sorted : top.Pairwise r
  rest : ∃ rest, (top ++ rest).Perm l ∧ ∀ a ∈ top, ∀ b ∈ rest, r a b
  length_eq : top.length = min n l.length

theorem isTop_take_insertionSort {α : Type*} {r : α → α → Prop} [DecidableRel r] [Std.Total r]
    [IsTrans α r] (n : ℕ) (l : List α) : IsTop r n l ((l.insertionSort r).take n) := by
  have hsorted : (l.insertionSort r).Pairwise r := List.pairwise_insertionSort r l
  have hsplit := List.take_append_drop n (l.insertionSort r)
  refine ⟨hsorted.sublist (List.take_sublist _ _), ⟨(l.insertionSort r).drop n, ?_, ?_⟩, ?_⟩
  · rw [hsplit]
    exact List.perm_insertionSort r l
  · rw [← hsplit] at hsorted
    exact (List.pairwise_append.mp hsorted).2.2
  · rw [List.length_take, List.length_insertionSort]

theorem IsTop.of_perm {α : Type*} {r : α → α → Prop} {n : ℕ} {l l' top : List α}
    (h : IsTop r n l top) (hperm : l.Perm l') : IsTop r n l' top where
  sorted := h.sorted
  rest := by
    obtain ⟨rest, hrest, hle⟩ := h.rest
    exact ⟨rest, hrest.trans hperm, hle⟩
  length_eq := by
    rw [h.length_eq, hperm.length_eq]

end Sequences
