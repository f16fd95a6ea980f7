import Mathlib.Data.List.Nodup
import Mathlib.Tactic.Common

/-!
# Orders of last use

A recency list holds keys, the one used last in front. Using a key moves it to the front; keys may
be forgotten. The last key of the list is the least recently used one.
-/

namespace Sequences

variable {κ : Type*}

/-- After some use of `a`, `b` is not used. -/
def UsedLater (uses : List κ) (a b : κ) : Prop :=
  ∃ before after, uses = before ++ a :: after ∧ b ∉ after

/-- The keys are listed once each, in the order of their last uses. -/
structure Recency (uses order : List κ) : Prop where
  nodup : order.Nodup
  used : ∀ k ∈ order, k ∈ uses
  sorted : order.Pairwise (UsedLater uses)

variable {uses order order' : List κ} {a b k : κ}

theorem Recency.nil (uses : List κ) : Recency uses [] :=
  ⟨List.nodup_nil, List.forall_mem_nil _, List.Pairwise.nil⟩

/-- Forgetting keys keeps the order of the others. -/
theorem Recency.forget (h : Recency uses order) (hsub : order'.Sublist order) :
    Recency uses order' :=
  ⟨h.nodup.sublist hsub, fun k hk => h.used k (hsub.subset hk), h.sorted.sublist hsub⟩

/-- The use of another key does not change which of two keys was used later. -/
theorem UsedLater.use (h : UsedLater uses a b) (hb : b ≠ k) : UsedLater (uses ++ [k]) a b := by
  obtain ⟨before, after, rfl, hnot⟩ := h
  refine ⟨before, after ++ [k], by simp, ?_⟩
  rw [List.mem_append, List.mem_singleton]
  exact not_or.mpr ⟨hnot, hb⟩

/-- A key that is used comes to the front. -/
theorem Recency.use (h : Recency uses order) (hk : k ∉ order) :
    Recency (uses ++ [k]) (k :: order) where
  nodup := List.nodup_cons.mpr ⟨hk, h.nodup⟩
  used := by
    intro k' hk'
    rcases List.mem_cons.mp hk' with rfl | hk'
    · exact List.mem_append_right _ List.mem_cons_self
    · exact List.mem_append_left _ (h.used k' hk')
  sorted := by
    refine List.pairwise_cons.mpr ⟨fun b _ => ⟨uses, [], rfl, List.not_mem_nil⟩, ?_⟩
    refine h.sorted.imp_of_mem fun {a b} _ hb hlater => hlater.use ?_
    rintro rfl
    exact hk hb

/-- The last key is the one used least recently. -/
theorem Recency.least (h : Recency uses (order ++ [b])) : ∀ a ∈ order, UsedLater uses a b :=
  fun a ha => (List.pairwise_append.mp h.sorted).2.2 a ha b (List.mem_singleton.mpr rfl)

end Sequences
