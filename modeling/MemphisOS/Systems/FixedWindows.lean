import Mathlib.Algebra.Order.Group.Defs
import Mathlib.Algebra.Order.Monoid.Unbundled.Basic
import Mathlib.Data.List.Sort
import Mathlib.Tactic.Common

/-!
# Fixed windows

Time is cut into windows of one length. A window starts at the first instant that no earlier
window contains, so windows are disjoint but need not follow each other closely. An interval of
the length of a window meets at most two of them.
-/

namespace FixedWindows

variable {Time : Type*} [AddCommGroup Time] [LinearOrder Time]

/-- The instants in the half-open interval of length `w` from `a` on. -/
def within (a w : Time) (times : List Time) : List Time :=
  times.filter fun t => a ≤ t ∧ t < a + w

/-- The instants at which a window of length `w` starts, when the one before started at `last`. -/
def starts (w : Time) : Option Time → List Time → List Time
  | _, [] => []
  | none, t :: times => t :: starts w (some t) times
  | some last, t :: times =>
    if last + w ≤ t then t :: starts w (some t) times else starts w (some last) times

/-- A window that starts at `t` is a new one. -/
def Expired (w : Time) (last : Option Time) (t : Time) : Prop := ∀ s ∈ last, s + w ≤ t

instance (w : Time) (last : Option Time) (t : Time) : Decidable (Expired w last t) :=
  inferInstanceAs (Decidable (∀ s ∈ last, s + w ≤ t))

variable {w a t s s' : Time} {last : Option Time} {times : List Time}

theorem mem_within : t ∈ within a w times ↔ t ∈ times ∧ a ≤ t ∧ t < a + w := by
  simp [within]

theorem starts_cons_of_expired (h : Expired w last t) :
    starts w last (t :: times) = t :: starts w (some t) times := by
  cases last with
  | none => rw [starts]
  | some s => rw [starts, if_pos (h s rfl)]

theorem starts_cons_of_not_expired (h : ¬ Expired w last t) :
    starts w last (t :: times) = starts w last times := by
  cases last with
  | none => exact absurd (fun s hs => by cases hs) h
  | some s => rw [starts, if_neg fun hs => h fun s' hs' => by cases hs'; exact hs]

/-- The last window before and the ones that start later, one after another. -/
theorem starts_append (last : Option Time) (times times' : List Time) :
    starts w last (times ++ times') =
      starts w last times ++ starts w ((starts w last times).getLast?.or last) times' := by
  induction times generalizing last with
  | nil => simp [starts]
  | cons t times ih =>
    by_cases h : Expired w last t
    · rw [List.cons_append, starts_cons_of_expired h, starts_cons_of_expired h, ih,
        List.cons_append]
      congr 2
      cases hlast : starts w (some t) times with
      | nil => rfl
      | cons s rest => rw [List.getLast?_cons_cons, List.getLast?_cons]; rfl
    · rw [List.cons_append, starts_cons_of_not_expired h, starts_cons_of_not_expired h, ih]

theorem mem_of_mem_starts (h : s ∈ starts w last times) : s ∈ times := by
  induction times generalizing last with
  | nil => cases h
  | cons t times ih =>
    by_cases hnew : Expired w last t
    · rw [starts_cons_of_expired hnew] at h
      rcases List.mem_cons.mp h with rfl | h
      · exact List.mem_cons_self
      · exact List.mem_cons_of_mem _ (ih h)
    · rw [starts_cons_of_not_expired hnew] at h
      exact List.mem_cons_of_mem _ (ih h)

/-- No window starts before the one before it has ended. -/
theorem expired_of_mem_starts (htimes : times.Pairwise (· ≤ ·)) (hs : s ∈ starts w last times) :
    Expired w last s := by
  induction times generalizing last with
  | nil => cases hs
  | cons t times ih =>
    have hlater := (List.pairwise_cons.mp htimes).1
    by_cases hnew : Expired w last t
    · rw [starts_cons_of_expired hnew] at hs
      have hle : t ≤ s := by
        rcases List.mem_cons.mp hs with rfl | hs
        · exact le_rfl
        · exact hlater _ (mem_of_mem_starts hs)
      exact fun s' hs' => (hnew s' hs').trans hle
    · rw [starts_cons_of_not_expired hnew] at hs
      exact ih htimes.of_cons hs

/-- Each instant lies in the last window before or in one that starts among the instants. -/
theorem exists_window [IsOrderedAddMonoid Time] (htimes : times.Pairwise (· ≤ ·)) (hw : 0 < w)
    (ht : t ∈ times) :
    (∃ s ∈ last, t < s + w) ∨ ∃ s ∈ starts w last times, s ≤ t ∧ t < s + w := by
  induction times generalizing last with
  | nil => cases ht
  | cons t' times ih =>
    have hlater := (List.pairwise_cons.mp htimes).1
    by_cases hnew : Expired w last t'
    · rw [starts_cons_of_expired hnew]
      right
      have hself : t' < t' + w := lt_add_of_pos_right t' hw
      rcases List.mem_cons.mp ht with rfl | ht
      · exact ⟨t, List.mem_cons_self, le_rfl, hself⟩
      · rcases ih htimes.of_cons ht with ⟨s, hs, hlt⟩ | ⟨s, hs, hle, hlt⟩
        · obtain rfl := Option.mem_some.mp hs
          exact ⟨t', List.mem_cons_self, hlater _ ht, hlt⟩
        · exact ⟨s, List.mem_cons_of_mem _ hs, hle, hlt⟩
    · rw [starts_cons_of_not_expired hnew]
      rcases List.mem_cons.mp ht with rfl | ht
      · simp only [Expired, not_forall, not_le] at hnew
        obtain ⟨s, hs, hlt⟩ := hnew
        exact Or.inl ⟨s, hs, hlt⟩
      · exact ih htimes.of_cons ht

/-- Of two windows one has ended when the other one starts. -/
theorem pairwise_starts (htimes : times.Pairwise (· ≤ ·)) :
    (starts w last times).Pairwise fun s s' => s + w ≤ s' := by
  induction times generalizing last with
  | nil => exact List.Pairwise.nil
  | cons t times ih =>
    by_cases hnew : Expired w last t
    · rw [starts_cons_of_expired hnew]
      exact List.pairwise_cons.mpr
        ⟨fun s hs => expired_of_mem_starts htimes.of_cons hs t rfl, ih htimes.of_cons⟩
    · rw [starts_cons_of_not_expired hnew]
      exact ih htimes.of_cons

/-- Two windows are the same, or one has ended when the other one starts. -/
theorem eq_or_ended (htimes : times.Pairwise (· ≤ ·)) (hs : s ∈ starts w last times)
    (hs' : s' ∈ starts w last times) :
    s = s' ∨ s + w ≤ s' ∨ s' + w ≤ s := by
  let R := fun s s' : Time => s = s' ∨ s + w ≤ s' ∨ s' + w ≤ s
  have hpairs : (starts w last times).Pairwise R :=
    (pairwise_starts htimes).imp fun h => Or.inr (Or.inl h)
  have hflip : (starts w last times).Pairwise (flip R) :=
    hpairs.imp fun h => h.imp Eq.symm Or.symm
  exact List.Pairwise.forall_of_forall_of_flip (R := R) (fun _ _ => Or.inl rfl) hpairs hflip hs hs'

theorem within_cons_of_mem (h : a ≤ t ∧ t < a + w) :
    within a w (t :: times) = t :: within a w times :=
  List.filter_cons_of_pos (decide_eq_true h)

theorem within_cons_of_not_mem (h : ¬ (a ≤ t ∧ t < a + w)) :
    within a w (t :: times) = within a w times :=
  List.filter_cons_of_neg (mt of_decide_eq_true h)

theorem length_within_le_cons (a : Time) (t : Time) (times : List Time) :
    (within a w times).length ≤ (within a w (t :: times)).length :=
  ((List.sublist_cons_self t times).filter _).length_le

theorem length_within_cons_le (a : Time) (t : Time) (times : List Time) :
    (within a w (t :: times)).length ≤ (within a w times).length + 1 := by
  by_cases h : a ≤ t ∧ t < a + w
  · rw [within_cons_of_mem h, List.length_cons]
  · rw [within_cons_of_not_mem h]
    exact Nat.le_succ _

/-- An interval that two others cover holds no more instants than they do. -/
theorem length_within_le_add (b c : Time) (times : List Time)
    (h : ∀ t ∈ within a w times, b ≤ t ∧ t < b + w ∨ c ≤ t ∧ t < c + w) :
    (within a w times).length ≤ (within b w times).length + (within c w times).length := by
  induction times with
  | nil => exact Nat.zero_le _
  | cons t times ih =>
    have hrest : (within a w times).length ≤
        (within b w times).length + (within c w times).length := by
      refine ih fun t' ht' => h t' ?_
      obtain ⟨ht', hin⟩ := mem_within.mp ht'
      exact mem_within.mpr ⟨List.mem_cons_of_mem _ ht', hin⟩
    have hb := length_within_le_cons (w := w) b t times
    have hc := length_within_le_cons (w := w) c t times
    by_cases ht : a ≤ t ∧ t < a + w
    · rw [within_cons_of_mem ht, List.length_cons]
      rcases h t (mem_within.mpr ⟨List.mem_cons_self, ht⟩) with hin | hin
      · rw [within_cons_of_mem hin, List.length_cons]
        omega
      · rw [within_cons_of_mem hin, List.length_cons]
        omega
    · rw [within_cons_of_not_mem ht]
      omega

/-- **Two windows.** Of instants with at most `m` in each window, at most `2 * m` lie in any
interval of the length of a window. -/
theorem length_within_le [IsOrderedAddMonoid Time] {admitted : List Time} {m : ℕ}
    (htimes : times.Pairwise (· ≤ ·)) (hw : 0 < w) (hadmitted : admitted.Sublist times)
    (hcount : ∀ s ∈ starts w none times, (within s w admitted).length ≤ m) (a : Time) :
    (within a w admitted).length ≤ 2 * m := by
  have hwindow : ∀ t ∈ admitted, ∃ s ∈ starts w none times, s ≤ t ∧ t < s + w := by
    intro t ht
    have hwin : (∃ s ∈ (none : Option Time), t < s + w) ∨
        ∃ s ∈ starts w none times, s ≤ t ∧ t < s + w :=
      exists_window htimes hw (hadmitted.subset ht)
    rcases hwin with ⟨s, hs, -⟩ | h
    · cases hs
    · exact h
  cases hin : within a w admitted with
  | nil => exact Nat.zero_le _
  | cons t₀ rest =>
    have hmem₀ : t₀ ∈ within a w admitted := hin ▸ List.mem_cons_self
    have hfirst : ∀ t ∈ within a w admitted, t₀ ≤ t := by
      have hsorted : (within a w admitted).Pairwise (· ≤ ·) := (htimes.sublist hadmitted).filter _
      intro t ht
      rw [hin] at hsorted ht
      rcases List.mem_cons.mp ht with rfl | ht
      · exact le_rfl
      · exact (List.pairwise_cons.mp hsorted).1 t ht
    obtain ⟨ht₀, ha, -⟩ := mem_within.mp hmem₀
    obtain ⟨s₀, hs₀, hle₀, hlt₀⟩ := hwindow t₀ ht₀
    rw [← hin]
    by_cases hall : ∀ t ∈ within a w admitted, t < s₀ + w
    · -- The window of the first instant contains the whole interval.
      refine (length_within_le_add s₀ s₀ admitted fun t ht => Or.inl
        ⟨hle₀.trans (hfirst t ht), hall t ht⟩).trans ?_
      have := hcount s₀ hs₀
      omega
    · -- The next window starts after the interval, so it contains the rest of it.
      simp only [not_forall, not_lt] at hall
      obtain ⟨t₁, ht₁, hlate⟩ := hall
      obtain ⟨hmem₁, -, hend⟩ := mem_within.mp ht₁
      obtain ⟨s₁, hs₁, hle₁, hlt₁⟩ := hwindow t₁ hmem₁
      have hnext : ∀ s ∈ starts w none times, ∀ t, s₀ + w ≤ t → t < s + w → s₀ + w ≤ s := by
        intro s hs t hlate hlt
        rcases eq_or_ended htimes hs₀ hs with rfl | hle | hle
        · exact absurd hlt hlate.not_gt
        · exact hle
        · exact absurd ((hlate.trans_lt hlt).trans_le hle) (lt_add_of_pos_right s₀ hw).not_gt
      have hafter : a ≤ s₁ := (ha.trans hlt₀.le).trans (hnext s₁ hs₁ t₁ hlate hlt₁)
      refine (length_within_le_add s₀ s₁ admitted fun t ht => ?_).trans ?_
      · obtain ⟨hmem, -, hbefore⟩ := mem_within.mp ht
        rcases lt_or_ge t (s₀ + w) with hlt | hge
        · exact Or.inl ⟨hle₀.trans (hfirst t ht), hlt⟩
        · obtain ⟨s, hs, hle, hlt⟩ := hwindow t hmem
          have hstart : s₀ + w ≤ s := hnext s hs t hge hlt
          have hnotbefore : ¬ s + w ≤ s₁ := fun h =>
            absurd (lt_of_add_lt_add_right (((h.trans hle₁).trans_lt hend)))
              ((ha.trans hlt₀.le).trans hstart).not_gt
          refine Or.inr ⟨?_, hbefore.trans_le (by gcongr)⟩
          rcases eq_or_ended htimes hs₁ hs with rfl | h | h
          · exact hle
          · exact ((lt_add_of_pos_right s₁ hw).le.trans h).trans hle
          · exact absurd h hnotbefore
      · have h₀ := hcount s₀ hs₀
        have h₁ := hcount s₁ hs₁
        omega

end FixedWindows
