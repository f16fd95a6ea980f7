import MemphisOS.Files.Paths
import Mathlib.Data.List.Infix

/-!
# Exclusion patterns

The patterns of `tar --exclude`. A star stands for any text, slashes included. A pattern excludes a
member when it matches a part of its name that starts at the start or after a slash and ends at the
end or before a slash.
-/

namespace Files.Globs

open Ecma Files.Paths

def star : UInt16 := 42

/-- The text ends, or the rest starts with a slash. -/
def AtBoundary (rest : JsString) : Prop := rest = [] ∨ rest.head? = some sep

instance (rest : JsString) : Decidable (AtBoundary rest) := inferInstanceAs (Decidable (_ ∨ _))

/-- The pattern matches a part of the name that starts at its start. -/
def globMatches : JsString → JsString → Bool
  | [], name => AtBoundary name
  | u :: pattern, name =>
    if u = star then name.tails.any (globMatches pattern)
    else name.head? = some u && globMatches pattern name.tail

/-- A part of the name is matched. -/
def excludes (pattern name : JsString) : Bool :=
  globMatches pattern name ||
    name.tails.any fun part => part.head? = some sep && globMatches pattern part.tail

/-- The name under which `tar` stores a member of the current directory. -/
def memberName (path : List JsString) : JsString := [sep].intercalate (js "." :: path)

variable {pattern name literal : JsString} {path : List JsString}

/-! ## Matching -/

theorem globMatches_star :
    globMatches (star :: pattern) name = true ↔
      ∃ x y, name = x ++ y ∧ globMatches pattern y = true := by
  rw [globMatches, if_pos rfl, List.any_eq_true]
  constructor
  · rintro ⟨y, hy, hmatch⟩
    obtain ⟨x, rfl⟩ := (List.mem_tails _ _).mp hy
    exact ⟨x, y, rfl, hmatch⟩
  · rintro ⟨x, y, rfl, hmatch⟩
    exact ⟨y, (List.mem_tails _ _).mpr (List.suffix_append x y), hmatch⟩

theorem globMatches_literal (h : star ∉ literal) :
    globMatches literal name = true ↔ ∃ rest, name = literal ++ rest ∧ AtBoundary rest := by
  induction literal generalizing name with
  | nil =>
    rw [globMatches, decide_eq_true_eq]
    exact ⟨fun hname => ⟨name, rfl, hname⟩, fun ⟨rest, hrest, hname⟩ => hrest ▸ hname⟩
  | cons u literal ih =>
    rw [List.mem_cons, not_or] at h
    rw [globMatches, if_neg (Ne.symm h.1), Bool.and_eq_true, decide_eq_true_eq, ih h.2]
    constructor
    · rintro ⟨hhead, rest, hrest, hboundary⟩
      obtain ⟨tail, rfl⟩ := List.head?_eq_some_iff.mp hhead
      exact ⟨rest, congrArg (u :: ·) hrest, hboundary⟩
    · rintro ⟨rest, rfl, hboundary⟩
      exact ⟨rfl, rest, rfl, hboundary⟩

theorem excludes_iff : excludes pattern name = true ↔ globMatches pattern name = true ∨
    ∃ x y, name = x ++ sep :: y ∧ globMatches pattern y = true := by
  rw [excludes, Bool.or_eq_true, List.any_eq_true]
  refine or_congr_right ⟨?_, ?_⟩
  · rintro ⟨part, hpart, hmatch⟩
    obtain ⟨x, rfl⟩ := (List.mem_tails _ _).mp hpart
    rw [Bool.and_eq_true, decide_eq_true_eq] at hmatch
    obtain ⟨tail, rfl⟩ := List.head?_eq_some_iff.mp hmatch.1
    exact ⟨x, tail, rfl, hmatch.2⟩
  · rintro ⟨x, y, rfl, hmatch⟩
    refine ⟨sep :: y, (List.mem_tails _ _).mpr (List.suffix_append x _), ?_⟩
    rw [Bool.and_eq_true, decide_eq_true_eq]
    exact ⟨rfl, hmatch⟩

/-! ## Members -/

theorem splitOn_memberName (h : ∀ s ∈ path, IsSegment s) :
    (memberName path).splitOn sep = js "." :: path := by
  refine List.splitOn_intercalate sep (fun s hs => ?_) (List.cons_ne_nil _ _)
  rcases List.mem_cons.mp hs with rfl | hs
  · decide
  · exact (h s hs).no_sep

/-- What stands between two boundaries and has no slash is a part of the path. -/
theorem mem_splitOn_of_boundaries {before part after : JsString} (hpart : sep ∉ part)
    (hbefore : before = [] ∨ before.getLast? = some sep) (hafter : AtBoundary after) :
    part ∈ (before ++ part ++ after).splitOn sep := by
  have hrest : part ∈ (part ++ after).splitOn sep := by
    rcases hafter with rfl | hafter
    · rw [List.append_nil, List.splitOn_eq_singleton hpart]
      exact List.mem_cons_self
    · obtain ⟨after, rfl⟩ := List.head?_eq_some_iff.mp hafter
      rw [List.splitOn_append_cons_self, List.splitOn_eq_singleton hpart]
      exact List.mem_append_left _ List.mem_cons_self
  rcases hbefore with rfl | hbefore
  · exact hrest
  · obtain ⟨before, rfl⟩ := List.getLast?_eq_some_iff.mp hbefore
    rw [List.append_assoc, List.append_assoc, List.singleton_append, List.splitOn_append_cons_self]
    exact List.mem_append_right _ hrest

/-- What is joined after a part starts with a slash. -/
theorem intercalate_cons_eq (part : JsString) (parts : List JsString) :
    ∃ after, [sep].intercalate (part :: parts) = part ++ after ∧ AtBoundary after := by
  cases parts with
  | nil => exact ⟨[], by rw [List.intercalate_singleton, List.append_nil], .inl rfl⟩
  | cons next parts =>
    refine ⟨[sep] ++ [sep].intercalate (next :: parts), ?_, .inr rfl⟩
    rw [List.intercalate_cons_cons, List.append_assoc]

theorem memberName_eq_of_mem {part : JsString} (h : part ∈ path) :
    ∃ before after, memberName path = before ++ part ++ after ∧ AtBoundary after := by
  obtain ⟨front, back, rfl⟩ := List.append_of_mem h
  have hjoin : ∀ first : JsString, ∃ before after,
      [sep].intercalate (first :: (front ++ part :: back)) = before ++ part ++ after ∧
        AtBoundary after := by
    induction front with
    | nil =>
      intro first
      obtain ⟨after, hafter, hboundary⟩ := intercalate_cons_eq part back
      refine ⟨first ++ [sep], after, ?_, hboundary⟩
      rw [List.nil_append, List.intercalate_cons_cons, hafter, List.append_assoc _ part after]
    | cons next front ih =>
      intro first
      obtain ⟨before, after, heq, hboundary⟩ := ih (by simp) next
      refine ⟨first ++ [sep] ++ before, after, ?_, hboundary⟩
      rw [List.cons_append, List.intercalate_cons_cons, heq]
      simp only [List.append_assoc]
  exact hjoin (js ".")

/-- A text ends in a part that starts after a slash. -/
theorem exists_last_part (x : JsString) : ∃ before part, x = before ++ part ∧ sep ∉ part ∧
    (before = [] ∨ before.getLast? = some sep) := by
  induction x with
  | nil => exact ⟨[], [], rfl, List.not_mem_nil, .inl rfl⟩
  | cons u x ih =>
    obtain ⟨before, part, rfl, hpart, hbefore⟩ := ih
    rcases hbefore with rfl | hbefore
    · by_cases hu : u = sep
      · exact ⟨[u], part, rfl, hpart, .inr (congrArg some hu)⟩
      · refine ⟨[], u :: part, rfl, fun hmem => ?_, .inl rfl⟩
        rcases List.mem_cons.mp hmem with rfl | hmem
        · exact hu rfl
        · exact hpart hmem
    · refine ⟨u :: before, part, rfl, hpart, .inr ?_⟩
      obtain ⟨front, rfl⟩ := List.getLast?_eq_some_iff.mp hbefore
      rw [← List.cons_append, List.getLast?_concat]

/-- **A star and a literal exclude the members with a part that ends in the literal.** -/
theorem excludes_star_literal (hpath : ∀ s ∈ path, IsSegment s) (hstar : star ∉ literal)
    (hsep : sep ∉ literal) (hdot : ¬literal <:+ js ".") :
    excludes (star :: literal) (memberName path) = true ↔ ∃ s ∈ path, literal <:+ s := by
  rw [excludes_iff]
  constructor
  · intro h
    have hmatch : ∃ x rest, memberName path = x ++ literal ++ rest ∧ AtBoundary rest := by
      rcases h with h | ⟨front, back, hname, h⟩
      · obtain ⟨x, y, hname, hy⟩ := globMatches_star.mp h
        obtain ⟨rest, rfl, hrest⟩ := (globMatches_literal hstar).mp hy
        exact ⟨x, rest, by rw [hname, List.append_assoc], hrest⟩
      · obtain ⟨x, y, rfl, hy⟩ := globMatches_star.mp h
        obtain ⟨rest, rfl, hrest⟩ := (globMatches_literal hstar).mp hy
        exact ⟨front ++ sep :: x, rest, by rw [hname]; simp, hrest⟩
    obtain ⟨x, rest, hname, hrest⟩ := hmatch
    obtain ⟨before, part, rfl, hpart, hbefore⟩ := exists_last_part x
    have hmem : part ++ literal ∈ (memberName path).splitOn sep := by
      rw [hname, List.append_assoc before]
      refine mem_splitOn_of_boundaries (fun hmem => ?_) hbefore hrest
      rcases List.mem_append.mp hmem with hmem | hmem
      · exact hpart hmem
      · exact hsep hmem
    rw [splitOn_memberName hpath] at hmem
    rcases List.mem_cons.mp hmem with hcurrent | hmem
    · exact absurd (hcurrent ▸ List.suffix_append part literal) hdot
    · exact ⟨_, hmem, List.suffix_append part literal⟩
  · rintro ⟨s, hs, front, rfl⟩
    obtain ⟨before, after, hname, hafter⟩ := memberName_eq_of_mem hs
    refine .inl (globMatches_star.mpr ⟨before ++ front, literal ++ after, ?_,
      (globMatches_literal hstar).mpr ⟨after, rfl, hafter⟩⟩)
    rw [hname]
    simp only [List.append_assoc]

/-- **A literal below the current directory excludes the members below it.** -/
theorem excludes_current_literal (hpath : ∀ s ∈ path, IsSegment s) (hstar : star ∉ literal)
    (hliteral : IsSegment literal) :
    excludes (js "./" ++ literal) (memberName path) = true ↔ path.head? = some literal := by
  have hpattern : star ∉ js "./" ++ literal := by
    rw [List.mem_append, not_or]
    exact ⟨by decide, hstar⟩
  have hsplit := splitOn_memberName hpath
  have hdots : ∀ rest : JsString, (js "./" ++ literal ++ rest).splitOn sep =
      js "." :: (literal ++ rest).splitOn sep := by
    intro rest
    rw [List.append_assoc, show js "./" = js "." ++ [sep] from rfl, List.append_assoc,
      List.singleton_append, List.splitOn_append_cons_self, List.splitOn_eq_singleton (by decide)]
    rfl
  rw [excludes_iff, globMatches_literal hpattern]
  constructor
  · rintro (⟨rest, hname, hrest⟩ | ⟨x, y, hname, hmatch⟩)
    · rw [hname, hdots] at hsplit
      rw [← (List.cons.inj hsplit).2]
      rcases hrest with rfl | hrest
      · rw [List.append_nil, List.splitOn_eq_singleton hliteral.no_sep]
        rfl
      · obtain ⟨rest, rfl⟩ := List.head?_eq_some_iff.mp hrest
        rw [List.splitOn_append_cons_self, List.splitOn_eq_singleton hliteral.no_sep]
        rfl
    · obtain ⟨rest, rfl, -⟩ := (globMatches_literal hpattern).mp hmatch
      rw [hname, List.splitOn_append_cons_self, hdots] at hsplit
      cases hx : x.splitOn sep with
      | nil => exact absurd hx (List.splitOn_ne_nil _ _)
      | cons first others =>
        rw [hx, List.cons_append] at hsplit
        have hmem : js "." ∈ path := by
          rw [← (List.cons.inj hsplit).2]
          exact List.mem_append_right _ List.mem_cons_self
        exact absurd rfl (hpath _ hmem).ne_dot
  · intro hhead
    obtain ⟨rest, rfl⟩ := List.head?_eq_some_iff.mp hhead
    obtain ⟨after, hafter, hboundary⟩ := intercalate_cons_eq literal rest
    refine .inl ⟨after, ?_, hboundary⟩
    rw [memberName, List.intercalate_cons_cons, hafter, ← List.append_assoc]
    rfl

end Files.Globs
