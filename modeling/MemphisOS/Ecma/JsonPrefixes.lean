import Mathlib.Data.List.TakeWhile
import MemphisOS.Ecma.JsonRoundTrip

/-!
# Longer and shorter texts

What the reader has read of a text it reads of every longer text as well, so the text of an array
that is cut anywhere is not the text of an array.
-/

namespace Ecma.Json

variable {ν : Type} {readNumber : Text → Option ν}

/-! ## Strings -/

theorem unescape_u : unescape 'u' = none := by decide

theorem readString_append {t rest : Text} {s : JsString} (h : readString t = some (s, rest))
    (more : Text) : readString (t ++ more) = some (s, rest ++ more) := by
  induction t using readString.induct generalizing s rest with
  | case1 => cases h
  | case2 t =>
    cases h
    rfl
  | case3 a b c d t ih =>
    simp only [readString, Option.bind_eq_bind] at h
    obtain ⟨u, hu, h⟩ := Option.bind_eq_some_iff.mp h
    obtain ⟨⟨s', rest'⟩, hread, h⟩ := Option.bind_eq_some_iff.mp h
    cases h
    simp only [List.cons_append, readString, hu, ih hread, Option.bind_eq_bind, Option.bind_some]
  | case4 c t hnot ih =>
    rw [readString.eq_4 c t hnot, Option.bind_eq_bind] at h
    obtain ⟨u, hu, h⟩ := Option.bind_eq_some_iff.mp h
    obtain ⟨⟨s', rest'⟩, hread, h⟩ := Option.bind_eq_some_iff.mp h
    cases h
    rw [List.cons_append, List.cons_append, readString_escape hu, ih hread]
    rfl
  | case5 c t hquote hu hescape hc =>
    rw [readString.eq_5 c t hquote hu hescape, if_pos hc] at h
    cases h
  | case6 c t hquote hu hescape hc ih =>
    rw [readString.eq_5 c t hquote hu hescape, if_neg hc, Option.bind_eq_bind] at h
    obtain ⟨⟨s', rest'⟩, hread, h⟩ := Option.bind_eq_some_iff.mp h
    cases h
    obtain ⟨hslash, hcontrol⟩ := not_or.mp hc
    rw [List.cons_append, readString_char hquote hslash (Nat.le_of_not_lt hcontrol), ih hread]
    rfl

theorem readString_suffix {t rest : Text} {s : JsString} (h : readString t = some (s, rest)) :
    rest <:+ t := by
  induction t using readString.induct generalizing s rest with
  | case1 => cases h
  | case2 t =>
    cases h
    exact List.suffix_cons _ _
  | case3 a b c d t ih =>
    simp only [readString, Option.bind_eq_bind] at h
    obtain ⟨u, hu, h⟩ := Option.bind_eq_some_iff.mp h
    obtain ⟨⟨s', rest'⟩, hread, h⟩ := Option.bind_eq_some_iff.mp h
    cases h
    exact (ih hread).trans (List.suffix_append ['\\', 'u', a, b, c, d] t)
  | case4 c t hnot ih =>
    rw [readString.eq_4 c t hnot, Option.bind_eq_bind] at h
    obtain ⟨u, hu, h⟩ := Option.bind_eq_some_iff.mp h
    obtain ⟨⟨s', rest'⟩, hread, h⟩ := Option.bind_eq_some_iff.mp h
    cases h
    exact (ih hread).trans (List.suffix_append ['\\', c] t)
  | case5 c t hquote hu hescape hc =>
    rw [readString.eq_5 c t hquote hu hescape, if_pos hc] at h
    cases h
  | case6 c t hquote hu hescape hc ih =>
    rw [readString.eq_5 c t hquote hu hescape, if_neg hc, Option.bind_eq_bind] at h
    obtain ⟨⟨s', rest'⟩, hread, h⟩ := Option.bind_eq_some_iff.mp h
    cases h
    exact (ih hread).trans (List.suffix_cons _ _)

/-! ## What is left of a text -/

theorem skipSpace_suffix (t : Text) : skipSpace t <:+ t := List.dropWhile_suffix _

/-- What is left after a character that white space was skipped to. -/
theorem suffix_of_skipSpace {t t' : Text} {c : Char} (h : skipSpace t = c :: t') : t' <:+ t :=
  (List.suffix_cons c t').trans (h ▸ skipSpace_suffix t)

/-- **Suffixes.** The reader leaves an end of its text; behind an array it leaves what follows
the closing bracket. -/
theorem read_suffix (readNumber : Text → Option ν) (fuel : ℕ) :
    (∀ t v rest, readValue readNumber fuel t = some (v, rest) → rest <:+ t ∧
      ∀ vs, v = .arr vs → (']' :: rest) <:+ t) ∧
    (∀ t vs rest, readItems readNumber fuel t = some (vs, rest) → (']' :: rest) <:+ t) ∧
    (∀ t ms rest, readMembers readNumber fuel t = some (ms, rest) → rest <:+ t) := by
  induction fuel with
  | zero =>
    exact ⟨fun _ _ _ h => (by cases h), fun _ _ _ h => (by cases h), fun _ _ _ h => (by cases h)⟩
  | succ fuel ih =>
    obtain ⟨hvalue, hitems, hmembers⟩ := ih
    refine ⟨fun t v rest h => ?_, fun t vs rest h => ?_, fun t ms rest h => ?_⟩
    · rw [readValue] at h
      split at h
      · next t' heq =>
        obtain ⟨⟨s, rest'⟩, hread, h⟩ := Option.map_eq_some_iff.mp h
        cases h
        exact ⟨(readString_suffix hread).trans (suffix_of_skipSpace heq), fun _ h => by cases h⟩
      · next t' heq =>
        split at h
        · next t'' heq' =>
          cases h
          have hclosing : (']' :: rest) <:+ t :=
            (heq' ▸ skipSpace_suffix t').trans (suffix_of_skipSpace heq)
          exact ⟨(List.suffix_cons _ _).trans hclosing, fun _ _ => hclosing⟩
        · obtain ⟨⟨vs, rest'⟩, hread, h⟩ := Option.map_eq_some_iff.mp h
          cases h
          have hclosing := ((hitems _ _ _ hread).trans (skipSpace_suffix t')).trans
            (suffix_of_skipSpace heq)
          exact ⟨(List.suffix_cons _ _).trans hclosing, fun _ _ => hclosing⟩
      · next t' heq =>
        split at h
        · next t'' heq' =>
          cases h
          exact ⟨(suffix_of_skipSpace heq').trans (suffix_of_skipSpace heq), fun _ h => by cases h⟩
        · obtain ⟨⟨ms, rest'⟩, hread, h⟩ := Option.map_eq_some_iff.mp h
          cases h
          exact ⟨((hmembers _ _ _ hread).trans (skipSpace_suffix t')).trans
            (suffix_of_skipSpace heq), fun _ h => by cases h⟩
      · next t' heq =>
        cases h
        exact ⟨(List.suffix_append ['u', 'l', 'l'] _).trans (suffix_of_skipSpace heq),
          fun _ h => by cases h⟩
      · next t' heq =>
        cases h
        exact ⟨(List.suffix_append ['r', 'u', 'e'] _).trans (suffix_of_skipSpace heq),
          fun _ h => by cases h⟩
      · next t' heq =>
        cases h
        exact ⟨(List.suffix_append ['a', 'l', 's', 'e'] _).trans (suffix_of_skipSpace heq),
          fun _ h => by cases h⟩
      · obtain ⟨n, -, h⟩ := Option.map_eq_some_iff.mp h
        cases h
        exact ⟨(List.dropWhile_suffix _).trans (skipSpace_suffix t), fun _ h => by cases h⟩
    · rw [readItems, Option.bind_eq_bind] at h
      obtain ⟨⟨v, t'⟩, hread, h⟩ := Option.bind_eq_some_iff.mp h
      have ht' : t' <:+ t := (hvalue _ _ _ hread).1
      simp only at h
      split at h
      · next t'' heq =>
        obtain ⟨⟨vs', rest'⟩, hread', h⟩ := Option.bind_eq_some_iff.mp h
        cases h
        exact ((hitems _ _ _ hread').trans (suffix_of_skipSpace heq)).trans ht'
      · next t'' heq =>
        cases h
        exact (heq ▸ skipSpace_suffix t').trans ht'
      · cases h
    · rw [readMembers] at h
      split at h
      · next t' heq =>
        rw [Option.bind_eq_bind] at h
        obtain ⟨⟨k, t₁⟩, hkey, h⟩ := Option.bind_eq_some_iff.mp h
        have ht₁ : t₁ <:+ t := (readString_suffix hkey).trans (suffix_of_skipSpace heq)
        simp only at h
        split at h
        · next t₂ heq₂ =>
          obtain ⟨⟨v, t₃⟩, hread, h⟩ := Option.bind_eq_some_iff.mp h
          have ht₃ : t₃ <:+ t := ((hvalue _ _ _ hread).1.trans (suffix_of_skipSpace heq₂)).trans ht₁
          simp only at h
          split at h
          · next t₄ heq₄ =>
            obtain ⟨⟨ms', rest'⟩, hread', h⟩ := Option.bind_eq_some_iff.mp h
            cases h
            exact ((hmembers _ _ _ hread').trans (suffix_of_skipSpace heq₄)).trans ht₃
          · next t₄ heq₄ =>
            cases h
            exact (suffix_of_skipSpace heq₄).trans ht₃
          · cases h
        · cases h
      · cases h

/-! ## Longer texts -/

theorem skipSpace_append {t t' : Text} {c : Char} (h : skipSpace t = c :: t') (more : Text) :
    skipSpace (t ++ more) = c :: (t' ++ more) := by
  rw [skipSpace, List.dropWhile_append, if_neg, ← List.cons_append, ← h]
  · rfl
  · rw [show t.dropWhile isSpace = c :: t' from h]
    simp

theorem readValue_nil (hempty : readNumber [] = none) (fuel : ℕ) :
    readValue readNumber fuel [] = none := by
  cases fuel with
  | zero => rfl
  | succ fuel => simp [readValue, skipSpace, hempty]

theorem readItems_nil (hempty : readNumber [] = none) (fuel : ℕ) :
    readItems readNumber fuel [] = none := by
  cases fuel with
  | zero => rfl
  | succ fuel => simp [readItems, readValue_nil hempty]

theorem readMembers_nil (fuel : ℕ) : readMembers readNumber fuel [] = none := by
  cases fuel with
  | zero => rfl
  | succ fuel => simp [readMembers, skipSpace]

/-- A number is read where a character of numbers stands. -/
theorem readValue_of_isNumberChar {t t' : Text} {c : Char} (h : skipSpace t = c :: t')
    (hc : isNumberChar c = true) (fuel : ℕ) :
    readValue readNumber (fuel + 1) t =
      (readNumber ((c :: t').takeWhile isNumberChar)).map fun n =>
        (.num n, (c :: t').dropWhile isNumberChar) := by
  rw [readValue, h]
  have hother : ∀ d ∈ ['"', '[', '{', 'n', 't', 'f'], c ≠ d := by
    have hall : ∀ d ∈ ['"', '[', '{', 'n', 't', 'f'], isNumberChar d = false := by
      simp only [List.forall_mem_cons, List.not_mem_nil, false_implies, implies_true, and_true]
      decide
    rintro d hd rfl
    simp [hall c hd] at hc
  split
  all_goals first
    | rfl
    | next heq => exact absurd (List.cons.inj heq).1 (hother _ (by simp))

theorem readValue_items {t t' t'' : Text} {c : Char} (h : skipSpace t = '[' :: t')
    (h' : skipSpace t' = c :: t'') (hc : c ≠ ']') (fuel : ℕ) :
    readValue readNumber (fuel + 1) t =
      (readItems readNumber fuel (c :: t'')).map fun r => (.arr r.1, r.2) := by
  rw [readValue, h]
  simp only [h']
  split
  · next heq => exact absurd (List.cons.inj heq).1 hc
  · rfl

theorem readValue_members {t t' t'' : Text} {c : Char} (h : skipSpace t = '{' :: t')
    (h' : skipSpace t' = c :: t'') (hc : c ≠ '}') (fuel : ℕ) :
    readValue readNumber (fuel + 1) t =
      (readMembers readNumber fuel (c :: t'')).map fun r => (.obj r.1, r.2) := by
  rw [readValue, h]
  simp only [h']
  split
  · next heq => exact absurd (List.cons.inj heq).1 hc
  · rfl

/-- The end of the value does not depend on what follows. -/
def Ends (v : Json ν) (rest : Text) : Prop := rest ≠ [] ∨ ∀ n, v ≠ .num n

theorem takeWhile_append_of_dropWhile_ne_nil {t : Text} (h : t.dropWhile isNumberChar ≠ [])
    (more : Text) :
    (t ++ more).takeWhile isNumberChar = t.takeWhile isNumberChar ∧
      (t ++ more).dropWhile isNumberChar = t.dropWhile isNumberChar ++ more := by
  induction t with
  | nil => exact absurd rfl h
  | cons c t ih =>
    by_cases hc : isNumberChar c = true
    · rw [List.dropWhile_cons_of_pos hc] at h
      obtain ⟨htake, hdrop⟩ := ih h
      rw [List.cons_append, List.takeWhile_cons_of_pos hc, List.dropWhile_cons_of_pos hc,
        List.takeWhile_cons_of_pos hc, List.dropWhile_cons_of_pos hc, htake, hdrop]
      exact ⟨rfl, rfl⟩
    · rw [List.cons_append, List.takeWhile_cons_of_neg hc, List.dropWhile_cons_of_neg hc,
        List.takeWhile_cons_of_neg hc, List.dropWhile_cons_of_neg hc]
      exact ⟨rfl, rfl⟩

/-- A number that something follows is read of every longer text. -/
theorem readValue_number_append (hempty : readNumber [] = none) {t rest : Text} {n : ν}
    (hread : readNumber ((skipSpace t).takeWhile isNumberChar) = some n)
    (hrest : (skipSpace t).dropWhile isNumberChar = rest) (hne : rest ≠ []) (more : Text)
    (fuel : ℕ) : readValue readNumber (fuel + 1) (t ++ more) = some (.num n, rest ++ more) := by
  subst hrest
  cases hskip : skipSpace t with
  | nil =>
    rw [hskip] at hread
    exact absurd (hread.symm.trans hempty) (by simp)
  | cons c t' =>
    rw [hskip] at hread hne
    have hc : isNumberChar c = true := by
      by_contra hc
      rw [List.takeWhile_cons_of_neg hc, hempty] at hread
      cases hread
    obtain ⟨htake, hdrop⟩ := takeWhile_append_of_dropWhile_ne_nil hne more
    rw [readValue_of_isNumberChar (skipSpace_append hskip more) hc, ← List.cons_append, htake,
      hdrop, hread]
    rfl

/-- **Longer texts.** What is read of a text is read of every longer text, with the same fuel or
more. -/
theorem read_append (hempty : readNumber [] = none) (more : Text) (fuel : ℕ) :
    (∀ t v rest, readValue readNumber fuel t = some (v, rest) → Ends v rest →
      ∀ fuel', fuel ≤ fuel' → readValue readNumber fuel' (t ++ more) = some (v, rest ++ more)) ∧
    (∀ t vs rest, readItems readNumber fuel t = some (vs, rest) →
      ∀ fuel', fuel ≤ fuel' → readItems readNumber fuel' (t ++ more) = some (vs, rest ++ more)) ∧
    (∀ t ms rest, readMembers readNumber fuel t = some (ms, rest) →
      ∀ fuel', fuel ≤ fuel' →
        readMembers readNumber fuel' (t ++ more) = some (ms, rest ++ more)) := by
  induction fuel with
  | zero =>
    exact ⟨fun _ _ _ h => (by cases h), fun _ _ _ h => (by cases h), fun _ _ _ h => (by cases h)⟩
  | succ fuel ih =>
    obtain ⟨hvalue, hitems, hmembers⟩ := ih
    refine ⟨fun t v rest h hends fuel' hfuel => ?_, fun t vs rest h fuel' hfuel => ?_,
      fun t ms rest h fuel' hfuel => ?_⟩
    all_goals
      obtain ⟨fuel', rfl⟩ : ∃ k, fuel' = k + 1 := ⟨fuel' - 1, by omega⟩
      have hle : fuel ≤ fuel' := by omega
    · rw [readValue] at h
      split at h
      · next t' heq =>
        obtain ⟨⟨s, rest'⟩, hread, h⟩ := Option.map_eq_some_iff.mp h
        cases h
        rw [readValue, skipSpace_append heq]
        simp only [readString_append hread, Option.map_some]
      · next t' heq =>
        split at h
        · next t'' heq' =>
          cases h
          rw [readValue, skipSpace_append heq]
          simp only [skipSpace_append heq']
        · next hnot =>
          obtain ⟨⟨vs, rest'⟩, hread, h⟩ := Option.map_eq_some_iff.mp h
          cases h
          cases hskip : skipSpace t' with
          | nil =>
            rw [hskip, readItems_nil hempty] at hread
            cases hread
          | cons c t'' =>
            rw [hskip] at hread
            have hc : c ≠ ']' := by
              rintro rfl
              exact hnot t'' hskip
            rw [readValue_items (skipSpace_append heq more) (skipSpace_append hskip more) hc,
              ← List.cons_append, hitems _ _ _ hread _ hle]
            rfl
      · next t' heq =>
        split at h
        · next t'' heq' =>
          cases h
          rw [readValue, skipSpace_append heq]
          simp only [skipSpace_append heq']
        · next hnot =>
          obtain ⟨⟨ms, rest'⟩, hread, h⟩ := Option.map_eq_some_iff.mp h
          cases h
          cases hskip : skipSpace t' with
          | nil =>
            rw [hskip, readMembers_nil] at hread
            cases hread
          | cons c t'' =>
            rw [hskip] at hread
            have hc : c ≠ '}' := by
              rintro rfl
              exact hnot t'' hskip
            rw [readValue_members (skipSpace_append heq more) (skipSpace_append hskip more) hc,
              ← List.cons_append, hmembers _ _ _ hread _ hle]
            rfl
      · next t' heq =>
        cases h
        rw [readValue, skipSpace_append heq]
        rfl
      · next t' heq =>
        cases h
        rw [readValue, skipSpace_append heq]
        rfl
      · next t' heq =>
        cases h
        rw [readValue, skipSpace_append heq]
        rfl
      · obtain ⟨n, hread, h⟩ := Option.map_eq_some_iff.mp h
        cases h
        exact readValue_number_append hempty hread rfl
          (hends.resolve_right fun hnot => hnot n rfl) more fuel'
    · rw [readItems, Option.bind_eq_bind] at h
      obtain ⟨⟨v, t'⟩, hread, h⟩ := Option.bind_eq_some_iff.mp h
      have hends : skipSpace t' ≠ [] → Ends v t' := by
        intro hne
        refine .inl fun hnil => hne ?_
        rw [hnil]
        rfl
      simp only at h
      split at h
      · next t'' heq =>
        obtain ⟨⟨vs', rest'⟩, hread', h⟩ := Option.bind_eq_some_iff.mp h
        cases h
        rw [readItems, hvalue _ _ _ hread (hends (by simp [heq])) _ hle]
        simp only [Option.bind_eq_bind, Option.bind_some, skipSpace_append heq,
          hitems _ _ _ hread' _ hle]
      · next t'' heq =>
        cases h
        rw [readItems, hvalue _ _ _ hread (hends (by simp [heq])) _ hle]
        simp only [Option.bind_eq_bind, Option.bind_some, skipSpace_append heq]
      · cases h
    · rw [readMembers] at h
      split at h
      · next t' heq =>
        rw [Option.bind_eq_bind] at h
        obtain ⟨⟨k, t₁⟩, hkey, h⟩ := Option.bind_eq_some_iff.mp h
        simp only at h
        rw [readMembers, skipSpace_append heq]
        simp only [readString_append hkey, Option.bind_eq_bind, Option.bind_some]
        split at h
        · next t₂ heq₂ =>
          obtain ⟨⟨v, t₃⟩, hread, h⟩ := Option.bind_eq_some_iff.mp h
          have hends : skipSpace t₃ ≠ [] → Ends v t₃ := by
            intro hne
            refine .inl fun hnil => hne ?_
            rw [hnil]
            rfl
          simp only at h
          split at h
          · next t₄ heq₄ =>
            obtain ⟨⟨ms', rest'⟩, hread', h⟩ := Option.bind_eq_some_iff.mp h
            cases h
            simp only [skipSpace_append heq₂, hvalue _ _ _ hread (hends (by simp [heq₄])) _ hle,
              Option.bind_some, skipSpace_append heq₄, hmembers _ _ _ hread' _ hle]
          · next t₄ heq₄ =>
            cases h
            simp only [skipSpace_append heq₂, hvalue _ _ _ hread (hends (by simp [heq₄])) _ hle,
              Option.bind_some, skipSpace_append heq₄]
          · cases h
        · cases h
      · cases h

/-! ## Cut texts -/

theorem blank_of_skipSpace {t : Text} (h : skipSpace t = []) : Blank t :=
  fun c hc => List.dropWhile_eq_nil_iff.mp h c hc

/-- What is read of a whole document. -/
theorem readValue_of_parse {t : Text} {v : Json ν} (h : parse readNumber t = some v) :
    ∃ rest, readValue readNumber (2 * t.length + 1) t = some (v, rest) ∧ Blank rest := by
  rw [parse, Option.bind_eq_bind] at h
  obtain ⟨⟨w, rest⟩, hread, h⟩ := Option.bind_eq_some_iff.mp h
  by_cases hrest : skipSpace rest = []
  · simp only [if_pos hrest] at h
    cases h
    exact ⟨rest, hread, blank_of_skipSpace hrest⟩
  · simp only [if_neg hrest] at h
    cases h

/-- **Cut texts.** Of a text that ends with its closing bracket no shorter part is the text of an
array, even if it ends in other characters. -/
theorem parse_cut_ne_arr (hempty : readNumber [] = none) {t kept cut junk : Text} {v : Json ν}
    (h : parse readNumber t = some v) (ht : t = kept ++ cut) (hcut : cut ≠ [])
    (hlast : t.getLast? = some ']') (hjunk : ∀ c ∈ junk, isSpace c = false ∧ c ≠ ']')
    (vs : List (Json ν)) : parse readNumber (kept ++ junk) ≠ some (.arr vs) := by
  intro hparse
  obtain ⟨rest, hread, hblank⟩ := readValue_of_parse hparse
  have hclosing := ((read_suffix readNumber _).1 _ _ _ hread).2 vs rfl
  -- The last character is a space or the bracket, so nothing was put in the place of what was cut.
  have hnil : junk = [] := by
    by_contra hne
    have hc := List.getLast?_eq_some_getLast hne
    generalize junk.getLast hne = c at hc
    have hmem := hjunk c (List.mem_of_getLast? hc)
    have hlast' : (']' :: rest).getLast? = some c := by
      obtain ⟨s, hs⟩ := hclosing
      have heq := congrArg List.getLast? hs
      rw [List.getLast?_append, List.getLast?_append, hc, Option.some_or] at heq
      cases hend : (']' :: rest).getLast? with
      | none => simp at hend
      | some d =>
        rw [hend, Option.some_or] at heq
        exact heq
    cases rest with
    | nil =>
      cases hlast'
      exact hmem.2 rfl
    | cons d rest =>
      rw [List.getLast?_cons_cons] at hlast'
      rw [hblank c (List.mem_of_getLast? hlast')] at hmem
      exact absurd hmem.1 (by decide)
  subst hnil
  rw [List.append_nil] at hread
  obtain ⟨rest', hread', hblank'⟩ := readValue_of_parse h
  have hlonger := (read_append hempty cut _).1 _ _ _ hread (.inr fun n hn => by cases hn)
    (2 * t.length + 1) (by rw [ht, List.length_append]; omega)
  rw [← ht, hread'] at hlonger
  have hrest : rest' = rest ++ cut := congrArg (fun r : Option (Json ν × Text) =>
    (r.map Prod.snd).getD []) hlonger
  have hend : cut.getLast? = some ']' := by
    rw [ht, List.getLast?_append] at hlast
    cases hcase : cut.getLast? with
    | none => exact absurd (List.getLast?_eq_none_iff.mp hcase) hcut
    | some c =>
      rw [hcase, Option.some_or] at hlast
      exact hlast
  have hspace := hblank' ']' (hrest ▸ List.mem_append_right _ (List.mem_of_getLast? hend))
  exact absurd hspace (by decide)

/-- A document is read back when white space follows its text. -/
theorem parse_write_append {writeNumber : ν → Text} {gap behind : Text} (hgap : Blank gap)
    (hbehind : Blank behind) {v : Json ν} (hv : v.AllNumbers (WritesBack writeNumber readNumber)) :
    parse readNumber (write writeNumber gap v [] ++ behind) = some v := by
  have hdelimited : Delimited behind := by
    rw [← List.append_nil behind]
    exact hbehind.delimited_append (by simp [Delimited])
  have hread := readsBack_of_allNumbers hgap hv [] [] behind
    (2 * (write writeNumber gap v [] ++ behind).length + 1) (by simp [Blank]) (by simp [Blank])
    hdelimited (by
      have hsize := size_le_length gap hv []
      rw [List.length_append]
      omega)
  rw [List.nil_append] at hread
  have hskip : skipSpace behind = [] := by
    rw [skipSpace, List.dropWhile_eq_nil_iff]
    exact hbehind
  rw [parse, hread, Option.bind_eq_bind, Option.bind_some]
  exact if_pos hskip

end Ecma.Json
