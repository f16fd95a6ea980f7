import MemphisOS.Chain.Blocks
import MemphisOS.Ecma.JsonPrefixes

/-!
# Objects in a noisy text

The scanner of `extractJsonObjects` only looks at quotation marks, escapes and braces. Over a text
the reader accepts as a value it comes back to the state it started in, so it cuts a text exactly
at its objects. Whatever the text, the objects are read from disjoint slices in order.
-/

namespace MemphisOS.Chain

open Ecma

/-! ## States of the scanner -/

/-- The scanner between two objects. -/
def outside (out : List Plain) : ExtractState := ⟨0, none, false, false, out⟩

/-- The scanner in an object, outside strings. -/
def inside (depth : ℕ) (chunk : Text) (out : List Plain) : ExtractState :=
  ⟨depth + 1, some chunk, false, false, out⟩

/-- The scanner in a string of an object. -/
def inString (depth : ℕ) (chunk : Text) (out : List Plain) : ExtractState :=
  ⟨depth + 1, some chunk, true, false, out⟩

/-- A text without quotation marks and braces. -/
def Unmarked (t : Text) : Prop := ∀ c ∈ t, c ≠ '"' ∧ c ≠ '{' ∧ c ≠ '}'

/-- A text that the scanner passes over inside an object. -/
def Balanced (t : Text) : Prop :=
  ∀ depth chunk out, t.foldl extractStep (inside depth chunk out) =
    inside depth (t.reverse ++ chunk) out

/-- A text that the scanner leaves a string with. -/
def ClosesString (t : Text) : Prop :=
  ∀ depth chunk out, t.foldl extractStep (inString depth chunk out) =
    inside depth (t.reverse ++ chunk) out

variable {depth : ℕ} {chunk : Text} {out : List Plain} {c : Char} {s t : Text}

theorem extractStep_outside (h : c ≠ '"' ∧ c ≠ '{' ∧ c ≠ '}') :
    extractStep (outside out) c = outside out := by
  simp [extractStep, outside, h.1, h.2.1, h.2.2]

theorem extractStep_inside (h : c ≠ '"' ∧ c ≠ '{' ∧ c ≠ '}') :
    extractStep (inside depth chunk out) c = inside depth (c :: chunk) out := by
  simp [extractStep, inside, h.1, h.2.1, h.2.2]

theorem extractStep_quote :
    extractStep (inside depth chunk out) '"' = inString depth ('"' :: chunk) out := rfl

theorem extractStep_first : extractStep (outside out) '{' = inside 0 ['{'] out := rfl

theorem extractStep_open :
    extractStep (inside depth chunk out) '{' = inside (depth + 1) ('{' :: chunk) out := rfl

theorem extractStep_close :
    extractStep (inside (depth + 1) chunk out) '}' = inside depth ('}' :: chunk) out := rfl

theorem extractStep_last : extractStep (inside 0 chunk out) '}' =
    outside (out ++ (parseJson ('}' :: chunk).reverse).toList) := rfl

theorem extractStep_inString (hquote : c ≠ '"') (hslash : c ≠ '\\') :
    extractStep (inString depth chunk out) c = inString depth (c :: chunk) out := by
  simp [extractStep, inString, hquote, hslash]

theorem foldl_outside (h : Unmarked t) : t.foldl extractStep (outside out) = outside out := by
  induction t with
  | nil => rfl
  | cons c t ih =>
    rw [List.foldl_cons, extractStep_outside (h c (by simp))]
    exact ih fun d hd => h d (by simp [hd])

/-! ## Texts that are passed over -/

theorem Balanced.nil : Balanced [] := fun _ _ _ => rfl

theorem Balanced.append (hs : Balanced s) (ht : Balanced t) : Balanced (s ++ t) := by
  intro depth chunk out
  rw [List.foldl_append, hs, ht, List.reverse_append, List.append_assoc]

theorem Unmarked.balanced (h : Unmarked t) : Balanced t := by
  induction t with
  | nil => exact .nil
  | cons c t ih =>
    intro depth chunk out
    rw [List.foldl_cons, extractStep_inside (h c (by simp)),
      ih (fun d hd => h d (by simp [hd])), List.reverse_cons, List.append_assoc]
    rfl

/-- A string with its quotation marks. -/
theorem ClosesString.balanced (h : ClosesString t) : Balanced ('"' :: t) := by
  intro depth chunk out
  rw [List.foldl_cons, extractStep_quote, h, List.reverse_cons, List.append_assoc]
  rfl

/-- An object in an object. -/
theorem Balanced.braces (h : Balanced t) : Balanced ('{' :: (t ++ ['}'])) := by
  intro depth chunk out
  rw [List.foldl_cons, extractStep_open, List.foldl_append, h, List.foldl_cons, extractStep_close]
  simp

theorem unmarked_of_blank (h : Json.Blank t) : Unmarked t := by
  intro c hc
  have hspace := h c hc
  simp only [Json.isSpace, Bool.or_eq_true, beq_iff_eq] at hspace
  rcases hspace with ((rfl | rfl) | rfl) | rfl <;> decide

theorem unmarked_of_number (h : ∀ c ∈ t, isNumberChar c = true) : Unmarked t := by
  intro c hc
  have hnumber := h c hc
  refine ⟨?_, ?_, ?_⟩
  all_goals
    rintro rfl
    exact absurd hnumber (by decide)

/-! ## Strings -/

theorem ClosesString.cons (hquote : c ≠ '"') (hslash : c ≠ '\\') (h : ClosesString t) :
    ClosesString (c :: t) := by
  intro depth chunk out
  rw [List.foldl_cons, extractStep_inString hquote hslash, h, List.reverse_cons, List.append_assoc]
  rfl

/-- An escaped character is not looked at. -/
theorem ClosesString.escape (h : ClosesString t) (c : Char) : ClosesString ('\\' :: c :: t) := by
  intro depth chunk out
  have hstep : extractStep (extractStep (inString depth chunk out) '\\') c =
      inString depth (c :: '\\' :: chunk) out := rfl
  rw [List.foldl_cons, List.foldl_cons, hstep, h]
  simp

theorem ne_of_hexValue {n : ℕ} (h : Json.hexValue c = some n) : c ≠ '"' ∧ c ≠ '\\' := by
  constructor
  · rintro rfl
    cases (show Json.hexValue '"' = none by decide).symm.trans h
  · rintro rfl
    cases (show Json.hexValue '\\' = none by decide).symm.trans h

theorem ClosesString.hex {n : ℕ} (hc : Json.hexValue c = some n) (h : ClosesString t) :
    ClosesString (c :: t) := h.cons (ne_of_hexValue hc).1 (ne_of_hexValue hc).2

/-- What the reader takes for a string, the scanner leaves the string with. -/
theorem exists_closesString {rest : Text} {k : JsString} (h : Json.readString t = some (k, rest)) :
    ∃ used, t = used ++ rest ∧ ClosesString used := by
  induction t using Json.readString.induct generalizing k rest with
  | case1 => cases h
  | case2 t =>
    cases h
    exact ⟨['"'], rfl, fun _ _ _ => rfl⟩
  | case3 a b c d t ih =>
    simp only [Json.readString, Option.bind_eq_bind] at h
    obtain ⟨u, hu, h⟩ := Option.bind_eq_some_iff.mp h
    obtain ⟨⟨k', rest'⟩, hread, h⟩ := Option.bind_eq_some_iff.mp h
    cases h
    obtain ⟨used, rfl, hused⟩ := ih hread
    simp only [Json.unitOfHex, Option.bind_eq_bind] at hu
    obtain ⟨a', ha, hu⟩ := Option.bind_eq_some_iff.mp hu
    obtain ⟨b', hb, hu⟩ := Option.bind_eq_some_iff.mp hu
    obtain ⟨c', hc, hu⟩ := Option.bind_eq_some_iff.mp hu
    obtain ⟨d', hd, hu⟩ := Option.bind_eq_some_iff.mp hu
    exact ⟨_, rfl, ((((hused.hex hd).hex hc).hex hb).hex ha).escape 'u'⟩
  | case4 c t hnot ih =>
    rw [Json.readString.eq_4 c t hnot, Option.bind_eq_bind] at h
    obtain ⟨u, hu, h⟩ := Option.bind_eq_some_iff.mp h
    obtain ⟨⟨k', rest'⟩, hread, h⟩ := Option.bind_eq_some_iff.mp h
    cases h
    obtain ⟨used, rfl, hused⟩ := ih hread
    exact ⟨_, rfl, hused.escape c⟩
  | case5 c t hquote hu hescape hc =>
    rw [Json.readString.eq_5 c t hquote hu hescape, if_pos hc] at h
    cases h
  | case6 c t hquote hu hescape hc ih =>
    rw [Json.readString.eq_5 c t hquote hu hescape, if_neg hc, Option.bind_eq_bind] at h
    obtain ⟨⟨k', rest'⟩, hread, h⟩ := Option.bind_eq_some_iff.mp h
    cases h
    obtain ⟨used, rfl, hused⟩ := ih hread
    exact ⟨_, rfl, hused.cons hquote (not_or.mp hc).1⟩

/-! ## Values -/

theorem exists_blank (t : Text) : ∃ gap, Json.Blank gap ∧ t = gap ++ Json.skipSpace t :=
  ⟨t.takeWhile Json.isSpace, fun _ hc => List.mem_takeWhile_imp hc,
    List.takeWhile_append_dropWhile.symm⟩

/-- What white space was skipped to comes after a balanced text. -/
theorem exists_balanced_of_skipSpace {t' : Text} (h : Json.skipSpace t = t') :
    ∃ gap, Balanced gap ∧ t = gap ++ t' := by
  obtain ⟨gap, hgap, ht⟩ := exists_blank t
  exact ⟨gap, (unmarked_of_blank hgap).balanced, h ▸ ht⟩

/-- A word of the grammar has no quotation marks and braces. -/
theorem balanced_word (h : t.all fun c => c != '"' && c != '{' && c != '}') : Balanced t := by
  refine Unmarked.balanced fun c hc => ?_
  simpa [and_assoc] using List.all_eq_true.mp h c hc

/-- **Balance.** What the reader takes for a value is balanced; so is what it takes for the items
of an array with its closing bracket, and for the members of an object before its closing
brace. -/
theorem exists_balanced {ν : Type} (readNumber : Text → Option ν) (fuel : ℕ) :
    (∀ t v rest, Json.readValue readNumber fuel t = some (v, rest) →
      ∃ used, t = used ++ rest ∧ Balanced used) ∧
    (∀ t vs rest, Json.readItems readNumber fuel t = some (vs, rest) →
      ∃ used, t = used ++ rest ∧ Balanced used) ∧
    (∀ t ms rest, Json.readMembers readNumber fuel t = some (ms, rest) →
      ∃ used, t = used ++ '}' :: rest ∧ Balanced used) := by
  induction fuel with
  | zero =>
    exact ⟨fun _ _ _ h => (by cases h), fun _ _ _ h => (by cases h), fun _ _ _ h => (by cases h)⟩
  | succ fuel ih =>
    obtain ⟨hvalue, hitems, hmembers⟩ := ih
    refine ⟨fun t v rest h => ?_, fun t vs rest h => ?_, fun t ms rest h => ?_⟩
    · rw [Json.readValue] at h
      split at h
      · next t' heq =>
        obtain ⟨gap, hgap, rfl⟩ := exists_balanced_of_skipSpace heq
        obtain ⟨⟨s, rest'⟩, hread, h⟩ := Option.map_eq_some_iff.mp h
        cases h
        obtain ⟨used, rfl, hused⟩ := exists_closesString hread
        exact ⟨gap ++ '"' :: used, by simp, hgap.append hused.balanced⟩
      · next t' heq =>
        obtain ⟨gap, hgap, rfl⟩ := exists_balanced_of_skipSpace heq
        have hopen : Balanced (gap ++ ['[']) := hgap.append (balanced_word (by decide))
        split at h
        · next t'' heq' =>
          obtain ⟨gap', hgap', rfl⟩ := exists_balanced_of_skipSpace heq'
          cases h
          exact ⟨gap ++ ['['] ++ (gap' ++ [']']), by simp,
            hopen.append (hgap'.append (balanced_word (by decide)))⟩
        · obtain ⟨gap', hgap', ht'⟩ := exists_balanced_of_skipSpace (t := t') rfl
          obtain ⟨⟨vs, rest'⟩, hread, h⟩ := Option.map_eq_some_iff.mp h
          cases h
          obtain ⟨used, hused', hused⟩ := hitems _ _ _ hread
          rw [ht', hused']
          exact ⟨gap ++ ['['] ++ (gap' ++ used), by simp, hopen.append (hgap'.append hused)⟩
      · next t' heq =>
        obtain ⟨gap, hgap, rfl⟩ := exists_balanced_of_skipSpace heq
        split at h
        · next t'' heq' =>
          obtain ⟨gap', hgap', rfl⟩ := exists_balanced_of_skipSpace heq'
          cases h
          exact ⟨gap ++ '{' :: (gap' ++ ['}']), by simp, hgap.append hgap'.braces⟩
        · obtain ⟨gap', hgap', ht'⟩ := exists_balanced_of_skipSpace (t := t') rfl
          obtain ⟨⟨ms, rest'⟩, hread, h⟩ := Option.map_eq_some_iff.mp h
          cases h
          obtain ⟨used, hused', hused⟩ := hmembers _ _ _ hread
          rw [ht', hused']
          exact ⟨gap ++ '{' :: (gap' ++ used ++ ['}']), by simp,
            hgap.append (hgap'.append hused).braces⟩
      · next t' heq =>
        obtain ⟨gap, hgap, rfl⟩ := exists_balanced_of_skipSpace heq
        cases h
        exact ⟨gap ++ "null".toList, by simp, hgap.append (balanced_word (by decide))⟩
      · next t' heq =>
        obtain ⟨gap, hgap, rfl⟩ := exists_balanced_of_skipSpace heq
        cases h
        exact ⟨gap ++ "true".toList, by simp, hgap.append (balanced_word (by decide))⟩
      · next t' heq =>
        obtain ⟨gap, hgap, rfl⟩ := exists_balanced_of_skipSpace heq
        cases h
        exact ⟨gap ++ "false".toList, by simp, hgap.append (balanced_word (by decide))⟩
      · obtain ⟨gap, hgap, ht⟩ := exists_balanced_of_skipSpace (t := t) rfl
        obtain ⟨n, -, h⟩ := Option.map_eq_some_iff.mp h
        cases h
        refine ⟨gap ++ (Json.skipSpace t).takeWhile isNumberChar, ?_, hgap.append
          (unmarked_of_number fun _ hc => List.mem_takeWhile_imp hc).balanced⟩
        rw [List.append_assoc, List.takeWhile_append_dropWhile]
        exact ht
    · rw [Json.readItems, Option.bind_eq_bind] at h
      obtain ⟨⟨v, t'⟩, hread, hafter⟩ := Option.bind_eq_some_iff.mp h
      obtain ⟨used, rfl, hused⟩ := hvalue _ _ _ hread
      simp only at hafter
      split at hafter
      · next t'' heq =>
        obtain ⟨gap, hgap, rfl⟩ := exists_balanced_of_skipSpace heq
        obtain ⟨⟨vs', rest'⟩, hread', hlast⟩ := Option.bind_eq_some_iff.mp hafter
        cases hlast
        obtain ⟨used', rfl, hused'⟩ := hitems _ _ _ hread'
        exact ⟨used ++ (gap ++ ([','] ++ used')), by simp,
          hused.append (hgap.append ((balanced_word (by decide)).append hused'))⟩
      · next t'' heq =>
        obtain ⟨gap, hgap, rfl⟩ := exists_balanced_of_skipSpace heq
        cases hafter
        exact ⟨used ++ (gap ++ [']']), by simp,
          hused.append (hgap.append (balanced_word (by decide)))⟩
      · cases hafter
    · rw [Json.readMembers] at h
      split at h
      · next t' heq =>
        obtain ⟨gap, hgap, rfl⟩ := exists_balanced_of_skipSpace heq
        rw [Option.bind_eq_bind] at h
        obtain ⟨⟨k, t₁⟩, hread, hafter⟩ := Option.bind_eq_some_iff.mp h
        obtain ⟨key, rfl, hkey⟩ := exists_closesString hread
        have hfirst : Balanced (gap ++ '"' :: key) := hgap.append hkey.balanced
        simp only at hafter
        split at hafter
        · next t₂ heq₂ =>
          obtain ⟨gap₁, hgap₁, rfl⟩ := exists_balanced_of_skipSpace heq₂
          obtain ⟨⟨v, t₃⟩, hread', hafter'⟩ := Option.bind_eq_some_iff.mp hafter
          obtain ⟨used, rfl, hused⟩ := hvalue _ _ _ hread'
          have hmember : Balanced (gap ++ '"' :: key ++ (gap₁ ++ ([':'] ++ used))) :=
            hfirst.append (hgap₁.append ((balanced_word (by decide)).append hused))
          simp only at hafter'
          split at hafter'
          · next t₄ heq₄ =>
            obtain ⟨gap₂, hgap₂, rfl⟩ := exists_balanced_of_skipSpace heq₄
            obtain ⟨⟨ms', rest'⟩, hread'', hlast⟩ := Option.bind_eq_some_iff.mp hafter'
            cases hlast
            obtain ⟨used', rfl, hused'⟩ := hmembers _ _ _ hread''
            exact ⟨_ ++ (gap₂ ++ ([','] ++ used')), by simp,
              hmember.append (hgap₂.append ((balanced_word (by decide)).append hused'))⟩
          · next t₄ heq₄ =>
            obtain ⟨gap₂, hgap₂, rfl⟩ := exists_balanced_of_skipSpace heq₄
            cases hafter'
            exact ⟨_ ++ gap₂, by simp, hmember.append hgap₂⟩
          · cases hafter'
        · cases hafter
      · cases h

/-! ## Objects -/

/-- A text of an object, with nothing before or behind its braces. -/
structure ObjectText (t : Text) (v : Plain) : Prop where
  reads : parseJson t = some v
  head : t.head? = some '{'
  last : t.getLast? = some '}'

theorem exists_balanced_of_object {ν : Type} {readNumber : Text → Option ν} {fuel : ℕ}
    {v : Json ν} {rest : Text} (h : Json.readValue readNumber fuel ('{' :: t) = some (v, rest)) :
    ∃ used, t = used ++ '}' :: rest ∧ Balanced used := by
  cases fuel with
  | zero => cases h
  | succ fuel =>
    rw [Json.readValue, Json.skipSpace_cons (by decide)] at h
    simp only at h
    split at h
    · next t' heq =>
      obtain ⟨gap, hgap, rfl⟩ := exists_balanced_of_skipSpace heq
      cases h
      exact ⟨gap, rfl, hgap⟩
    · obtain ⟨gap, hgap, ht⟩ := exists_balanced_of_skipSpace (t := t) rfl
      obtain ⟨⟨ms, rest'⟩, hread, h⟩ := Option.map_eq_some_iff.mp h
      cases h
      obtain ⟨used, hused', hused⟩ := (exists_balanced readNumber fuel).2.2 _ _ _ hread
      refine ⟨gap ++ used, ?_, hgap.append hused⟩
      rw [List.append_assoc, ← hused']
      exact ht

/-- **One object.** Between two objects, the scanner reads the text of the next one. -/
theorem ObjectText.foldl {v : Plain} (h : ObjectText t v) :
    t.foldl extractStep (outside out) = outside (out ++ [v]) := by
  obtain ⟨w, hparse, -⟩ := Option.map_eq_some_iff.mp h.reads
  obtain ⟨rest, hread, hrest⟩ := Json.readValue_of_parse hparse
  cases t with
  | nil => cases h.head
  | cons c t =>
    obtain rfl : c = '{' := Option.some.inj h.head
    obtain ⟨used, rfl, hused⟩ := exists_balanced_of_object hread
    have hlast := h.last
    cases rest using List.reverseRecOn with
    | append_singleton rest d =>
      have htext : '{' :: (used ++ '}' :: (rest ++ [d])) = '{' :: (used ++ '}' :: rest) ++ [d] := by
        simp
      rw [htext, List.getLast?_concat] at hlast
      cases Option.some.inj hlast
      exact absurd (hrest '}' (by simp)) (by decide)
    | nil =>
      have hchunk : ('}' :: (used.reverse ++ ['{'])).reverse = '{' :: (used ++ ['}']) := by simp
      rw [List.foldl_cons, extractStep_first, List.foldl_append, hused, List.foldl_cons,
        extractStep_last, hchunk, h.reads]
      rfl

/-- The braces of a written object are its first and its last character. -/
theorem objectText_jsonText {gap : Text} {ms : List (JsString × Plain)} (hgap : Json.Blank gap)
    (hordered : OwnOrdered (.obj ms)) (hnumbers : JsonNumbers (.obj ms)) :
    ObjectText (jsonText gap (.obj ms)) (.obj ms) where
  reads := by rw [parseJson_jsonText hgap hordered, jsonImage_eq_self hnumbers]
  head := by
    rw [jsonText, jsonImage_obj, Json.write_obj, Json.bracket]
    split <;> rfl
  last := by
    rw [jsonText, jsonImage_obj, Json.write_obj, Json.bracket]
    split
    · rfl
    · exact List.getLast?_concat

/-! ## Slices -/

/-- A slice of a text that an object is read from, with what stands before it. -/
structure Slice where
  before : Text
  text : Text
  value : Plain

/-- The text up to the end of the last slice. -/
def Slice.covered (slices : List Slice) : Text :=
  slices.flatMap fun slice => slice.before ++ slice.text

theorem Slice.covered_concat (slices : List Slice) (slice : Slice) :
    covered (slices ++ [slice]) = covered slices ++ (slice.before ++ slice.text) := by
  simp [covered]

theorem extractJsonObjects_eq (raw : Text) :
    extractJsonObjects raw = (raw.foldl extractStep (outside [])).out := rfl

/-- Objects with the texts before them. -/
theorem foldl_covered {slices : List Slice}
    (h : ∀ slice ∈ slices, Unmarked slice.before ∧ ObjectText slice.text slice.value)
    (out : List Plain) : (Slice.covered slices).foldl extractStep (outside out) =
      outside (out ++ slices.map Slice.value) := by
  induction slices using List.reverseRecOn with
  | nil => simp [Slice.covered]
  | append_singleton slices slice ih =>
    obtain ⟨hbefore, htext⟩ := h slice (by simp)
    rw [Slice.covered_concat, List.foldl_append, ih fun other hother => h other (by simp [hother]),
      List.foldl_append, foldl_outside hbefore, htext.foldl]
    simp

/-- **Objects in order.** From texts of objects with unmarked texts before, between and behind
them exactly the objects are extracted, however they are written. -/
theorem extractJsonObjects_covered {slices : List Slice} {behind : Text}
    (h : ∀ slice ∈ slices, Unmarked slice.before ∧ ObjectText slice.text slice.value)
    (hbehind : Unmarked behind) :
    extractJsonObjects (Slice.covered slices ++ behind) = slices.map Slice.value := by
  rw [extractJsonObjects_eq, List.foldl_append, foldl_covered h, foldl_outside hbehind]
  rfl

/-- What the scanner has made of the text it has seen: its objects come from slices, and the chunk
it has begun is the end of what is behind them. -/
structure Sliced (seen : Text) (slices : List Slice) (tail : Text) (state : ExtractState) :
    Prop where
  seen : seen = Slice.covered slices ++ tail
  reads : ∀ slice ∈ slices, ObjectText slice.text slice.value
  out : state.out = slices.map Slice.value
  chunk : ∀ chunk ∈ state.chunk, chunk.getLast? = some '{' ∧ chunk.reverse <:+ tail

theorem Sliced.start : Sliced [] [] [] (outside []) where
  seen := rfl
  reads := by simp
  out := rfl
  chunk := by simp [outside]

/-- A character that ends no chunk. -/
theorem Sliced.push {seen tail : Text} {slices : List Slice} {state state' : ExtractState}
    (h : Sliced seen slices tail state) (c : Char) (hout : state'.out = state.out)
    (hchunk : ∀ chunk ∈ state'.chunk, chunk = [c] ∧ c = '{' ∨
      ∃ begun ∈ state.chunk, chunk = c :: begun) :
    Sliced (seen ++ [c]) slices (tail ++ [c]) state' where
  seen := by rw [h.seen, List.append_assoc]
  reads := h.reads
  out := hout.trans h.out
  chunk := by
    intro chunk hmem
    rcases hchunk chunk hmem with ⟨rfl, rfl⟩ | ⟨begun, hbegun, rfl⟩
    · exact ⟨rfl, List.suffix_append tail _⟩
    · obtain ⟨hlast, hsuffix⟩ := h.chunk begun hbegun
      obtain ⟨front, rfl⟩ := hsuffix
      refine ⟨List.mem_getLast?_cons hlast, front, ?_⟩
      rw [List.reverse_cons, List.append_assoc]

/-- A chunk that is closed ends what is behind the slices. -/
theorem Sliced.close {seen tail chunk : Text} {slices : List Slice} {state : ExtractState}
    {state' : ExtractState} (h : Sliced seen slices tail state) (hchunk : state.chunk = some chunk)
    (hout : state'.out = state.out ++ (parseJson ('}' :: chunk).reverse).toList)
    (hnone : state'.chunk = none) :
    ∃ slices' tail', Sliced (seen ++ ['}']) slices' tail' state' := by
  obtain ⟨hlast, before, hbefore⟩ := h.chunk chunk hchunk
  cases hread : parseJson ('}' :: chunk).reverse with
  | none =>
    refine ⟨slices, tail ++ ['}'], ?_, h.reads, ?_, by simp [hnone]⟩
    · rw [h.seen, List.append_assoc]
    · rw [hout, hread, Option.toList_none, List.append_nil, h.out]
  | some v =>
    have htext : ObjectText ('}' :: chunk).reverse v := by
      refine ⟨hread, ?_, by simp⟩
      rw [List.head?_reverse]
      exact List.mem_getLast?_cons hlast
    refine ⟨slices ++ [⟨before, ('}' :: chunk).reverse, v⟩], [], ?_, ?_, ?_, by simp [hnone]⟩
    · rw [h.seen, Slice.covered_concat, ← hbefore]
      simp
    · intro slice hslice
      rcases List.mem_append.mp hslice with hslice | hslice
      · exact h.reads slice hslice
      · rw [List.mem_singleton.mp hslice]
        exact htext
    · rw [hout, hread, h.out, List.map_append]
      rfl

/-- A chunk that goes on, in whatever state. -/
theorem Sliced.goOn {seen tail : Text} {slices : List Slice} {state state' : ExtractState}
    (h : Sliced seen slices tail state) (c : Char) (hout : state'.out = state.out)
    (hchunk : state'.chunk = state.chunk.map fun chunk => c :: chunk) :
    Sliced (seen ++ [c]) slices (tail ++ [c]) state' := by
  refine h.push c hout fun chunk hmem => Or.inr ?_
  rw [hchunk] at hmem
  obtain ⟨begun, hbegun, rfl⟩ := Option.map_eq_some_iff.mp hmem
  exact ⟨begun, hbegun, rfl⟩

/-- One character keeps the slices, or closes one. -/
theorem Sliced.step {seen tail : Text} {slices : List Slice} {state : ExtractState}
    (h : Sliced seen slices tail state) (c : Char) :
    ∃ slices' tail', Sliced (seen ++ [c]) slices' tail' (extractStep state c) := by
  have hpush (state' : ExtractState) (hout : state'.out = state.out)
      (hchunk : state'.chunk = state.chunk.map fun chunk => c :: chunk) :
      ∃ slices' tail', Sliced (seen ++ [c]) slices' tail' state' :=
    ⟨slices, tail ++ [c], h.goOn c hout hchunk⟩
  unfold extractStep
  split_ifs with hstring hescaped hslash hquote hquote hopen hzero hclose hdepth
  · exact hpush _ rfl rfl
  · exact hpush _ rfl rfl
  · exact hpush _ rfl rfl
  · exact hpush _ rfl rfl
  · exact hpush _ rfl rfl
  · refine ⟨slices, tail ++ [c], h.push c rfl fun chunk hmem => Or.inl ?_⟩
    exact ⟨(Option.some.inj hmem).symm, hopen⟩
  · exact hpush _ rfl rfl
  · obtain ⟨rfl, -⟩ := hclose
    cases hchunk : state.chunk with
    | none => exact ⟨slices, tail ++ ['}'], h.goOn '}' (List.append_nil _) (by rw [hchunk]; rfl)⟩
    | some chunk => exact h.close hchunk rfl rfl
  · exact hpush _ rfl rfl
  · exact hpush _ rfl rfl

/-- **Slices.** The objects of any text are read from slices of it, one behind the other. -/
theorem exists_slices (raw : Text) : ∃ slices behind, raw = Slice.covered slices ++ behind ∧
    (∀ slice ∈ slices, ObjectText slice.text slice.value) ∧
      extractJsonObjects raw = slices.map Slice.value := by
  have hrun : ∃ slices tail, Sliced raw slices tail (raw.foldl extractStep (outside [])) := by
    induction raw using List.reverseRecOn with
    | nil => exact ⟨[], [], .start⟩
    | append_singleton raw c ih =>
      obtain ⟨slices, tail, h⟩ := ih
      rw [List.foldl_concat]
      exact h.step c
  obtain ⟨slices, tail, h⟩ := hrun
  exact ⟨slices, tail, h.seen, h.reads, h.out⟩

/-! ## Written objects -/

/-- An object as `JSON.stringify` writes it, with the text before it. -/
structure WrittenObject where
  before : Text
  /-- The indentation step. -/
  gap : Text
  members : List (JsString × Plain)

def WrittenObject.value (object : WrittenObject) : Plain := .obj object.members

def WrittenObject.text (object : WrittenObject) : Text :=
  object.before ++ jsonText object.gap object.value

/-- The text before the object has no quotation marks and braces, and the object is one of JSON:
its properties are in the order of its own keys and its numbers are finite. -/
structure WrittenObject.Valid (object : WrittenObject) : Prop where
  before : Unmarked object.before
  gap : Json.Blank object.gap
  ordered : OwnOrdered object.value
  numbers : JsonNumbers object.value

def WrittenObject.slice (object : WrittenObject) : Slice :=
  ⟨object.before, jsonText object.gap object.value, object.value⟩

theorem covered_slices (objects : List WrittenObject) :
    Slice.covered (objects.map WrittenObject.slice) = objects.flatMap WrittenObject.text :=
  List.flatMap_map _ _ _

theorem extractJsonObjects_written {objects : List WrittenObject} {behind : Text}
    (h : ∀ object ∈ objects, object.Valid) (hbehind : Unmarked behind) :
    extractJsonObjects (objects.flatMap WrittenObject.text ++ behind) =
      objects.map WrittenObject.value := by
  rw [← covered_slices, extractJsonObjects_covered ?_ hbehind, List.map_map]
  · rfl
  · rw [List.forall_mem_map]
    intro object hobject
    have hvalid := h object hobject
    exact ⟨hvalid.before, objectText_jsonText hvalid.gap hvalid.ordered hvalid.numbers⟩

/-- **Extraction.** From written objects with unmarked texts before, between and behind them
exactly these objects are extracted, in order. From any text whatever, each object is the parse of
a slice of the text, and each slice lies behind the one before. -/
theorem extracted_in_order {objects : List WrittenObject} {behind : Text}
    (h : ∀ object ∈ objects, object.Valid) (hbehind : Unmarked behind) :
    extractJsonObjects (objects.flatMap WrittenObject.text ++ behind) =
        objects.map WrittenObject.value ∧
      ∀ raw, ∃ slices rest, raw = Slice.covered slices ++ rest ∧
        (∀ slice ∈ slices, ObjectText slice.text slice.value) ∧
          extractJsonObjects raw = slices.map Slice.value :=
  ⟨extractJsonObjects_written h hbehind, exists_slices⟩

/-- An object with braces and a quotation mark in a string, after a word. -/
def bracedObject : WrittenObject where
  before := "noise ".toList
  gap := []
  members := [(js "a\x7d", .str (js "\"\x7b")), (js "b", .obj [(js "c", .null)])]

theorem valid_bracedObject : bracedObject.Valid where
  before := by
    intro c hc
    have hall : bracedObject.before.all (fun c => c != '"' && c != '{' && c != '}') = true := by
      decide
    simpa [and_assoc] using List.all_eq_true.mp hall c hc
  gap := by simp [bracedObject, Json.Blank]
  ordered := by
    simp only [WrittenObject.value, bracedObject, ownOrdered_obj, List.map_cons, List.map_nil,
      List.forall_mem_cons]
    exact ⟨⟨by decide, by decide⟩, trivial, ⟨⟨by decide, by decide⟩, trivial, by simp⟩, by simp⟩
  numbers := by
    simp only [WrittenObject.value, bracedObject, JsonNumbers, Json.allNumbers_obj,
      List.forall_mem_cons]
    exact ⟨trivial, ⟨trivial, by simp⟩, by simp⟩

theorem extracted_in_order_twice :
    extractJsonObjects ([bracedObject, bracedObject].flatMap WrittenObject.text ++ []) =
        [bracedObject.value, bracedObject.value] ∧
      ∀ raw, ∃ slices rest, raw = Slice.covered slices ++ rest ∧
        (∀ slice ∈ slices, ObjectText slice.text slice.value) ∧
          extractJsonObjects raw = slices.map Slice.value :=
  extracted_in_order (by simpa using valid_bracedObject) (by simp [Unmarked])

end MemphisOS.Chain
