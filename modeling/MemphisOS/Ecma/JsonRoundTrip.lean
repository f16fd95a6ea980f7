import MemphisOS.Ecma.Json

/-!
# Reading back what was written

A document whose numbers read back from their own texts is read back from its
serialisation, whatever the indentation. Writing is therefore injective on such
documents.
-/

namespace Ecma.Json

variable {ν : Type}

/-! ## White space and delimiters -/

/-- A text of white space only. -/
def Blank (t : Text) : Prop := ∀ c ∈ t, isSpace c = true

/-- A text that does not go on with a number. -/
def Delimited (t : Text) : Prop := ∀ c ∈ t.head?, isNumberChar c = false

/-- A character a value can start with. -/
def StartsValue (c : Char) : Prop := isSpace c = false ∧ c ≠ ']' ∧ c ≠ '}'

theorem isNumberChar_of_isSpace {c : Char} (h : isSpace c = true) : isNumberChar c = false := by
  simp only [isSpace, Bool.or_eq_true, beq_iff_eq] at h
  rcases h with ((rfl | rfl) | rfl) | rfl <;> decide

theorem StartsValue.of_isNumberChar {c : Char} (h : isNumberChar c = true) : StartsValue c := by
  refine ⟨?_, ?_, ?_⟩
  · by_contra hspace
    rw [Bool.not_eq_false] at hspace
    simp [isNumberChar_of_isSpace hspace] at h
  · rintro rfl
    exact absurd h (by decide)
  · rintro rfl
    exact absurd h (by decide)

@[simp] theorem skipSpace_blank_append {s : Text} (hs : Blank s) (t : Text) :
    skipSpace (s ++ t) = skipSpace t :=
  List.dropWhile_append_of_pos hs

theorem skipSpace_cons {c : Char} (hc : isSpace c = false) (t : Text) :
    skipSpace (c :: t) = c :: t := by
  simp [skipSpace, hc]

theorem delimited_cons {c : Char} (hc : isNumberChar c = false) (t : Text) :
    Delimited (c :: t) := by
  simpa [Delimited] using hc

theorem Blank.delimited_append {s t : Text} (hs : Blank s) (ht : Delimited t) :
    Delimited (s ++ t) := by
  cases s with
  | nil => exact ht
  | cons c s => exact delimited_cons (isNumberChar_of_isSpace (hs c (by simp))) _

theorem Blank.append {s t : Text} (hs : Blank s) (ht : Blank t) : Blank (s ++ t) := by
  intro c hc
  rcases List.mem_append.mp hc with hc | hc
  · exact hs c hc
  · exact ht c hc

theorem Blank.lineBreak (gap : Text) {indent : Text} (h : Blank indent) :
    Blank (lineBreak gap indent) := by
  unfold Json.lineBreak
  split
  · simp [Blank]
  · intro c hc
    rcases List.mem_cons.mp hc with rfl | hc
    · decide
    · exact h c hc

/-! ## Strings -/

private theorem hexValue_hexDigit {n : ℕ} (h : n < 16) : hexValue (hexDigit n) = some n := by
  have hall : ∀ n < 16, hexValue (hexDigit n) = some n := by decide
  exact hall n h

theorem unitOfHex_digits (u : UInt16) :
    unitOfHex (hexDigit (u.toNat / 4096)) (hexDigit (u.toNat / 256 % 16))
      (hexDigit (u.toNat / 16 % 16)) (hexDigit (u.toNat % 16)) = some u := by
  have hlt : u.toNat < 65536 := u.toNat_lt
  have hvalue : 4096 * (u.toNat / 4096) + 256 * (u.toNat / 256 % 16) +
      16 * (u.toNat / 16 % 16) + u.toNat % 16 = u.toNat := by omega
  simp only [unitOfHex, hexValue_hexDigit (by omega : u.toNat / 4096 < 16),
    hexValue_hexDigit (by omega : u.toNat / 256 % 16 < 16),
    hexValue_hexDigit (by omega : u.toNat / 16 % 16 < 16),
    hexValue_hexDigit (by omega : u.toNat % 16 < 16), Option.bind_eq_bind, Option.bind_some,
    hvalue, UInt16.ofNat_toNat]

/-- Prefix the string read next with some units. -/
def prepend (us : JsString) (r : Option (JsString × Text)) : Option (JsString × Text) :=
  r.map fun p => (us ++ p.1, p.2)

theorem readString_escape {c : Char} {u : UInt16} (hu : unescape c = some u) (t : Text) :
    readString ('\\' :: c :: t) = prepend [u] (readString t) := by
  have hne : c ≠ 'u' := by
    rintro rfl
    simp [unescape] at hu
  rw [readString.eq_def]
  split
  · simp_all
  · simp_all
  · simp_all
  · next c' t' _ heq =>
    obtain ⟨rfl, rfl⟩ : c = c' ∧ t = t' := by simpa using heq
    rw [hu]
    cases readString t <;> rfl
  · next c' t' _ _ hescape heq =>
    obtain ⟨rfl, rfl⟩ : '\\' = c' ∧ c :: t = t' := by simpa using heq
    exact absurd rfl (hescape c t rfl)

theorem readString_escapeUnit (u : UInt16) (t : Text) :
    readString (escapeUnit u ++ t) = prepend [u] (readString t) := by
  simp only [escapeUnit, List.cons_append, List.nil_append, readString, unitOfHex_digits]
  cases readString t <;> rfl

theorem readString_char {c : Char} (hquote : c ≠ '"') (hslash : c ≠ '\\') (hctrl : 0x20 ≤ c.toNat)
    (t : Text) : readString (c :: t) = prepend (unitsOfChar c) (readString t) := by
  rw [readString.eq_def]
  split
  · simp_all
  · simp_all
  · simp_all
  · simp_all
  · next c' t' _ _ _ heq =>
    obtain ⟨rfl, rfl⟩ : c = c' ∧ t = t' := by simpa using heq
    rw [if_neg (by simp [hslash, hctrl])]
    cases readString t <;> rfl

/-- A unit outside the surrogates, written as itself or escaped, is read back. -/
theorem readString_quoteUnit (u : UInt16) (t : Text) :
    readString (quoteUnit u ++ t) = prepend [u] (readString t) := by
  unfold quoteUnit
  split_ifs with h1 h2 h3 h4 h5 h6 h7 h8
  · exact readString_escape (by simp [unescape, h1]) t
  · exact readString_escape (by simp [unescape, h2]) t
  · exact readString_escape (by simp [unescape, h3]) t
  · exact readString_escape (by simp [unescape, h4]) t
  · exact readString_escape (by simp [unescape, h5]) t
  · exact readString_escape (by simp [unescape, h6]) t
  · exact readString_escape (by simp [unescape, h7]) t
  · exact readString_escapeUnit u t
  · simp only [Bool.or_eq_true, decide_eq_true_eq, not_or, Bool.not_eq_true, not_lt] at h8
    obtain ⟨⟨hctrl, hhi⟩, hlo⟩ := h8
    have hunits := unitsOfChar_charOfUnit hhi hlo
    have hcode : (charOfUnit u).toNat = u.toNat := by
      have hlt : u.toNat < 65536 := u.toNat_lt
      simp only [isHighSurrogate, isLowSurrogate, Bool.and_eq_false_iff,
        decide_eq_false_iff_not] at hhi hlo
      exact toNat_ofNat_char (by omega)
    have hquote : charOfUnit u ≠ '"' := by
      intro heq
      rw [heq] at hcode
      exact h1 (UInt16.toNat_inj.mp hcode.symm)
    have hslash : charOfUnit u ≠ '\\' := by
      intro heq
      rw [heq] at hcode
      exact h2 (UInt16.toNat_inj.mp hcode.symm)
    rw [List.singleton_append, readString_char hquote hslash (by omega), hunits]

/-- **Strings read back**, lone surrogates included. -/
theorem readString_quoteUnits (s : JsString) (t : Text) :
    readString (quoteUnits s ++ '"' :: t) = some (s, t) := by
  induction s using quoteUnits.induct with
  | case1 => simp [quoteUnits, readString]
  | case2 u => simp [quoteUnits, readString_quoteUnit, readString, prepend]
  | case3 u v rest hpair ih =>
    have hpair' := hpair
    rw [Bool.and_eq_true] at hpair'
    have hunits := unitsOfChar_charOfPair hpair'.1 hpair'.2
    have hcode : 0x10000 ≤ (charOfPair u v).toNat := by
      by_contra hlt
      rw [unitsOfChar, if_pos (by omega)] at hunits
      simp at hunits
    have hquote : charOfPair u v ≠ '"' := by
      intro heq
      rw [heq] at hcode
      exact absurd hcode (by decide)
    have hslash : charOfPair u v ≠ '\\' := by
      intro heq
      rw [heq] at hcode
      exact absurd hcode (by decide)
    rw [quoteUnits, if_pos hpair, List.cons_append,
      readString_char hquote hslash (by omega), hunits, ih]
    rfl
  | case4 u v rest hpair ih =>
    rw [quoteUnits, if_neg hpair, List.append_assoc, readString_quoteUnit, ih]
    rfl

/-! ## Values -/

/-- A number whose rendering is a literal for it. -/
def WritesBack (writeNumber : ν → Text) (readNumber : Text → Option ν) (n : ν) : Prop :=
  writeNumber n ≠ [] ∧ (∀ c ∈ writeNumber n, isNumberChar c = true) ∧
    readNumber (writeNumber n) = some n

variable {writeNumber : ν → Text} {readNumber : Text → Option ν}

/-- The first character of a serialised value is not one that closes a bracket. -/
theorem write_head {v : Json ν} (hv : v.AllNumbers (WritesBack writeNumber readNumber))
    (gap indent : Text) :
    ∃ c t, write writeNumber gap v indent = c :: t ∧ StartsValue c := by
  have hstart : ∀ c ∈ ['n', 't', 'f', '"', '[', '{'], StartsValue c := by
    simp only [List.forall_mem_cons, List.not_mem_nil, false_implies, implies_true, and_true,
      StartsValue]
    decide
  cases v with
  | null => exact ⟨'n', _, rfl, hstart 'n' (by simp)⟩
  | bool b =>
    cases b with
    | false => exact ⟨'f', _, rfl, hstart 'f' (by simp)⟩
    | true => exact ⟨'t', _, rfl, hstart 't' (by simp)⟩
  | num n =>
    obtain ⟨hne, hchars, -⟩ : WritesBack writeNumber readNumber n := hv
    cases htext : writeNumber n with
    | nil => exact absurd htext hne
    | cons c t => exact ⟨c, t, htext, .of_isNumberChar (hchars c (by simp [htext]))⟩
  | str s => exact ⟨'"', _, rfl, hstart '"' (by simp)⟩
  | arr vs =>
    rw [write_arr, bracket]
    split
    · exact ⟨'[', _, rfl, hstart '[' (by simp)⟩
    · exact ⟨'[', _, rfl, hstart '[' (by simp)⟩
  | obj ms =>
    rw [write_obj, bracket]
    split
    · exact ⟨'{', _, rfl, hstart '{' (by simp)⟩
    · exact ⟨'{', _, rfl, hstart '{' (by simp)⟩

/-- A number is read up to the first character that cannot belong to it. -/
theorem readValue_num {n : ν} (hn : WritesBack writeNumber readNumber n) {rest : Text}
    (hrest : Delimited rest) (fuel : ℕ) {s : Text} (hs : Blank s) :
    readValue readNumber (fuel + 1) (s ++ (writeNumber n ++ rest)) = some (.num n, rest) := by
  obtain ⟨hne, hchars, hread⟩ := hn
  have htake : (writeNumber n ++ rest).takeWhile isNumberChar = writeNumber n := by
    rw [List.takeWhile_append_of_pos hchars]
    cases rest with
    | nil => simp
    | cons c rest => simp [show isNumberChar c = false from hrest c (by simp)]
  have hdrop : (writeNumber n ++ rest).dropWhile isNumberChar = rest := by
    rw [List.dropWhile_append_of_pos hchars]
    cases rest with
    | nil => rfl
    | cons c rest => simp [show isNumberChar c = false from hrest c (by simp)]
  cases htext : writeNumber n with
  | nil => exact absurd htext hne
  | cons c t =>
    have hc : isNumberChar c = true := hchars c (by simp [htext])
    have hskip : skipSpace (s ++ (c :: t ++ rest)) = c :: t ++ rest := by
      rw [skipSpace_blank_append hs, List.cons_append,
        skipSpace_cons (StartsValue.of_isNumberChar hc).1]
    rw [htext] at htake hdrop hread
    rw [readValue, hskip]
    have hother : ∀ d ∈ ['"', '[', '{', 'n', 't', 'f'], c ≠ d := by
      have hall : ∀ d ∈ ['"', '[', '{', 'n', 't', 'f'], isNumberChar d = false := by
        simp only [List.forall_mem_cons, List.not_mem_nil, false_implies, implies_true, and_true]
        decide
      rintro d hd rfl
      simp [hall c hd] at hc
    split
    all_goals first
      | rw [htake, hdrop, hread]; rfl
      | next heq =>
        rw [List.cons_append, List.cons.injEq] at heq
        exact absurd heq.1 (hother _ (by simp))

/-- What is claimed of one value: in any blank context it is read back. -/
def ReadsBack (writeNumber : ν → Text) (readNumber : Text → Option ν) (gap : Text)
    (v : Json ν) : Prop :=
  ∀ indent s rest fuel, Blank indent → Blank s → Delimited rest → 2 * v.size ≤ fuel + 1 →
    readValue readNumber fuel (s ++ (write writeNumber gap v indent ++ rest)) = some (v, rest)

/-- The items of an array are read back up to the closing bracket. -/
theorem readItems_write {gap : Text} {vs : List (Json ν)}
    (hvs : ∀ v ∈ vs, ReadsBack writeNumber readNumber gap v) (hne : vs ≠ [])
    {indent br br' s : Text} (rest : Text) (fuel : ℕ) (hindent : Blank indent) (hbr : Blank br)
    (hbr' : Blank br') (hs : Blank s) (hfuel : 2 * (vs.map size).sum ≤ fuel) :
    readItems readNumber fuel (s ++ (joinWith (',' :: br)
      (vs.map fun v => write writeNumber gap v indent) ++ (br' ++ ']' :: rest))) =
        some (vs, rest) := by
  induction vs generalizing s fuel with
  | nil => exact absurd rfl hne
  | cons v vs ih =>
    have hsize : 0 < v.size := by cases v <;> simp [size, fold]
    simp only [List.map_cons, List.sum_cons] at hfuel
    obtain ⟨fuel, rfl⟩ : ∃ k, fuel = k + 1 := ⟨fuel - 1, by omega⟩
    cases vs with
    | nil =>
      have hv := hvs v (by simp) indent s (br' ++ ']' :: rest) fuel hindent hs
        (hbr'.delimited_append (delimited_cons (by decide) _)) (by omega)
      simp [readItems, joinWith, hv, hbr', skipSpace_cons (show isSpace ']' = false by decide)]
    | cons w vs =>
      have hv := hvs v (by simp) indent s
        (',' :: (br ++ (joinWith (',' :: br)
          ((w :: vs).map fun v => write writeNumber gap v indent) ++ (br' ++ ']' :: rest)))) fuel
        hindent hs (delimited_cons (by decide) _) (by omega)
      have hrest := ih (fun u hu => hvs u (by simp [hu])) (by simp) fuel hbr (by omega)
      simp only [List.map_cons] at hv hrest
      simp [readItems, joinWith, hv, hrest, skipSpace_cons (show isSpace ',' = false by decide)]

/-- The members of an object are read back up to the closing brace. -/
theorem readMembers_write {gap : Text} {ms : List (JsString × Json ν)}
    (hms : ∀ m ∈ ms, ReadsBack writeNumber readNumber gap m.2) (hne : ms ≠ [])
    {indent br br' s : Text} (rest : Text) (fuel : ℕ) (hindent : Blank indent) (hbr : Blank br)
    (hbr' : Blank br') (hs : Blank s) (hfuel : 2 * (ms.map fun m => m.2.size).sum ≤ fuel) :
    readMembers readNumber fuel (s ++ (joinWith (',' :: br)
      (ms.map fun m => quote m.1 ++ colon gap ++ write writeNumber gap m.2 indent) ++
        (br' ++ '}' :: rest))) = some (ms, rest) := by
  induction ms generalizing s fuel with
  | nil => exact absurd rfl hne
  | cons m ms ih =>
    obtain ⟨k, v⟩ := m
    have hsize : 0 < v.size := by cases v <;> simp [size, fold]
    simp only [List.map_cons, List.sum_cons] at hfuel
    obtain ⟨fuel, rfl⟩ : ∃ k, fuel = k + 1 := ⟨fuel - 1, by omega⟩
    obtain ⟨sp, hsp, hcolon⟩ : ∃ sp, Blank sp ∧ colon gap = ':' :: sp := by
      unfold colon
      split
      · exact ⟨[], by simp [Blank], rfl⟩
      · exact ⟨[' '], by simp [Blank, isSpace], rfl⟩
    have hkey (t : Text) : readString (quoteUnits k ++ '"' :: ':' :: t) = some (k, ':' :: t) :=
      readString_quoteUnits k _
    cases ms with
    | nil =>
      have hv := hms (k, v) (by simp) indent sp (br' ++ '}' :: rest) fuel hindent hsp
        (hbr'.delimited_append (delimited_cons (by decide) _)) (by simp only; omega)
      simp [readMembers, joinWith, quote, hcolon, hkey, hv, hs, hbr',
        skipSpace_cons (show isSpace '}' = false by decide),
        skipSpace_cons (show isSpace ':' = false by decide),
        skipSpace_cons (show isSpace '"' = false by decide)]
    | cons w ms =>
      have hrest := ih (fun u hu => hms u (by simp [hu])) (by simp) fuel hbr (by omega)
      obtain ⟨tail, htail⟩ : ∃ tail, tail = joinWith (',' :: br) ((w :: ms).map fun m =>
        quote m.1 ++ colon gap ++ write writeNumber gap m.2 indent) ++ (br' ++ '}' :: rest) :=
        ⟨_, rfl⟩
      have htext : joinWith (',' :: br) (((k, v) :: w :: ms).map fun m =>
          quote m.1 ++ colon gap ++ write writeNumber gap m.2 indent) ++ (br' ++ '}' :: rest) =
            '"' :: (quoteUnits k ++ '"' :: ':' ::
              (sp ++ (write writeNumber gap v indent ++ ',' :: (br ++ tail)))) := by
        simp [htail, joinWith, quote, hcolon]
      have hv := hms (k, v) (by simp) indent sp (',' :: (br ++ tail)) fuel hindent hsp
        (delimited_cons (by decide) _) (by simp only; omega)
      rw [← htail] at hrest
      rw [htext]
      simp [readMembers, hkey, hv, hs, hrest,
        skipSpace_cons (show isSpace ',' = false by decide),
        skipSpace_cons (show isSpace ':' = false by decide),
        skipSpace_cons (show isSpace '"' = false by decide)]

theorem joinWith_head (separator : Text) (ts : List Text) {t : Text} {c : Char} {u : Text}
    (ht : t = c :: u) : ∃ v, joinWith separator (t :: ts) = c :: v := by
  cases ts with
  | nil => exact ⟨u, by simp [joinWith, ht]⟩
  | cons w ts => exact ⟨u ++ separator ++ joinWith separator (w :: ts), by simp [joinWith, ht]⟩

/-- Every value whose numbers read back is read back in any blank context. -/
theorem readsBack_of_allNumbers {gap : Text} (hgap : Blank gap) {v : Json ν}
    (hv : v.AllNumbers (WritesBack writeNumber readNumber)) :
    ReadsBack writeNumber readNumber gap v := by
  induction v using induct with
  | null =>
    intro indent s rest fuel _ hs _ hfuel
    obtain ⟨fuel, rfl⟩ : ∃ k, fuel = k + 1 := ⟨fuel - 1, by simp [size, fold] at hfuel; omega⟩
    simp [readValue, write, fold, hs, skipSpace_cons (show isSpace 'n' = false by decide)]
  | bool b =>
    intro indent s rest fuel _ hs _ hfuel
    obtain ⟨fuel, rfl⟩ : ∃ k, fuel = k + 1 := ⟨fuel - 1, by simp [size, fold] at hfuel; omega⟩
    cases b with
    | false =>
      simp [readValue, write, fold, hs, skipSpace_cons (show isSpace 'f' = false by decide)]
    | true =>
      simp [readValue, write, fold, hs, skipSpace_cons (show isSpace 't' = false by decide)]
  | num n =>
    intro indent s rest fuel _ hs hrest hfuel
    obtain ⟨fuel, rfl⟩ : ∃ k, fuel = k + 1 := ⟨fuel - 1, by simp [size, fold] at hfuel; omega⟩
    exact readValue_num hv hrest fuel hs
  | str x =>
    intro indent s rest fuel _ hs _ hfuel
    obtain ⟨fuel, rfl⟩ : ∃ k, fuel = k + 1 := ⟨fuel - 1, by simp [size, fold] at hfuel; omega⟩
    simp [readValue, write, fold, quote, hs, readString_quoteUnits,
      skipSpace_cons (show isSpace '"' = false by decide)]
  | arr vs ih =>
    intro indent s rest fuel hindent hs _ hfuel
    rw [allNumbers_arr] at hv
    rw [size_arr] at hfuel
    obtain ⟨fuel, rfl⟩ : ∃ k, fuel = k + 1 := ⟨fuel - 1, by omega⟩
    cases vs with
    | nil =>
      simp [bracket, readValue, hs, skipSpace_cons (show isSpace '[' = false by decide),
        skipSpace_cons (show isSpace ']' = false by decide)]
    | cons v vs =>
      have hindent' : Blank (indent ++ gap) := hindent.append hgap
      obtain ⟨c, u, hc, hstart⟩ := write_head (hv v (by simp)) gap (indent ++ gap)
      obtain ⟨u, hu⟩ := joinWith_head (',' :: lineBreak gap (indent ++ gap))
        (vs.map fun v => write writeNumber gap v (indent ++ gap)) hc
      have hitems := readItems_write (fun w hw => ih w hw (hv w hw)) (by simp) rest fuel
        hindent' (hindent'.lineBreak gap) (hindent.lineBreak gap) (s := []) (by simp [Blank]) (by omega)
      rw [List.nil_append, List.map_cons, hu] at hitems
      have htext : s ++ (write writeNumber gap (.arr (v :: vs)) indent ++ rest) =
          s ++ '[' :: (lineBreak gap (indent ++ gap) ++
            (c :: u ++ (lineBreak gap indent ++ ']' :: rest))) := by
        simp [bracket, hu]
      rw [htext, readValue, skipSpace_blank_append hs, skipSpace_cons (by decide)]
      simp only [skipSpace_blank_append (hindent'.lineBreak gap), List.cons_append,
        skipSpace_cons hstart.1]
      split
      · next heq => exact absurd (List.cons.inj heq).1 hstart.2.1
      · rw [← List.cons_append, hitems]
        rfl
  | obj ms ih =>
    intro indent s rest fuel hindent hs _ hfuel
    rw [allNumbers_obj] at hv
    rw [size_obj] at hfuel
    obtain ⟨fuel, rfl⟩ : ∃ k, fuel = k + 1 := ⟨fuel - 1, by omega⟩
    cases ms with
    | nil =>
      simp [bracket, readValue, hs, skipSpace_cons (show isSpace '{' = false by decide),
        skipSpace_cons (show isSpace '}' = false by decide)]
    | cons m ms =>
      have hindent' : Blank (indent ++ gap) := hindent.append hgap
      obtain ⟨u, hu⟩ := joinWith_head (',' :: lineBreak gap (indent ++ gap))
        (ms.map fun m => quote m.1 ++ colon gap ++ write writeNumber gap m.2 (indent ++ gap))
        (show quote m.1 ++ colon gap ++ write writeNumber gap m.2 (indent ++ gap) = '"' ::
          (quoteUnits m.1 ++ '"' :: (colon gap ++ write writeNumber gap m.2 (indent ++ gap))) by
          simp [quote])
      have hmembers := readMembers_write (fun w hw => ih w hw (hv w hw)) (by simp) rest fuel
        hindent' (hindent'.lineBreak gap) (hindent.lineBreak gap) (s := []) (by simp [Blank]) (by omega)
      rw [List.nil_append, List.map_cons, hu] at hmembers
      have htext : s ++ (write writeNumber gap (.obj (m :: ms)) indent ++ rest) =
          s ++ '{' :: (lineBreak gap (indent ++ gap) ++
            ('"' :: u ++ (lineBreak gap indent ++ '}' :: rest))) := by
        simp only [write_obj, bracket, List.map_cons, hu]
        simp
      rw [htext, readValue, skipSpace_blank_append hs, skipSpace_cons (by decide)]
      simp only [skipSpace_blank_append (hindent'.lineBreak gap), List.cons_append,
        skipSpace_cons (show isSpace '"' = false by decide)]
      split
      · next heq => exact absurd (List.cons.inj heq).1 (by decide)
      · rw [← List.cons_append, hmembers]
        rfl

/-! ## Documents -/

theorem sum_length_le_joinWith (separator : Text) (ts : List Text) :
    (ts.map List.length).sum ≤ (joinWith separator ts).length := by
  induction ts with
  | nil => simp
  | cons t ts ih =>
    cases ts with
    | nil => simp [joinWith]
    | cons u ts =>
      simp only [List.map_cons, List.sum_cons, joinWith, List.length_append] at ih ⊢
      omega

theorem length_bracket (gap indent : Text) (opening closing : Char) (parts : List Text) :
    (parts.map List.length).sum + 2 ≤ (bracket gap indent opening closing parts).length := by
  unfold bracket
  split_ifs with hnil
  · simp [hnil]
  · have hjoin := sum_length_le_joinWith (',' :: lineBreak gap (indent ++ gap)) parts
    simp only [List.length_append, List.length_cons, List.length_nil]
    omega

/-- A document has no more nodes than its serialisation has characters. -/
theorem size_le_length (gap : Text) {v : Json ν}
    (hv : v.AllNumbers (WritesBack writeNumber readNumber)) (indent : Text) :
    v.size ≤ (write writeNumber gap v indent).length := by
  induction v using induct generalizing indent with
  | null => simp [size, write, fold]
  | bool b => cases b <;> simp [size, write, fold]
  | num n =>
    obtain ⟨hne, -⟩ : WritesBack writeNumber readNumber n := hv
    exact List.length_pos_of_ne_nil hne
  | str s => simp [size, write, fold, quote]
  | arr vs ih =>
    rw [allNumbers_arr] at hv
    have hlength := length_bracket gap indent '[' ']'
      (vs.map fun v => write writeNumber gap v (indent ++ gap))
    have hsum : (vs.map size).sum ≤
        ((vs.map fun v => write writeNumber gap v (indent ++ gap)).map List.length).sum := by
      rw [List.map_map]
      exact List.sum_le_sum fun v hvs => ih v hvs (hv v hvs) _
    rw [size_arr, write_arr]
    omega
  | obj ms ih =>
    rw [allNumbers_obj] at hv
    have hlength := length_bracket gap indent '{' '}'
      (ms.map fun m => quote m.1 ++ colon gap ++ write writeNumber gap m.2 (indent ++ gap))
    have hsum : (ms.map fun m => m.2.size).sum ≤ ((ms.map fun m =>
        quote m.1 ++ colon gap ++ write writeNumber gap m.2 (indent ++ gap)).map
          List.length).sum := by
      rw [List.map_map]
      refine List.sum_le_sum fun m hms => ?_
      have hm := ih m hms (hv m hms) (indent ++ gap)
      simp only [Function.comp_apply, List.length_append]
      omega
    rw [size_obj, write_obj]
    omega

/-- **Documents read back.** -/
theorem parse_write {gap : Text} (hgap : Blank gap) {v : Json ν}
    (hv : v.AllNumbers (WritesBack writeNumber readNumber)) :
    parse readNumber (write writeNumber gap v []) = some v := by
  have hread := readsBack_of_allNumbers hgap hv [] [] []
    (2 * (write writeNumber gap v []).length + 1) (by simp [Blank]) (by simp [Blank])
    (by simp [Delimited]) (by have := size_le_length gap hv []; omega)
  rw [List.nil_append, List.append_nil] at hread
  rw [parse, hread, Option.bind_eq_bind, Option.bind_some]
  exact if_pos rfl

/-- Different documents have different serialisations. -/
theorem write_injective {gap : Text} (hgap : Blank gap) {v w : Json ν}
    (hv : v.AllNumbers (WritesBack writeNumber readNumber))
    (hw : w.AllNumbers (WritesBack writeNumber readNumber))
    (h : write writeNumber gap v [] = write writeNumber gap w []) : v = w := by
  have hread := parse_write hgap hv
  rw [h, parse_write hgap hw] at hread
  exact (Option.some.inj hread).symm

end Ecma.Json
