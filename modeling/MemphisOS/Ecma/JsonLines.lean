import MemphisOS.Ecma.Value

/-!
# Files of JSON lines

A file to which documents are appended, each on a line of its own. A document written without
indentation has no control characters, so that its line can be told from the others.
-/

namespace Ecma

namespace Json

variable {ν : Type} {writeNumber : ν → Text} {readNumber : Text → Option ν}

/-- No control character is among the characters. -/
def Printable (t : Text) : Prop := ∀ c ∈ t, 0x20 ≤ c.toNat

theorem printable_of_all {t : Text} (h : t.all (fun c => 0x20 ≤ c.toNat) = true) :
    Printable t := by
  intro c hc
  exact of_decide_eq_true (List.all_eq_true.mp h c hc)

theorem Printable.append {s t : Text} (hs : Printable s) (ht : Printable t) :
    Printable (s ++ t) := by
  intro c hc
  rcases List.mem_append.mp hc with h | h
  · exact hs c h
  · exact ht c h

theorem Printable.cons {c : Char} {t : Text} (hc : 0x20 ≤ c.toNat) (ht : Printable t) :
    Printable (c :: t) := by
  intro d hd
  rcases List.mem_cons.mp hd with rfl | hd
  · exact hc
  · exact ht d hd

theorem printable_of_isNumberChar {c : Char} (h : isNumberChar c = true) : 0x20 ≤ c.toNat := by
  simp only [isNumberChar, Bool.or_eq_true, beq_iff_eq] at h
  rcases h with ((((h | rfl) | rfl) | rfl) | rfl) | rfl
  · rw [Char.isDigit, Bool.and_eq_true, decide_eq_true_eq] at h
    have hle : 48 ≤ c.toNat := UInt32.le_iff_toNat_le.mp h.1
    omega
  all_goals decide

theorem printable_hexDigit {n : ℕ} (h : n < 16) : 0x20 ≤ (hexDigit n).toNat := by
  have hall : ∀ n < 16, 0x20 ≤ (hexDigit n).toNat := by decide
  exact hall n h

theorem printable_escapeUnit (u : UInt16) : Printable (escapeUnit u) := by
  have hlt : u.toNat < 65536 := u.toNat_lt
  refine .cons (by decide) (.cons (by decide) (.cons (printable_hexDigit ?_)
    (.cons (printable_hexDigit ?_) (.cons (printable_hexDigit ?_)
      (.cons (printable_hexDigit ?_) (fun c hc => by cases hc))))))
  all_goals omega

theorem printable_quoteUnit (u : UInt16) : Printable (quoteUnit u) := by
  unfold quoteUnit
  split_ifs with h1 h2 h3 h4 h5 h6 h7 h8
  · exact printable_of_all rfl
  · exact printable_of_all rfl
  · exact printable_of_all rfl
  · exact printable_of_all rfl
  · exact printable_of_all rfl
  · exact printable_of_all rfl
  · exact printable_of_all rfl
  · exact printable_escapeUnit u
  · -- A unit that is written as it is is no surrogate, so that it is its own character.
    simp only [Bool.or_eq_true, decide_eq_true_eq, not_or, Bool.not_eq_true, not_lt] at h8
    obtain ⟨⟨hctrl, hhi⟩, hlo⟩ := h8
    have hlt : u.toNat < 65536 := u.toNat_lt
    simp only [isHighSurrogate, isLowSurrogate, Bool.and_eq_false_iff,
      decide_eq_false_iff_not] at hhi hlo
    have hcode : (charOfUnit u).toNat = u.toNat := toNat_ofNat_char (by omega)
    exact .cons (by omega) fun c hc => by cases hc

theorem printable_quoteUnits (s : JsString) : Printable (quoteUnits s) := by
  induction s using quoteUnits.induct with
  | case1 => exact fun c hc => by cases hc
  | case2 u => exact printable_quoteUnit u
  | case3 u v rest hpair ih =>
    rw [quoteUnits, if_pos hpair]
    rw [Bool.and_eq_true] at hpair
    have hunits := unitsOfChar_charOfPair hpair.1 hpair.2
    refine .cons ?_ ih
    by_contra hlt
    rw [unitsOfChar, if_pos (by omega)] at hunits
    simp at hunits
  | case4 u v rest hpair ih =>
    rw [quoteUnits, if_neg hpair]
    exact (printable_quoteUnit u).append ih

theorem printable_quote (s : JsString) : Printable (quote s) :=
  .cons (by decide) ((printable_quoteUnits s).append (.cons (by decide) fun c hc => by cases hc))

theorem printable_joinWith {separator : Text} (hseparator : Printable separator) {ts : List Text}
    (h : ∀ t ∈ ts, Printable t) : Printable (joinWith separator ts) := by
  induction ts using joinWith.induct with
  | case1 => exact fun c hc => by cases hc
  | case2 t => exact h t List.mem_cons_self
  | case3 t u rest ih =>
    rw [joinWith]
    exact ((h t List.mem_cons_self).append hseparator).append
      (ih fun s hs => h s (List.mem_cons_of_mem _ hs))

theorem printable_bracket {opening closing : Char} (hopening : 0x20 ≤ opening.toNat)
    (hclosing : 0x20 ≤ closing.toNat) {parts : List Text} (h : ∀ t ∈ parts, Printable t)
    (indent : Text) : Printable (bracket [] indent opening closing parts) := by
  have hnil : Printable [] := fun c hc => by cases hc
  have hclose : Printable [closing] := .cons hclosing hnil
  unfold bracket
  split
  · exact .cons hopening hclose
  · exact .cons hopening ((((show Printable (lineBreak [] _) from hnil).append
      (printable_joinWith (.cons (by decide) hnil) h)).append hnil).append hclose)

/-- A document is written without control characters. -/
theorem printable_write {v : Json ν} (hv : v.AllNumbers (WritesBack writeNumber readNumber))
    (indent : Text) : Printable (v.write writeNumber [] indent) := by
  induction v using Json.induct generalizing indent with
  | null => exact printable_of_all rfl
  | bool b =>
    cases b with
    | false => exact printable_of_all rfl
    | true => exact printable_of_all rfl
  | num n =>
    obtain ⟨-, hchars, -⟩ : WritesBack writeNumber readNumber n := hv
    exact fun c hc => printable_of_isNumberChar (hchars c hc)
  | str s => exact printable_quote s
  | arr vs ih =>
    rw [write_arr]
    refine printable_bracket (by decide) (by decide) ?_ indent
    intro t ht
    obtain ⟨v, hmem, rfl⟩ := List.mem_map.mp ht
    exact ih v hmem (allNumbers_arr.mp hv v hmem) _
  | obj ms ih =>
    rw [write_obj]
    refine printable_bracket (by decide) (by decide) ?_ indent
    intro t ht
    obtain ⟨m, hmem, rfl⟩ := List.mem_map.mp ht
    exact ((printable_quote m.1).append (.cons (by decide) fun c hc => by cases hc)).append
      (ih m hmem (allNumbers_obj.mp hv m hmem) _)

end Json

/-! ## Lines -/

/-- The documents on the lines of a file that are not blank; `none` when one cannot be read. -/
def readJsonLines (t : Text) : Option (List Plain) :=
  (((t.splitOn '\n').map trim).filter (· ≠ [])).mapM parseJson

/-- The line of a document. -/
def jsonLine (v : Plain) : Text := v.write numberText [] [] ++ ['\n']

/-- The first and the last character of an object. -/
theorem exists_write_obj (ms : List (JsString × Plain)) :
    ∃ t, (Json.obj ms).write numberText [] [] = '{' :: t ++ ['}'] := by
  rw [Json.write_obj, Json.bracket]
  split
  · exact ⟨[], rfl⟩
  · exact ⟨_, rfl⟩

theorem trim_write_obj (ms : List (JsString × Plain)) :
    trim ((Json.obj ms).write numberText [] []) = (Json.obj ms).write numberText [] [] := by
  obtain ⟨t, ht⟩ := exists_write_obj ms
  rw [ht, trim, List.cons_append, List.dropWhile_cons_of_neg (by decide), List.reverse_cons,
    List.reverse_append, List.reverse_singleton, List.append_assoc, List.singleton_append,
    List.dropWhile_cons_of_neg (by decide)]
  simp

theorem splitOn_jsonLines {vs : List (List (JsString × Plain))}
    (h : ∀ ms ∈ vs, JsonNumbers (.obj ms)) :
    (vs.flatMap fun ms => jsonLine (.obj ms)).splitOn '\n' =
      (vs.map fun ms => (Json.obj ms).write numberText [] []) ++ [[]] := by
  induction vs with
  | nil => rfl
  | cons ms vs ih =>
    have hnot : '\n' ∉ (Json.obj ms).write numberText [] [] := fun hmem =>
      absurd (Json.printable_write
        (writesBack_of_jsonNumbers (h ms List.mem_cons_self)) [] _ hmem) (by decide)
    rw [List.flatMap_cons, jsonLine, List.append_assoc, List.singleton_append,
      List.splitOn_append_cons_self_of_not_mem hnot,
      ih fun ms' hms' => h ms' (List.mem_cons_of_mem _ hms')]
    rfl

/-- **Appended lines.** A file of object lines reads as the objects. -/
theorem readJsonLines_flatMap {vs : List (List (JsString × Plain))}
    (h : ∀ ms ∈ vs, JsonNumbers (.obj ms)) :
    readJsonLines (vs.flatMap fun ms => jsonLine (.obj ms)) =
      some (vs.map fun ms => own (.obj ms)) := by
  have hkept : ((((vs.map fun ms => (Json.obj ms).write numberText [] []) ++ [[]]).map trim).filter
      (· ≠ [])) = vs.map fun ms => (Json.obj ms).write numberText [] [] := by
    rw [List.map_append, List.filter_append, List.map_map]
    have hblank : ([([] : Text)].map trim).filter (· ≠ []) = [] := rfl
    have htrim : (trim ∘ fun ms : List (JsString × Plain) =>
        (Json.obj ms).write numberText [] []) = fun ms => (Json.obj ms).write numberText [] [] :=
      funext trim_write_obj
    rw [hblank, htrim, List.append_nil, List.filter_eq_self]
    intro t ht
    obtain ⟨ms, -, rfl⟩ := List.mem_map.mp ht
    obtain ⟨u, hu⟩ := exists_write_obj ms
    rw [hu]
    rfl
  rw [readJsonLines, splitOn_jsonLines h, hkept]
  clear hkept
  induction vs with
  | nil => rfl
  | cons ms vs ih =>
    rw [List.map_cons, List.mapM_cons,
      parseJson_write (by simp [Json.Blank]) (h ms List.mem_cons_self),
      ih fun ms' hms' => h ms' (List.mem_cons_of_mem _ hms')]
    rfl

end Ecma
