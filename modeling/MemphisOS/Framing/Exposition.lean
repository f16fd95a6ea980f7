import MemphisOS.Ecma.Strings

/-!
# Samples in text

A format of lines for samples of counters and gauges: a name, labels with quoted values, and a
value. Other lines are comments. What is written is read back.
-/

namespace Exposition

open Ecma

structure Sample where
  name : JsString
  labels : List (JsString × JsString)
  value : JsString
  deriving DecidableEq

inductive Line where
  | comment (text : JsString)
  | sample (sample : Sample)

/-! ## Writing -/

/-- A backslash goes before every backslash and every quote. -/
def escape (value : JsString) : JsString :=
  value.flatMap fun u => if u = 0x5C then [0x5C, 0x5C] else if u = 0x22 then [0x5C, 0x22] else [u]

def labelText (label : JsString × JsString) : JsString :=
  label.1 ++ 0x3D :: 0x22 :: (escape label.2 ++ [0x22])

/-- The labels with their braces. -/
def labelsText (labels : List (JsString × JsString)) : JsString :=
  0x7B :: ([0x2C].intercalate (labels.map labelText) ++ [0x7D])

def Sample.text (sample : Sample) : JsString :=
  sample.name ++ (if sample.labels = [] then [] else labelsText sample.labels) ++
    0x20 :: sample.value

def Line.text : Line → JsString
  | .comment text => text
  | .sample s => s.text

/-- The lines, each with a line break at its end. -/
def document (lines : List Line) : JsString := [0x0A].intercalate (lines.map Line.text) ++ [0x0A]

/-! ## Reading -/

/-- The value up to the quote that ends it, and what follows. A unit after a backslash stands for
itself. -/
def readValue : Bool → JsString → Option (JsString × JsString)
  | _, [] => none
  | true, u :: rest => (readValue false rest).map fun r => (u :: r.1, r.2)
  | false, u :: rest =>
    if u = 0x22 then some ([], rest)
    else if u = 0x5C then readValue true rest
    else (readValue false rest).map fun r => (u :: r.1, r.2)

/-- What follows a unit. -/
def expect (u : UInt16) : JsString → Option JsString
  | [] => none
  | v :: rest => if v = u then some rest else none

/-- The labels up to the closing brace, of which there are not more than a number. -/
def readLabels : ℕ → JsString → Option (List (JsString × JsString) × JsString)
  | 0, _ => none
  | n + 1, s => do
    let rest ← expect 0x3D (s.dropWhile (· ≠ 0x3D))
    let rest ← expect 0x22 rest
    let (value, rest) ← readValue false rest
    let label := (s.takeWhile (· ≠ 0x3D), value)
    match expect 0x2C rest with
    | some rest => (readLabels n rest).map fun r => (label :: r.1, r.2)
    | none => (expect 0x7D rest).map fun rest => ([label], rest)

/-- The name of a sample ends before its labels or its value. -/
def endsName (u : UInt16) : Bool := u = 0x7B || u = 0x20

def readSample (line : JsString) : Option Sample := do
  let name := line.takeWhile fun u => !endsName u
  let rest := line.dropWhile fun u => !endsName u
  match expect 0x20 rest with
  | some value => return ⟨name, [], value⟩
  | none =>
    let rest ← expect 0x7B rest
    let (labels, rest) ← readLabels rest.length rest
    let value ← expect 0x20 rest
    return ⟨name, labels, value⟩

/-- The samples of a document; comments and empty lines are skipped. -/
def readSamples (text : JsString) : Option (List Sample) :=
  ((text.splitOn 0x0A).filter fun line => line ≠ [] ∧ line.head? ≠ some 0x23).mapM readSample

/-! ## Round trips -/

/-- Names of samples and labels that leave what follows them alone, and no line breaks. -/
structure Sample.Writable (sample : Sample) : Prop where
  name : sample.name ≠ [] ∧ sample.name.head? ≠ some 0x23 ∧ ∀ u ∈ sample.name, endsName u = false
  labels : ∀ label ∈ sample.labels, 0x3D ∉ label.1
  lineBreak : 0x0A ∉ sample.name ∧ 0x0A ∉ sample.value ∧
    ∀ label ∈ sample.labels, 0x0A ∉ label.1 ∧ 0x0A ∉ label.2

def Line.Writable : Line → Prop
  | .comment text => text.head? = some 0x23 ∧ 0x0A ∉ text
  | .sample s => s.Writable

def Line.sample? : Line → Option Sample
  | .comment _ => none
  | .sample s => some s

variable {s t rest : JsString} {label : JsString × JsString}
  {labels : List (JsString × JsString)} {sample : Sample} {lines : List Line}

theorem escape_cons (u : UInt16) (s : JsString) : escape (u :: s) =
    (if u = 0x5C then [0x5C, 0x5C] else if u = 0x22 then [0x5C, 0x22] else [u]) ++ escape s :=
  rfl

theorem readValue_escape (s rest : JsString) :
    readValue false (escape s ++ 0x22 :: rest) = some (s, rest) := by
  induction s with
  | nil => rfl
  | cons u s ih =>
    rw [escape_cons]
    by_cases hback : u = 0x5C
    · rw [if_pos hback, hback]
      change (readValue false (escape s ++ 0x22 :: rest)).map _ = _
      rw [ih]
      rfl
    · rw [if_neg hback]
      by_cases hquote : u = 0x22
      · rw [if_pos hquote, hquote]
        change (readValue false (escape s ++ 0x22 :: rest)).map _ = _
        rw [ih]
        rfl
      · rw [if_neg hquote, List.singleton_append, List.cons_append, readValue, if_neg hquote,
          if_neg hback, ih]
        rfl

/-- A name is what stands before the first character that ends it. -/
theorem split_name {p : UInt16 → Bool} {name : JsString} (hname : ∀ u ∈ name, p u = true)
    {v : UInt16} (hv : p v = false) (rest : JsString) :
    (name ++ v :: rest).takeWhile p = name ∧ (name ++ v :: rest).dropWhile p = v :: rest := by
  rw [List.takeWhile_append_of_pos hname, List.dropWhile_append_of_pos hname,
    List.takeWhile_cons_of_neg (by rw [hv]; decide),
    List.dropWhile_cons_of_neg (by rw [hv]; decide), List.append_nil]
  exact ⟨rfl, rfl⟩

@[simp] theorem expect_self (u : UInt16) (rest : JsString) : expect u (u :: rest) = some rest :=
  if_pos rfl

/-- The labels of a list that has some, and then the closing brace. -/
theorem readLabels_text (hne : labels ≠ []) (hlabels : ∀ label ∈ labels, 0x3D ∉ label.1)
    {n : ℕ} (hn : labels.length ≤ n) (rest : JsString) :
    readLabels n ([0x2C].intercalate (labels.map labelText) ++ 0x7D :: rest) =
      some (labels, rest) := by
  induction labels generalizing n with
  | nil => exact absurd rfl hne
  | cons label labels ih =>
    obtain ⟨n, rfl⟩ : ∃ m, n = m + 1 := ⟨n - 1, by simp at hn; omega⟩
    have hname : ∀ u ∈ label.1, decide (u ≠ 0x3D) = true := fun u hu =>
      decide_eq_true fun heq => hlabels label List.mem_cons_self (heq ▸ hu)
    cases labels with
    | nil =>
      obtain ⟨htake, hdrop⟩ := split_name hname (v := 0x3D) (by decide)
        (0x22 :: (escape label.2 ++ 0x22 :: 0x7D :: rest))
      have hbrace : expect 0x2C (0x7D :: rest) = none := rfl
      rw [List.map_singleton, List.intercalate_singleton, labelText, readLabels]
      simp only [List.append_assoc, List.cons_append, List.nil_append, htake, hdrop, expect_self,
        readValue_escape, hbrace, Option.bind_eq_bind, Option.bind_some, Option.map_some]
    | cons next labels =>
      have hrest := ih (List.cons_ne_nil _ _)
        (fun label hmem => hlabels label (List.mem_cons_of_mem _ hmem)) (Nat.le_of_succ_le_succ hn)
      obtain ⟨htake, hdrop⟩ := split_name hname (v := 0x3D) (by decide)
        (0x22 :: (escape label.2 ++ 0x22 :: 0x2C ::
          ([0x2C].intercalate ((next :: labels).map labelText) ++ 0x7D :: rest)))
      rw [List.map_cons, List.intercalate_cons_of_ne_nil (by simp), labelText, readLabels]
      simp only [List.append_assoc, List.cons_append, List.nil_append, htake, hdrop, expect_self,
        readValue_escape, Option.bind_eq_bind, Option.bind_some, hrest, Option.map_some]

theorem length_le_intercalate (labels : List (JsString × JsString)) :
    labels.length ≤ ([0x2C].intercalate (labels.map labelText) : JsString).length := by
  induction labels with
  | nil => exact Nat.zero_le _
  | cons label labels ih =>
    have hlabel : 1 ≤ (labelText label).length := by
      rw [labelText, List.length_append, List.length_cons]
      omega
    cases labels with
    | nil => rwa [List.map_singleton, List.intercalate_singleton]
    | cons next labels =>
      rw [List.map_cons, List.intercalate_cons_of_ne_nil (by simp), List.length_append,
        List.length_append, List.length_cons]
      omega

/-- A sample is read back from its line. -/
theorem readSample_text (h : sample.Writable) : readSample sample.text = some sample := by
  obtain ⟨name, labels, value⟩ := sample
  have hname : ∀ u ∈ name, !endsName u := fun u hu => by rw [h.name.2.2 u hu]; rfl
  by_cases hlabels : labels = []
  · subst hlabels
    obtain ⟨htake, hdrop⟩ := split_name hname (v := 0x20) (by decide) value
    rw [Sample.text, if_pos rfl, List.append_nil, readSample, htake, hdrop, expect_self]
    rfl
  · obtain ⟨htake, hdrop⟩ := split_name hname (v := 0x7B) (by decide)
      ([0x2C].intercalate (labels.map labelText) ++ 0x7D :: 0x20 :: value)
    have htext : Sample.text ⟨name, labels, value⟩ =
        name ++ 0x7B :: ([0x2C].intercalate (labels.map labelText) ++ 0x7D :: 0x20 :: value) := by
      rw [Sample.text, if_neg hlabels, labelsText]
      simp only [List.append_assoc, List.cons_append, List.nil_append]
    have hlength : labels.length ≤
        ([0x2C].intercalate (labels.map labelText) ++ 0x7D :: 0x20 :: value).length := by
      rw [List.length_append]
      exact Nat.le_trans (length_le_intercalate labels) (Nat.le_add_right _ _)
    have hbrace : ∀ rest, expect 0x20 (0x7B :: rest) = none := fun _ => rfl
    rw [htext, readSample, htake, hdrop, hbrace]
    simp only [expect_self, Option.bind_eq_bind, Option.bind_some,
      readLabels_text hlabels h.labels hlength]
    rfl

/-! ## Documents -/

theorem mem_escape {u : UInt16} (h : u ∈ escape s) : u ∈ s ∨ u = 0x5C := by
  obtain ⟨v, hv, hu⟩ := List.mem_flatMap.mp h
  split at hu
  · exact .inr (by simpa using hu)
  · split at hu
    · next hquote =>
      rcases List.mem_cons.mp hu with rfl | hu
      · exact .inr rfl
      · exact .inl (List.mem_singleton.mp hu ▸ hquote ▸ hv)
    · exact .inl (List.mem_singleton.mp hu ▸ hv)

theorem lineBreak_not_mem_labelText (h : 0x0A ∉ label.1 ∧ 0x0A ∉ label.2) :
    0x0A ∉ labelText label := by
  intro hmem
  simp only [labelText, List.mem_append, List.mem_cons, List.not_mem_nil, or_false] at hmem
  rcases hmem with hmem | hmem | hmem | hmem | hmem
  · exact h.1 hmem
  · exact absurd hmem (by decide)
  · exact absurd hmem (by decide)
  · rcases mem_escape hmem with hmem | hmem
    · exact h.2 hmem
    · exact absurd hmem (by decide)
  · exact absurd hmem (by decide)

theorem mem_of_mem_intercalate {sep : UInt16} {parts : List JsString} {u : UInt16}
    (h : u ∈ [sep].intercalate parts) : u = sep ∨ ∃ part ∈ parts, u ∈ part := by
  induction parts with
  | nil => cases h
  | cons part parts ih =>
    by_cases hparts : parts = []
    · subst hparts
      rw [List.intercalate_singleton] at h
      exact .inr ⟨part, List.mem_singleton_self part, h⟩
    · rw [List.intercalate_cons_of_ne_nil hparts, List.mem_append, List.mem_append,
        List.mem_singleton] at h
      rcases h with (h | h) | h
      · exact .inr ⟨part, List.mem_cons_self, h⟩
      · exact .inl h
      · rcases ih h with h | ⟨part', hpart, h⟩
        · exact .inl h
        · exact .inr ⟨part', List.mem_cons_of_mem _ hpart, h⟩

/-- The line of what can be written has no line break. -/
theorem lineBreak_not_mem_text {line : Line} (h : line.Writable) : 0x0A ∉ line.text := by
  cases line with
  | comment text => exact h.2
  | sample sample =>
    intro hmem
    obtain ⟨hname, hvalue, hlabels⟩ := h.lineBreak
    simp only [Line.text, Sample.text, List.mem_append, List.mem_cons] at hmem
    rcases hmem with (hmem | hmem) | hmem | hmem
    · exact hname hmem
    · split at hmem
      · cases hmem
      · simp only [labelsText, List.mem_cons, List.mem_append, List.not_mem_nil, or_false] at hmem
        rcases hmem with hmem | hmem | hmem
        · exact absurd hmem (by decide)
        · rcases mem_of_mem_intercalate hmem with hmem | ⟨part, hpart, hmem⟩
          · exact absurd hmem (by decide)
          · obtain ⟨label, hlabel, rfl⟩ := List.mem_map.mp hpart
            exact lineBreak_not_mem_labelText (hlabels label hlabel) hmem
        · exact absurd hmem (by decide)
    · exact absurd hmem (by decide)
    · exact hvalue hmem

/-- A line that is kept is one of a sample. -/
theorem kept_iff {line : Line} (h : line.Writable) :
    (line.text ≠ [] ∧ line.text.head? ≠ some 0x23) ↔ line.sample?.isSome = true := by
  cases line with
  | comment text => exact iff_of_false (fun hkept => hkept.2 h.1) Bool.false_ne_true
  | sample sample =>
    refine iff_of_true ?_ rfl
    obtain ⟨hne, hhead, -⟩ := h.name
    obtain ⟨u, name, hname⟩ := List.exists_cons_of_ne_nil hne
    rw [hname] at hhead
    rw [Line.text, Sample.text, hname]
    exact ⟨List.cons_ne_nil _ _, hhead⟩

/-- The lines that are kept are read as the samples. -/
theorem mapM_readSample (h : ∀ line ∈ lines, line.Writable) :
    ((lines.map Line.text).filter fun line => line ≠ [] ∧ line.head? ≠ some 0x23).mapM readSample =
      some (lines.filterMap Line.sample?) := by
  induction lines with
  | nil => rfl
  | cons line lines ih =>
    have hline := h line List.mem_cons_self
    have hlines := ih fun line hmem => h line (List.mem_cons_of_mem _ hmem)
    have hkept := kept_iff hline
    rw [List.map_cons]
    cases line with
    | comment text =>
      rw [List.filter_cons_of_neg (by rw [decide_eq_true_eq, hkept]; exact Bool.false_ne_true),
        hlines]
      rfl
    | sample sample =>
      rw [List.filter_cons_of_pos (by rw [decide_eq_true_eq, hkept]; rfl), List.mapM_cons, hlines]
      have hread : readSample (Line.text (.sample sample)) = some sample := readSample_text hline
      rw [hread]
      rfl

/-- **A document is read back.** -/
theorem readSamples_document (h : ∀ line ∈ lines, line.Writable) :
    readSamples (document lines) = some (lines.filterMap Line.sample?) := by
  rw [readSamples, document, List.splitOn_append_cons_self, List.filter_append]
  have hlast : ((List.splitOn 0x0A ([] : JsString)).filter fun line =>
      line ≠ [] ∧ line.head? ≠ some 0x23) = [] := rfl
  rw [hlast, List.append_nil]
  by_cases hlines : lines = []
  · subst hlines
    rfl
  · rw [List.splitOn_intercalate 0x0A _ (by simpa using hlines), mapM_readSample h]
    intro text htext
    obtain ⟨line, hline, rfl⟩ := List.mem_map.mp htext
    exact lineBreak_not_mem_text (h line hline)

/-! ## Composition -/

/-- Lines that hold these samples and comments. -/
def Holds (texts : List JsString) (samples : List Sample) : Prop :=
  ∃ lines : List Line, (∀ line ∈ lines, line.Writable) ∧ texts = lines.map Line.text ∧
    samples = lines.filterMap Line.sample?

variable {texts texts' : List JsString} {samples samples' : List Sample}

theorem Holds.append (h : Holds texts samples) (h' : Holds texts' samples') :
    Holds (texts ++ texts') (samples ++ samples') := by
  obtain ⟨lines, hlines, rfl, rfl⟩ := h
  obtain ⟨lines', hlines', rfl, rfl⟩ := h'
  refine ⟨lines ++ lines', fun line hline => ?_, List.map_append.symm, List.filterMap_append.symm⟩
  exact (List.mem_append.mp hline).elim (hlines line) (hlines' line)

/-- **The samples that lines hold are read from them.** -/
theorem Holds.read (h : Holds texts samples) :
    readSamples ([0x0A].intercalate texts ++ [0x0A]) = some samples := by
  obtain ⟨lines, hlines, rfl, rfl⟩ := h
  exact readSamples_document hlines

end Exposition
