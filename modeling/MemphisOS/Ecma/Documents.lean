import MemphisOS.Ecma.Value

/-!
# Documents

A document is a value that its own JSON text denotes. Names in documents are string literals,
which are compared as such.
-/

namespace Ecma

/-- Different literals are different strings. -/
@[simp] theorem js_inj {s t : String} : js s = js t ↔ s = t := by
  rw [js, js, ofText_injective.eq_iff, String.toList_inj]

@[simp] theorem js_beq (s t : String) : (js s == js t) = (s == t) := by
  rw [Bool.eq_iff_iff, beq_iff_eq, beq_iff_eq, js_inj]

@[simp] theorem js_eq_nil {s : String} : js s = [] ↔ s = "" := by
  rw [← js_inj]
  rfl

/-- A value that its text denotes. -/
structure IsDocument (v : Plain) : Prop where
  ordered : OwnOrdered v
  numbers : JsonNumbers v

variable {v : Plain}

/-- **A document is read back from its text.** -/
theorem IsDocument.parseJson {gap : Text} (h : IsDocument v) (hgap : Json.Blank gap) :
    parseJson (jsonText gap v) = some v := by
  rw [parseJson_jsonText hgap h.ordered, jsonImage_eq_self h.numbers]

theorem isDocument_own (v : Plain) (h : JsonNumbers (own v)) : IsDocument (own v) :=
  ⟨ownOrdered_own v, h⟩

@[simp] theorem isDocument_null : IsDocument .null := ⟨trivial, trivial⟩

@[simp] theorem isDocument_bool (b : Bool) : IsDocument (.bool b) := ⟨trivial, trivial⟩

@[simp] theorem isDocument_str (s : JsString) : IsDocument (.str s) := ⟨trivial, trivial⟩

theorem isDocument_num {q : ℚ} {h : roundToDouble q = some q} : IsDocument (.num (.finite q h)) :=
  ⟨trivial, q, h, rfl⟩

theorem isDocument_ofNat {n : ℕ} (h : n < 2 ^ 53) : IsDocument (.num (.ofNat n)) := by
  rw [JsNumber.ofNat_eq h]
  exact isDocument_num

@[simp] theorem isDocument_arr {vs : List Plain} :
    IsDocument (.arr vs) ↔ ∀ v ∈ vs, IsDocument v := by
  constructor
  · rintro ⟨hordered, hnumbers⟩ v hv
    rw [JsonNumbers, Json.allNumbers_arr] at hnumbers
    exact ⟨ownOrdered_arr.mp hordered v hv, hnumbers v hv⟩
  · intro h
    refine ⟨ownOrdered_arr.mpr fun v hv => (h v hv).ordered, ?_⟩
    rw [JsonNumbers, Json.allNumbers_arr]
    exact fun v hv => (h v hv).numbers

@[simp] theorem isDocument_obj {ms : List (JsString × Plain)} :
    IsDocument (.obj ms) ↔ InOwnOrder (ms.map Prod.fst) ∧ ∀ m ∈ ms, IsDocument m.2 := by
  constructor
  · rintro ⟨hordered, hnumbers⟩
    rw [ownOrdered_obj] at hordered
    rw [JsonNumbers, Json.allNumbers_obj] at hnumbers
    exact ⟨hordered.1, fun m hm => ⟨hordered.2 m hm, hnumbers m hm⟩⟩
  · rintro ⟨horder, h⟩
    refine ⟨ownOrdered_obj.mpr ⟨horder, fun m hm => (h m hm).ordered⟩, ?_⟩
    rw [JsonNumbers, Json.allNumbers_obj]
    exact fun m hm => (h m hm).numbers

/-- Names that are no array indices are enumerated in their order. -/
theorem inOwnOrder_of_names {names : List String} (hnodup : names.Nodup)
    (hindex : ∀ name ∈ names, arrayIndex (js name) = none) : InOwnOrder (names.map js) := by
  refine ⟨hnodup.map fun _ _ h => js_inj.mp h, ?_⟩
  rw [List.pairwise_map, List.pairwise_iff_getElem]
  intro i j hi hj _
  rw [EnumeratedBefore, hindex _ (List.getElem_mem hi), hindex _ (List.getElem_mem hj)]
  trivial

theorem isDocument_of_names {names : List String} {ms : List (JsString × Plain)}
    (hnames : ms.map Prod.fst = names.map js) (hnodup : names.Nodup)
    (hindex : ∀ name ∈ names, arrayIndex (js name) = none) (h : ∀ m ∈ ms, IsDocument m.2) :
    IsDocument (.obj ms) := by
  refine isDocument_obj.mpr ⟨?_, h⟩
  rw [hnames]
  exact inOwnOrder_of_names hnodup hindex

/-- Some of a list of names are enumerated in their order. -/
theorem ownOrdered_of_names {names : List String} {ms : List (JsString × Plain)}
    (hnames : (ms.map Prod.fst).Sublist (names.map js)) (hnodup : names.Nodup)
    (hindex : ∀ name ∈ names, arrayIndex (js name) = none) (h : ∀ m ∈ ms, OwnOrdered m.2) :
    OwnOrdered (.obj ms) := by
  have horder := inOwnOrder_of_names hnodup hindex
  exact ownOrdered_obj.mpr ⟨⟨horder.1.sublist hnames, horder.2.sublist hnames⟩, h⟩

@[simp] theorem jsonImage_null : jsonImage .null = .null := rfl

@[simp] theorem jsonImage_bool (b : Bool) : jsonImage (.bool b) = .bool b := rfl

@[simp] theorem jsonImage_str (s : JsString) : jsonImage (.str s) = .str s := rfl

theorem jsonImage_ofNat {n : ℕ} (h : n < 2 ^ 53) :
    jsonImage (.num (.ofNat n)) = .num (.ofNat n) :=
  jsonImage_eq_self (isDocument_ofNat h).numbers

@[simp] theorem jsonImage_jsonImage (v : Plain) : jsonImage (jsonImage v) = jsonImage v :=
  jsonImage_eq_self (jsonNumbers_jsonImage v)

/-- A value and its JSON image have the same text. -/
@[simp] theorem jsonText_jsonImage (gap : Text) (v : Plain) :
    jsonText gap (jsonImage v) = jsonText gap v := by
  rw [jsonText, jsonText, jsonImage_jsonImage]

end Ecma
