import MemphisOS.Ecma.Value

/-!
# Trees of values

A value of any kind as a tree: what `JSON.stringify` makes of it, also where an object has a JSON
form of its own.
-/

namespace Ecma

/-- What `JSON.stringify` makes of a value: it throws, or gives a value or nothing. -/
abbrev Written := Option (Option Plain)

/-- A value without cycles, by its own enumerable properties. -/
inductive JsTree where
  | null
  | bool (b : Bool)
  | num (n : JsNumber)
  | str (s : JsString)
  /-- `undefined`, a function or a symbol. -/
  | undefined
  /-- A value `JSON.stringify` throws on. -/
  | unserializable
  | arr (items : List JsTree)
  | obj (members : List (JsString × JsTree))
  /-- An object with a JSON form of its own, such as a date. Where the method that gives it is
  inherited, a copy of the properties has none; otherwise it gives the form of the copy. -/
  | custom (members : List (JsString × JsTree)) (json : Written) (ofCopy : Option Written)

mutual

def JsTree.written : JsTree → Written
  | .null => some (some .null)
  | .bool b => some (some (.bool b))
  | .num n => some (some (jsonNumber n))
  | .str s => some (some (.str s))
  | .undefined => some none
  | .unserializable => none
  | .arr items => (writtenItems items).map fun vs => some (.arr vs)
  | .obj members => (writtenMembers members).map fun ms => some (.obj ms)
  | .custom _ json _ => json.map (·.map jsonImage)

/-- In an array nothing becomes `null`. -/
def writtenItems : List JsTree → Option (List Plain)
  | [] => some []
  | t :: ts => t.written.bind fun v => (writtenItems ts).map fun vs => v.getD .null :: vs

/-- In an object it drops the member. -/
def writtenMembers : List (JsString × JsTree) → Option (List (JsString × Plain))
  | [] => some []
  | (k, t) :: ms => t.written.bind fun v =>
      (writtenMembers ms).map fun rest => (v.map (k, ·)).toList ++ rest

end

/-- `JSON.stringify(value, null, gap)`. -/
def JsTree.stringify (gap : Text) (t : JsTree) : Option (Option Text) :=
  t.written.map (·.map fun v => v.write numberText gap [])

mutual

/-- What is written has literals for its numbers. -/
theorem JsTree.jsonNumbers_written : ∀ (t : JsTree) (v : Plain),
    t.written = some (some v) → JsonNumbers v
  | .null, _, h => by
    rw [JsTree.written] at h
    cases h
    trivial
  | .bool _, _, h => by
    rw [JsTree.written] at h
    cases h
    trivial
  | .num n, _, h => by
    rw [JsTree.written] at h
    cases h
    exact jsonNumbers_jsonNumber n
  | .str _, _, h => by
    rw [JsTree.written] at h
    cases h
    trivial
  | .undefined, _, h => by
    rw [JsTree.written] at h
    cases h
  | .unserializable, _, h => by
    rw [JsTree.written] at h
    cases h
  | .arr items, _, h => by
    rw [JsTree.written] at h
    obtain ⟨vs, hvs, heq⟩ := Option.map_eq_some_iff.mp h
    obtain rfl := Option.some.inj heq
    rw [JsonNumbers, Json.allNumbers_arr]
    exact jsonNumbers_writtenItems items vs hvs
  | .obj members, _, h => by
    rw [JsTree.written] at h
    obtain ⟨ms, hms, heq⟩ := Option.map_eq_some_iff.mp h
    obtain rfl := Option.some.inj heq
    rw [JsonNumbers, Json.allNumbers_obj]
    exact jsonNumbers_writtenMembers members ms hms
  | .custom _ json _, _, h => by
    rw [JsTree.written] at h
    obtain ⟨result, -, heq⟩ := Option.map_eq_some_iff.mp h
    obtain ⟨v, -, rfl⟩ := Option.map_eq_some_iff.mp heq
    exact jsonNumbers_jsonImage v

theorem jsonNumbers_writtenItems : ∀ (ts : List JsTree) (vs : List Plain),
    writtenItems ts = some vs → ∀ v ∈ vs, JsonNumbers v
  | [], _, h => by
    rw [writtenItems] at h
    cases h
    exact List.forall_mem_nil _
  | t :: ts, _, h => by
    rw [writtenItems] at h
    obtain ⟨v, hv, h⟩ := Option.bind_eq_some_iff.mp h
    obtain ⟨vs, hvs, rfl⟩ := Option.map_eq_some_iff.mp h
    refine List.forall_mem_cons.mpr ⟨?_, jsonNumbers_writtenItems ts vs hvs⟩
    cases v with
    | none => trivial
    | some v => exact t.jsonNumbers_written v hv

theorem jsonNumbers_writtenMembers : ∀ (members : List (JsString × JsTree))
    (ms : List (JsString × Plain)), writtenMembers members = some ms →
      ∀ m ∈ ms, JsonNumbers m.2
  | [], _, h => by
    rw [writtenMembers] at h
    cases h
    exact List.forall_mem_nil _
  | (k, t) :: members, _, h => by
    rw [writtenMembers] at h
    obtain ⟨v, hv, h⟩ := Option.bind_eq_some_iff.mp h
    obtain ⟨ms, hms, rfl⟩ := Option.map_eq_some_iff.mp h
    intro m hm
    rcases List.mem_append.mp hm with hm | hm
    · obtain ⟨v', rfl, rfl⟩ := Option.map_eq_some_iff.mp (Option.mem_toList.mp hm)
      exact t.jsonNumbers_written v' hv
    · exact jsonNumbers_writtenMembers members ms hms m hm

end

/-- The names that are written are names of the members, in their order. -/
theorem keys_writtenMembers {members : List (JsString × JsTree)} {ms : List (JsString × Plain)}
    (h : writtenMembers members = some ms) :
    (ms.map Prod.fst).Sublist (members.map Prod.fst) := by
  induction members generalizing ms with
  | nil =>
    rw [writtenMembers] at h
    cases h
    exact .refl _
  | cons m members ih =>
    rw [writtenMembers] at h
    obtain ⟨v, -, h⟩ := Option.bind_eq_some_iff.mp h
    obtain ⟨rest, hrest, rfl⟩ := Option.map_eq_some_iff.mp h
    cases v with
    | none => exact (ih hrest).cons m.1
    | some v => exact (ih hrest).cons_cons m.1

/-- The text of a value is that of what is written. -/
theorem JsTree.stringify_eq_some {gap : Text} {t : JsTree} {text : Text}
    (h : t.stringify gap = some (some text)) :
    ∃ v, t.written = some (some v) ∧ JsonNumbers v ∧ text = v.write numberText gap [] := by
  obtain ⟨result, hresult, h⟩ := Option.map_eq_some_iff.mp h
  obtain ⟨v, rfl, rfl⟩ := Option.map_eq_some_iff.mp h
  exact ⟨v, hresult, t.jsonNumbers_written v hresult, rfl⟩

end Ecma
