import MemphisOS.Ecma.Numerals

/-!
# JSON texts

The syntax trees of JSON documents over an arbitrary type of numbers, the writer of
`JSON.stringify` with its optional indentation, and a recursive descent reader. An
object keeps its members in text order, duplicates included; what a language makes
of them is not decided here.
-/

namespace Ecma

/-- The syntax tree of a JSON document. -/
inductive Json (ν : Type) where
  | null
  | bool (b : Bool)
  | num (n : ν)
  | str (s : JsString)
  | arr (items : List (Json ν))
  | obj (members : List (JsString × Json ν))

namespace Json

variable {ν β : Type}

/-! ## Structural recursion -/

section Fold

variable (null : β) (bool : Bool → β) (num : ν → β) (str : JsString → β) (arr : List β → β)
  (obj : List (JsString × β) → β)

mutual

/-- Replace every constructor by a function, from the leaves up. -/
def fold : Json ν → β
  | .null => null
  | .bool b => bool b
  | .num n => num n
  | .str s => str s
  | .arr items => arr (foldItems items)
  | .obj members => obj (foldMembers members)
termination_by structural v => v

/-- `fold` on the items of an array. -/
def foldItems : List (Json ν) → List β
  | [] => []
  | v :: vs => fold v :: foldItems vs
termination_by structural vs => vs

/-- `fold` on the members of an object. -/
def foldMembers : List (JsString × Json ν) → List (JsString × β)
  | [] => []
  | m :: ms => foldMember m :: foldMembers ms
termination_by structural ms => ms

/-- `fold` on one member. -/
def foldMember : JsString × Json ν → JsString × β
  | (k, v) => (k, fold v)
termination_by structural m => m

end

variable {null bool num str arr obj}

theorem foldItems_eq_map (vs : List (Json ν)) :
    foldItems null bool num str arr obj vs = vs.map (fold null bool num str arr obj) := by
  induction vs with
  | nil => rfl
  | cons v vs ih => simp [foldItems, ih]

theorem foldMembers_eq_map (ms : List (JsString × Json ν)) :
    foldMembers null bool num str arr obj ms =
      ms.map fun m => (m.1, fold null bool num str arr obj m.2) := by
  induction ms with
  | nil => rfl
  | cons m ms ih =>
    obtain ⟨k, v⟩ := m
    simp [foldMembers, foldMember, ih]

@[simp] theorem fold_arr (vs : List (Json ν)) :
    fold null bool num str arr obj (.arr vs) = arr (vs.map (fold null bool num str arr obj)) := by
  rw [fold, foldItems_eq_map]

@[simp] theorem fold_obj (ms : List (JsString × Json ν)) :
    fold null bool num str arr obj (.obj ms) =
      obj (ms.map fun m => (m.1, fold null bool num str arr obj m.2)) := by
  rw [fold, foldMembers_eq_map]

end Fold

/-- Induction over documents: the items and the members of a node satisfy the
hypothesis when the node is reached. -/
theorem induct {P : Json ν → Prop} (null : P .null) (bool : ∀ b, P (.bool b))
    (num : ∀ n, P (.num n)) (str : ∀ s, P (.str s))
    (arr : ∀ vs, (∀ v ∈ vs, P v) → P (.arr vs))
    (obj : ∀ ms, (∀ m ∈ ms, P m.2) → P (.obj ms)) (v : Json ν) : P v :=
  @Json.rec ν P (fun vs => ∀ v ∈ vs, P v) (fun ms => ∀ m ∈ ms, P m.2) (fun m => P m.2)
    null bool num str arr obj (fun _ h => absurd h (by simp))
    (fun _ _ hv hvs w hw => (List.mem_cons.mp hw).elim (fun h => h ▸ hv) (hvs w))
    (fun _ h => absurd h (by simp))
    (fun _ _ hm hms w hw => (List.mem_cons.mp hw).elim (fun h => h ▸ hm) (hms w))
    (fun _ _ h => h) v

/-- The number of nodes of a document. -/
def size : Json ν → ℕ :=
  fold 1 (fun _ => 1) (fun _ => 1) (fun _ => 1) (fun ns => ns.sum + 1)
    (fun ns => (ns.map Prod.snd).sum + 1)

/-- A property of numbers holds of every number in a document. -/
def AllNumbers (P : ν → Prop) : Json ν → Prop :=
  fold True (fun _ => True) P (fun _ => True) (fun ps => ∀ p ∈ ps, p) (fun ps => ∀ p ∈ ps, p.2)

@[simp] theorem size_num (n : ν) : size (.num n) = 1 := rfl

@[simp] theorem size_str (s : JsString) : size (.str s : Json ν) = 1 := rfl

@[simp] theorem size_arr (vs : List (Json ν)) : size (.arr vs) = (vs.map size).sum + 1 := by
  simp [size]

@[simp] theorem size_obj (ms : List (JsString × Json ν)) :
    size (.obj ms) = (ms.map fun m => m.2.size).sum + 1 := by
  simp [size, Function.comp_def]

@[simp] theorem allNumbers_arr {P : ν → Prop} {vs : List (Json ν)} :
    AllNumbers P (.arr vs) ↔ ∀ v ∈ vs, AllNumbers P v := by
  simp only [AllNumbers, fold_arr, List.mem_map, forall_exists_index, and_imp,
    forall_apply_eq_imp_iff₂]

@[simp] theorem allNumbers_obj {P : ν → Prop} {ms : List (JsString × Json ν)} :
    AllNumbers P (.obj ms) ↔ ∀ m ∈ ms, AllNumbers P m.2 := by
  simp only [AllNumbers, fold_obj, List.mem_map, forall_exists_index, and_imp,
    forall_apply_eq_imp_iff₂]

theorem allNumbers_of_forall {P : ν → Prop} (hP : ∀ n, P n) (v : Json ν) : v.AllNumbers P := by
  induction v using Json.induct with
  | null => trivial
  | bool b => trivial
  | num n => exact hP n
  | str s => trivial
  | arr vs ih => exact allNumbers_arr.mpr ih
  | obj ms ih => exact allNumbers_obj.mpr ih

theorem AllNumbers.imp {P Q : ν → Prop} (hPQ : ∀ n, P n → Q n) {v : Json ν}
    (h : v.AllNumbers P) : v.AllNumbers Q := by
  induction v using Json.induct with
  | null => trivial
  | bool b => trivial
  | num n => exact hPQ n h
  | str s => trivial
  | arr vs ih =>
    rw [allNumbers_arr] at h ⊢
    exact fun v hv => ih v hv (h v hv)
  | obj ms ih =>
    rw [allNumbers_obj] at h ⊢
    exact fun m hm => ih m hm (h m hm)

/-! ## Writing -/

/-- A lower-case hexadecimal digit. -/
def hexDigit (n : ℕ) : Char := if n < 10 then Char.ofNat (48 + n) else Char.ofNat (87 + n)

/-- `UnicodeEscape`: a code unit as `\uXXXX`. -/
def escapeUnit (u : UInt16) : Text :=
  ['\\', 'u', hexDigit (u.toNat / 4096), hexDigit (u.toNat / 256 % 16),
    hexDigit (u.toNat / 16 % 16), hexDigit (u.toNat % 16)]

/-- `QuoteJSONString` on a code unit that is not part of a surrogate pair. -/
def quoteUnit (u : UInt16) : Text :=
  if u = 0x22 then ['\\', '"']
  else if u = 0x5C then ['\\', '\\']
  else if u = 0x08 then ['\\', 'b']
  else if u = 0x0C then ['\\', 'f']
  else if u = 0x0A then ['\\', 'n']
  else if u = 0x0D then ['\\', 'r']
  else if u = 0x09 then ['\\', 't']
  else if u.toNat < 0x20 || isHighSurrogate u || isLowSurrogate u then escapeUnit u
  else [charOfUnit u]

/-- `QuoteJSONString` between the quotation marks; surrogate pairs stay characters. -/
def quoteUnits : JsString → Text
  | [] => []
  | [u] => quoteUnit u
  | u :: v :: rest =>
    if isHighSurrogate u && isLowSurrogate v then charOfPair u v :: quoteUnits rest
    else quoteUnit u ++ quoteUnits (v :: rest)

/-- `QuoteJSONString`. -/
def quote (s : JsString) : Text := '"' :: quoteUnits s ++ ['"']

/-- A new line, when the writer indents. -/
def lineBreak (gap indent : Text) : Text := if gap = [] then [] else '\n' :: indent

/-- The texts one after another with a separator between them. -/
def joinWith (separator : Text) : List Text → Text
  | [] => []
  | [t] => t
  | t :: u :: rest => t ++ separator ++ joinWith separator (u :: rest)

/-- `SerializeJSONArray` and `SerializeJSONObject` around the serialised parts. -/
def bracket (gap indent : Text) (opening closing : Char) (parts : List Text) : Text :=
  if parts = [] then [opening, closing]
  else opening :: lineBreak gap (indent ++ gap) ++
    joinWith (',' :: lineBreak gap (indent ++ gap)) parts ++ lineBreak gap indent ++ [closing]

/-- The colon after a property name. -/
def colon (gap : Text) : Text := if gap = [] then [':'] else [':', ' ']

/-- `SerializeJSONProperty` with the given indentation step. -/
def write (writeNumber : ν → Text) (gap : Text) : Json ν → Text → Text :=
  fold (fun _ => "null".toList) (fun b _ => if b then "true".toList else "false".toList)
    (fun n _ => writeNumber n) (fun s _ => quote s)
    (fun parts indent => bracket gap indent '[' ']' (parts.map fun part => part (indent ++ gap)))
    (fun parts indent => bracket gap indent '{' '}'
      (parts.map fun part => quote part.1 ++ colon gap ++ part.2 (indent ++ gap)))

@[simp] theorem write_arr (writeNumber : ν → Text) (gap indent : Text) (vs : List (Json ν)) :
    write writeNumber gap (.arr vs) indent = bracket gap indent '[' ']'
      (vs.map fun v => write writeNumber gap v (indent ++ gap)) := by
  simp [write, Function.comp_def]

@[simp] theorem write_obj (writeNumber : ν → Text) (gap indent : Text)
    (ms : List (JsString × Json ν)) :
    write writeNumber gap (.obj ms) indent = bracket gap indent '{' '}'
      (ms.map fun m => quote m.1 ++ colon gap ++ write writeNumber gap m.2 (indent ++ gap)) := by
  simp [write, Function.comp_def]

/-! ## Reading -/

/-- White space of the JSON grammar. -/
def isSpace (c : Char) : Bool := c == ' ' || c == '\n' || c == '\r' || c == '\t'

/-- Skip white space. -/
def skipSpace (t : Text) : Text := t.dropWhile isSpace

/-- The value of a hexadecimal digit, in either case. -/
def hexValue (c : Char) : Option ℕ :=
  if 48 ≤ c.toNat ∧ c.toNat ≤ 57 then some (c.toNat - 48)
  else if 97 ≤ c.toNat ∧ c.toNat ≤ 102 then some (c.toNat - 87)
  else if 65 ≤ c.toNat ∧ c.toNat ≤ 70 then some (c.toNat - 55)
  else none

/-- The code unit of four hexadecimal digits. -/
def unitOfHex (a b c d : Char) : Option UInt16 := do
  let a ← hexValue a
  let b ← hexValue b
  let c ← hexValue c
  let d ← hexValue d
  some (UInt16.ofNat (4096 * a + 256 * b + 16 * c + d))

/-- The code unit of a one-letter escape. -/
def unescape (c : Char) : Option UInt16 :=
  if c = '"' then some 0x22
  else if c = '\\' then some 0x5C
  else if c = '/' then some 0x2F
  else if c = 'b' then some 0x08
  else if c = 'f' then some 0x0C
  else if c = 'n' then some 0x0A
  else if c = 'r' then some 0x0D
  else if c = 't' then some 0x09
  else none

/-- Read a string after its opening quotation mark. -/
def readString : Text → Option (JsString × Text)
  | [] => none
  | '"' :: t => some ([], t)
  | '\\' :: 'u' :: a :: b :: c :: d :: t => do
    let u ← unitOfHex a b c d
    let (s, rest) ← readString t
    some (u :: s, rest)
  | '\\' :: c :: t => do
    let u ← unescape c
    let (s, rest) ← readString t
    some (u :: s, rest)
  | c :: t =>
    if c = '\\' ∨ c.toNat < 0x20 then none
    else do
      let (s, rest) ← readString t
      some (unitsOfChar c ++ s, rest)

mutual

/-- Read a value; the first argument bounds the nesting and the number of items. -/
def readValue (readNumber : Text → Option ν) : ℕ → Text → Option (Json ν × Text)
  | 0, _ => none
  | fuel + 1, t =>
    match skipSpace t with
    | '"' :: t => (readString t).map fun (s, t) => (.str s, t)
    | '[' :: t =>
      match skipSpace t with
      | ']' :: t => some (.arr [], t)
      | t => (readItems readNumber fuel t).map fun (vs, t) => (.arr vs, t)
    | '{' :: t =>
      match skipSpace t with
      | '}' :: t => some (.obj [], t)
      | t => (readMembers readNumber fuel t).map fun (ms, t) => (.obj ms, t)
    | 'n' :: 'u' :: 'l' :: 'l' :: t => some (.null, t)
    | 't' :: 'r' :: 'u' :: 'e' :: t => some (.bool true, t)
    | 'f' :: 'a' :: 'l' :: 's' :: 'e' :: t => some (.bool false, t)
    | t => (readNumber (t.takeWhile isNumberChar)).map fun n =>
        (.num n, t.dropWhile isNumberChar)

/-- Read the items of a non-empty array up to its closing bracket. -/
def readItems (readNumber : Text → Option ν) : ℕ → Text → Option (List (Json ν) × Text)
  | 0, _ => none
  | fuel + 1, t => do
    let (v, t) ← readValue readNumber fuel t
    match skipSpace t with
    | ',' :: t =>
      let (vs, t) ← readItems readNumber fuel t
      some (v :: vs, t)
    | ']' :: t => some ([v], t)
    | _ => none

/-- Read the members of a non-empty object up to its closing brace. -/
def readMembers (readNumber : Text → Option ν) :
    ℕ → Text → Option (List (JsString × Json ν) × Text)
  | 0, _ => none
  | fuel + 1, t =>
    match skipSpace t with
    | '"' :: t => do
      let (k, t) ← readString t
      match skipSpace t with
      | ':' :: t =>
        let (v, t) ← readValue readNumber fuel t
        match skipSpace t with
        | ',' :: t =>
          let (ms, t) ← readMembers readNumber fuel t
          some ((k, v) :: ms, t)
        | '}' :: t => some ([(k, v)], t)
        | _ => none
      | _ => none
    | _ => none

end

/-- Read a whole document. A value has fewer nodes than its text has characters. -/
def parse (readNumber : Text → Option ν) (t : Text) : Option (Json ν) := do
  let (v, rest) ← readValue readNumber (2 * t.length + 1) t
  if skipSpace rest = [] then some v else none

/-! ## Other numbers -/

section Numbers

variable {μ : Type}

/-- Replace every number. -/
def mapNumbers (f : ν → μ) : Json ν → Json μ :=
  fold .null .bool (fun n => .num (f n)) .str .arr .obj

@[simp] theorem mapNumbers_arr (f : ν → μ) (vs : List (Json ν)) :
    mapNumbers f (.arr vs) = .arr (vs.map (mapNumbers f)) := by
  simp [mapNumbers]

@[simp] theorem mapNumbers_obj (f : ν → μ) (ms : List (JsString × Json ν)) :
    mapNumbers f (.obj ms) = .obj (ms.map fun m => (m.1, mapNumbers f m.2)) := by
  simp [mapNumbers]

theorem mapNumbers_mapNumbers {ρ : Type} (g : μ → ρ) (f : ν → μ) (v : Json ν) :
    (v.mapNumbers f).mapNumbers g = v.mapNumbers fun n => g (f n) := by
  induction v using Json.induct with
  | null => rfl
  | bool b => rfl
  | num n => rfl
  | str s => rfl
  | arr vs ih =>
    rw [mapNumbers_arr, mapNumbers_arr, mapNumbers_arr, List.map_map]
    exact congrArg Json.arr (List.map_congr_left ih)
  | obj ms ih =>
    rw [mapNumbers_obj, mapNumbers_obj, mapNumbers_obj, List.map_map]
    refine congrArg Json.obj (List.map_congr_left fun m hm => ?_)
    rw [Function.comp_apply, ih m hm]

theorem allNumbers_mapNumbers {P : μ → Prop} {f : ν → μ} {v : Json ν} :
    (v.mapNumbers f).AllNumbers P ↔ v.AllNumbers fun n => P (f n) := by
  induction v using Json.induct with
  | null => rfl
  | bool b => rfl
  | num n => rfl
  | str s => rfl
  | arr vs ih =>
    rw [mapNumbers_arr, allNumbers_arr, allNumbers_arr, List.forall_mem_map]
    exact forall₂_congr ih
  | obj ms ih =>
    rw [mapNumbers_obj, allNumbers_obj, allNumbers_obj, List.forall_mem_map]
    exact forall₂_congr ih

/-- Numbers are written one by one. -/
theorem write_mapNumbers (f : ν → μ) (writeNumber : μ → Text) (gap indent : Text) (v : Json ν) :
    write writeNumber gap (v.mapNumbers f) indent =
      write (fun n => writeNumber (f n)) gap v indent := by
  induction v using Json.induct generalizing indent with
  | null => rfl
  | bool b => rfl
  | num n => rfl
  | str s => rfl
  | arr vs ih =>
    rw [mapNumbers_arr, write_arr, write_arr, List.map_map]
    exact congrArg _ (List.map_congr_left fun v hv => ih v hv _)
  | obj ms ih =>
    rw [mapNumbers_obj, write_obj, write_obj, List.map_map]
    refine congrArg _ (List.map_congr_left fun m hm => ?_)
    rw [Function.comp_apply, ih m hm]

/-- One level of the reader does not look at numbers. -/
theorem read_map (f : ν → μ) (readNumber : Text → Option ν) (fuel : ℕ) :
    (∀ t, readValue (fun s => (readNumber s).map f) fuel t =
      (readValue readNumber fuel t).map fun r => (r.1.mapNumbers f, r.2)) ∧
    (∀ t, readItems (fun s => (readNumber s).map f) fuel t =
      (readItems readNumber fuel t).map fun r => (r.1.map (mapNumbers f), r.2)) ∧
    (∀ t, readMembers (fun s => (readNumber s).map f) fuel t =
      (readMembers readNumber fuel t).map fun r =>
        (r.1.map fun m => (m.1, m.2.mapNumbers f), r.2)) := by
  induction fuel with
  | zero => exact ⟨fun _ => rfl, fun _ => rfl, fun _ => rfl⟩
  | succ fuel ih =>
    obtain ⟨hvalue, hitems, hmembers⟩ := ih
    refine ⟨fun t => ?_, fun t => ?_, fun t => ?_⟩
    · rw [readValue, readValue]
      split
      · next t' heq => cases readString t' <;> rfl
      · next t' heq =>
        split
        · rfl
        · rw [hitems, Option.map_map, Option.map_map]
          simp [Function.comp_def]
      · next t' heq =>
        split
        · rfl
        · rw [hmembers, Option.map_map, Option.map_map]
          simp [Function.comp_def]
      · rfl
      · rfl
      · rfl
      · rw [Option.map_map, Option.map_map]
        rfl
    · rw [readItems, readItems, hvalue]
      cases readValue readNumber fuel t with
      | none => rfl
      | some r =>
        simp only [Option.map_some, Option.bind_eq_bind, Option.bind_some]
        split
        · next t' heq =>
          rw [hitems]
          cases readItems readNumber fuel t' <;> rfl
        · rfl
        · rfl
    · rw [readMembers, readMembers]
      split
      · next t' heq =>
        cases readString t' with
        | none => rfl
        | some r =>
          simp only [Option.bind_eq_bind, Option.bind_some]
          split
          · next t'' heq' =>
            rw [hvalue]
            cases readValue readNumber fuel t'' with
            | none => rfl
            | some r' =>
              simp only [Option.map_some, Option.bind_some]
              split
              · next t3 heq3 =>
                rw [hmembers]
                cases readMembers readNumber fuel t3 <;> rfl
              · rfl
              · rfl
          · rfl
      · rfl

/-- Documents are read alike whatever their numbers are read as. -/
theorem parse_map (f : ν → μ) (readNumber : Text → Option ν) (t : Text) :
    parse (fun s => (readNumber s).map f) t = (parse readNumber t).map (mapNumbers f) := by
  rw [parse, parse, (read_map f readNumber _).1]
  cases readValue readNumber (2 * t.length + 1) t with
  | none => rfl
  | some r =>
    simp only [Option.map_some, Option.bind_eq_bind, Option.bind_some]
    split <;> rfl

end Numbers

end Json

end Ecma
