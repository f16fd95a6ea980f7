import MemphisOS.Ecma.Numerals

/-!
# Methods of strings

The methods of `String.prototype` on code units. White space and the searched texts lie in
the basic plane, so a unit is examined on its own.
-/

namespace Ecma.JsString

/-- A unit `trim` removes. -/
def isSpaceUnit (u : UInt16) : Bool := isJsSpace (charOfUnit u)

/-- `String.prototype.trim`. -/
def trim (s : JsString) : JsString :=
  ((s.dropWhile isSpaceUnit).reverse.dropWhile isSpaceUnit).reverse

theorem trim_eq_self {s : JsString} (h : ∀ u ∈ s, isSpaceUnit u = false) : s.trim = s := by
  have hdrop : ∀ s : JsString, (∀ u ∈ s, isSpaceUnit u = false) →
      s.dropWhile isSpaceUnit = s := by
    intro s h
    cases s with
    | nil => rfl
    | cons u rest => exact List.dropWhile_cons_of_neg (by rw [h u List.mem_cons_self]; decide)
  rw [trim, hdrop s h, hdrop _ fun u hu => h u (List.mem_reverse.mp hu), List.reverse_reverse]

/-- `String.prototype.replace(pattern, '')` for a string pattern: its first occurrence goes. -/
def removeFirst (pattern : JsString) : JsString → JsString
  | [] => []
  | u :: s =>
    if pattern.isPrefixOf (u :: s) then (u :: s).drop pattern.length else u :: removeFirst pattern s

/-- The value of a digit up to a radix of at most sixteen. -/
def digitValue (radix : ℕ) (c : Char) : Option ℕ :=
  let value :=
    if c.isDigit then c.toNat - 48
    else if 'a' ≤ c ∧ c ≤ 'f' then c.toNat - 87
    else if 'A' ≤ c ∧ c ≤ 'F' then c.toNat - 55
    else radix
  if value < radix then some value else none

/-- The number a non-empty run of digits denotes. -/
def digitsInRadix (radix : ℕ) (ds : Text) : JsNumber :=
  if ds = [] then .nan
  else
    match ds.mapM (digitValue radix) with
    | none => .nan
    | some values => .ofNat (values.foldl (fun n d => radix * n + d) 0)

/-- A decimal literal of `StringToNumber`, which may start or end with its point. -/
def decimalToNumber (t : Text) : JsNumber :=
  let (negative, t) := readExponentSign t
  if t = "Infinity".toList then .infinity negative
  else
    let (int, t) := spanDigits t
    let (frac, t) :=
      match t with
      | '.' :: t => spanDigits t
      | t => ([], t)
    if int = [] ∧ frac = [] then .nan
    else
      match readExponent t with
      | some (exp, []) =>
        let magnitude := digitsValue (int ++ frac) * (10 : ℚ) ^ (exp - frac.length)
        .ofRat (if negative then -magnitude else magnitude) negative
      | _ => .nan

/-- `Number(s)`. -/
def toNumber (s : JsString) : JsNumber :=
  match wellFormed s.trim with
  | [] => .ofNat 0
  | '0' :: 'x' :: ds => digitsInRadix 16 ds
  | '0' :: 'X' :: ds => digitsInRadix 16 ds
  | '0' :: 'o' :: ds => digitsInRadix 8 ds
  | '0' :: 'O' :: ds => digitsInRadix 8 ds
  | '0' :: 'b' :: ds => digitsInRadix 2 ds
  | '0' :: 'B' :: ds => digitsInRadix 2 ds
  | t => decimalToNumber t

/-- An ASCII letter in lower case. -/
def lowerUnit (u : UInt16) : UInt16 := if 65 ≤ u ∧ u ≤ 90 then u + 32 else u

/-- `s.toLowerCase() === word`, for a word in ASCII letters other than `k`. -/
def lowersTo (s : JsString) (word : String) : Bool := s.map lowerUnit = js word

/-! ## Replacement templates -/

section Templates

variable (before matched after : JsString)

/-- What `$$`, `$&`, the grave accent and the apostrophe after a dollar sign stand for. -/
def templateReference (v : UInt16) : Option JsString :=
  if v = 36 then some [36]
  else if v = 38 then some matched
  else if v = 96 then some before
  else if v = 39 then some after
  else none

/-- `GetSubstitution` for a match without groups: what a template stands for. -/
def getSubstitution : JsString → JsString
  | [] => []
  | u :: rest =>
    if u = 36 then
      match rest with
      | v :: rest' =>
        match templateReference before matched after v with
        | some s => s ++ getSubstitution rest'
        | none => u :: getSubstitution (v :: rest')
      | [] => [u]
    else u :: getSubstitution rest

variable {before matched after}

theorem getSubstitution_reference {v : UInt16} {s : JsString}
    (h : templateReference before matched after v = some s) (rest : JsString) :
    getSubstitution before matched after (36 :: v :: rest) =
      s ++ getSubstitution before matched after rest := by
  rw [getSubstitution.eq_def]
  simp only [if_true, h]

/-- A unit that starts no reference stands for itself. -/
theorem getSubstitution_literal {u : UInt16} {rest : JsString}
    (h : u = 36 → ∀ v ∈ rest.head?, templateReference before matched after v = none) :
    getSubstitution before matched after (u :: rest) =
      u :: getSubstitution before matched after rest := by
  rw [getSubstitution.eq_def]
  by_cases hu : u = 36
  · cases rest with
    | nil => simp only [hu, if_true, getSubstitution]
    | cons v rest => simp only [hu, if_true, h hu v rfl]
  · simp only [hu, if_false]

/-- A template is empty, or a reference or a unit that stands for itself comes first. -/
theorem template_cases (before matched after : JsString) {motive : JsString → Prop}
    (nil : motive [])
    (reference : ∀ v s rest, templateReference before matched after v = some s → motive rest →
      motive (36 :: v :: rest))
    (literal : ∀ u rest,
      (u = 36 → ∀ v ∈ rest.head?, templateReference before matched after v = none) →
      motive rest → motive (u :: rest)) (template : JsString) : motive template := by
  induction template using getSubstitution.induct before matched after with
  | case1 => exact nil
  | case2 v rest s hv ih => exact reference v s rest hv ih
  | case3 v rest hv ih =>
    refine literal 36 (v :: rest) (fun _ w hw => ?_) ih
    rw [List.head?_cons, Option.mem_some] at hw
    exact hw ▸ hv
  | case4 => exact literal 36 [] (fun _ _ h => nomatch h) nil
  | case5 u rest hu ih => exact literal u rest (fun h => absurd h hu) ih

/-- A unit that occurs in references. -/
def isReferenceUnit (u : UInt16) : Bool := u = 36 || u = 38 || u = 96 || u = 39

/-- A unit that occurs in no reference stands for itself. -/
theorem getSubstitution_append_cons {u : UInt16} (hu : isReferenceUnit u = false)
    (x y : JsString) :
    getSubstitution before matched after (x ++ u :: y) =
      getSubstitution before matched after x ++ u :: getSubstitution before matched after y := by
  simp only [isReferenceUnit, Bool.or_eq_false_iff, decide_eq_false_iff_not] at hu
  obtain ⟨⟨⟨h36, h38⟩, h96⟩, h39⟩ := hu
  have hnone : templateReference before matched after u = none := by
    rw [templateReference, if_neg h36, if_neg h38, if_neg h96, if_neg h39]
  induction x using template_cases before matched after with
  | nil => exact getSubstitution_literal fun h => absurd h h36
  | reference v s rest hv ih =>
    rw [List.cons_append, List.cons_append, getSubstitution_reference hv,
      getSubstitution_reference hv, ih, List.append_assoc]
  | literal w rest hw ih =>
    rw [List.cons_append, getSubstitution_literal hw, getSubstitution_literal, ih,
      List.cons_append]
    intro h v hv
    cases rest with
    | nil =>
      rw [List.nil_append, List.head?_cons, Option.mem_some] at hv
      exact hv ▸ hnone
    | cons v' rest => exact hw h v hv

/-- A word of such units stands for itself, whatever is around it. -/
theorem getSubstitution_append_append {word : JsString}
    (hword : word.all (fun u => !isReferenceUnit u) = true) (hne : word ≠ []) (x y : JsString) :
    getSubstitution before matched after (x ++ (word ++ y)) =
      getSubstitution before matched after x ++
        (word ++ getSubstitution before matched after y) := by
  induction word generalizing x with
  | nil => exact absurd rfl hne
  | cons u word ih =>
    rw [List.all_cons, Bool.and_eq_true, Bool.not_eq_true'] at hword
    rw [List.cons_append, getSubstitution_append_cons hword.1]
    by_cases hnil : word = []
    · rw [hnil, List.nil_append, List.cons_append, List.nil_append]
    · have hrest := ih hword.2 hnil []
      rw [List.nil_append, getSubstitution, List.nil_append] at hrest
      rw [hrest, List.cons_append]

/-- A template without a dollar sign stands for itself. -/
theorem getSubstitution_eq_self {template : JsString} (h : 36 ∉ template) :
    getSubstitution before matched after template = template := by
  induction template with
  | nil => rfl
  | cons u rest ih =>
    rw [List.mem_cons, not_or] at h
    rw [getSubstitution_literal fun hu => absurd hu.symm h.1, ih h.2]

theorem templateReference_match : templateReference before matched after 38 = some matched := rfl

/-- Only `$&` depends on the match. -/
theorem templateReference_congr {v : UInt16} (hv : v ≠ 38) (matched' : JsString) :
    templateReference before matched' after v = templateReference before matched after v := by
  rw [templateReference, templateReference, if_neg hv, if_neg hv]

/-- A template does not refer to the match, or the match is part of what it stands for. -/
theorem getSubstitution_matched (before matched after template : JsString) :
    (∀ matched', getSubstitution before matched' after template =
      getSubstitution before matched after template) ∨
    matched <:+: getSubstitution before matched after template := by
  induction template using template_cases before matched after with
  | nil => exact .inl fun _ => rfl
  | reference v s rest hv ih =>
    rw [getSubstitution_reference hv]
    by_cases hmatch : v = 38
    · rw [hmatch, templateReference_match, Option.some.injEq] at hv
      exact .inr (hv ▸ (List.prefix_append matched _).isInfix)
    · refine ih.imp (fun h matched' => ?_) fun h => h.trans (List.suffix_append s _).isInfix
      rw [getSubstitution_reference ((templateReference_congr hmatch matched').trans hv), h]
  | literal u rest hu ih =>
    rw [getSubstitution_literal hu]
    refine ih.imp (fun h matched' => ?_) fun h => h.trans (List.suffix_cons u _).isInfix
    rw [getSubstitution_literal, h]
    intro hdollar v hv
    have hnone := hu hdollar v hv
    have hmatch : v ≠ 38 := by
      rintro rfl
      rw [templateReference_match] at hnone
      cases hnone
    rw [templateReference_congr hmatch matched', hnone]

end Templates

end Ecma.JsString
