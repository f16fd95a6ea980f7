import MemphisOS.Ecma.JsonRoundTrip
import MemphisOS.Ecma.NumeralLaws
import Mathlib.Data.List.Sort

/-!
# Values and their JSON texts

Plain values are JSON trees over numbers whose objects list their own properties in
enumeration order. A general value may also hold `undefined`, numbers that JSON has no
literal for, objects with a `toJSON` method and things `JSON.stringify` throws on.
-/

namespace Ecma

/-- A plain value. -/
abbrev Plain := Json JsNumber

/-- The leaves of a general value. -/
inductive JsLeaf where
  | number (n : JsNumber)
  /-- `undefined`, a function or a symbol. -/
  | undefined
  /-- An object whose `toJSON` method returns the given value, or `undefined`. -/
  | custom (result : Option Plain)
  /-- A value `JSON.stringify` throws on. -/
  | unserializable

/-- A general value. -/
abbrev JsValue := Json JsLeaf

/-! ## Own properties -/

section Members

variable {α : Type}

/-- The array index a property key stands for. -/
def arrayIndex (key : JsString) : Option ℕ :=
  let ds := key.map charOfUnit
  if ds.all Char.isDigit ∧ ofText (digits (digitsValue ds)) = key ∧ digitsValue ds < 2 ^ 32 - 1 then
    some (digitsValue ds)
  else none

/-- Define a property: an existing one keeps its place. -/
def setMember (k : JsString) (a : α) : List (JsString × α) → List (JsString × α)
  | [] => [(k, a)]
  | m :: ms => if m.1 = k then (k, a) :: ms else m :: setMember k a ms

/-- The properties defined one after another. -/
def defineMembers (ms : List (JsString × α)) : List (JsString × α) :=
  ms.foldl (fun own m => setMember m.1 m.2 own) []

/-- The order of array indices; other keys count as the last ones. -/
def indexBefore (a b : JsString × α) : Prop := (arrayIndex a.1).getD 0 ≤ (arrayIndex b.1).getD 0

instance : DecidableRel (@indexBefore α) := fun _ _ => inferInstanceAs (Decidable (_ ≤ _))

instance : Std.Total (@indexBefore α) := ⟨fun _ _ => Nat.le_total _ _⟩

instance : IsTrans (JsString × α) indexBefore := ⟨fun _ _ _ => Nat.le_trans⟩

/-- `OrdinaryOwnPropertyKeys`: array indices in ascending order, then the other keys in
the order of their definition. -/
def orderMembers (ms : List (JsString × α)) : List (JsString × α) :=
  (ms.filter fun m => (arrayIndex m.1).isSome).insertionSort indexBefore ++
    ms.filter fun m => (arrayIndex m.1).isNone

/-- The order in which `Array.prototype.sort` puts keys: by code units. -/
def keyBefore (a b : JsString × α) : Prop := a.1 ≤ b.1

instance : DecidableRel (@keyBefore α) := fun _ _ => inferInstanceAs (Decidable (_ ≤ _))

/-- The first key may be enumerated before the second. -/
def EnumeratedBefore (a b : JsString) : Prop :=
  match arrayIndex a, arrayIndex b with
  | some i, some j => i ≤ j
  | none, some _ => False
  | _, none => True

instance : DecidableRel EnumeratedBefore := fun a b =>
  match h : arrayIndex a, h' : arrayIndex b with
  | some i, some j => decidable_of_iff (i ≤ j) (by rw [EnumeratedBefore, h, h'])
  | none, some _ => isFalse (by rw [EnumeratedBefore, h, h']; exact id)
  | none, none => isTrue (by rw [EnumeratedBefore, h, h']; trivial)
  | some _, none => isTrue (by rw [EnumeratedBefore, h, h']; trivial)

/-- Keys are different and in enumeration order. -/
def InOwnOrder (keys : List JsString) : Prop := keys.Nodup ∧ keys.Pairwise EnumeratedBefore

theorem setMember_of_not_mem {k : JsString} {a : α} {ms : List (JsString × α)}
    (h : k ∉ ms.map Prod.fst) : setMember k a ms = ms ++ [(k, a)] := by
  induction ms with
  | nil => rfl
  | cons m ms ih =>
    simp only [List.map_cons, List.mem_cons, not_or] at h
    rw [setMember, if_neg (Ne.symm h.1), ih h.2, List.cons_append]

theorem keys_setMember (k : JsString) (a : α) (ms : List (JsString × α)) :
    (setMember k a ms).map Prod.fst =
      if k ∈ ms.map Prod.fst then ms.map Prod.fst else ms.map Prod.fst ++ [k] := by
  induction ms with
  | nil => rfl
  | cons m ms ih =>
    by_cases hm : m.1 = k
    · simp [setMember, hm]
    · rw [setMember, if_neg hm, List.map_cons, ih, List.map_cons]
      by_cases hk : k ∈ ms.map Prod.fst
      · rw [if_pos hk, if_pos (by simp [hk])]
      · rw [if_neg hk, if_neg (by
          intro hmem
          rcases List.mem_cons.mp hmem with h | h
          · exact hm h.symm
          · exact hk h), List.cons_append]

/-- With different keys every member is found under its own. -/
theorem lookup_of_mem {κ : Type} [BEq κ] [LawfulBEq κ] {ms : List (κ × α)}
    (h : (ms.map Prod.fst).Nodup) {m : κ × α} (hm : m ∈ ms) : ms.lookup m.1 = some m.2 := by
  induction ms with
  | nil => cases hm
  | cons n ms ih =>
    obtain ⟨k, a⟩ := n
    rw [List.map_cons, List.nodup_cons] at h
    rcases List.mem_cons.mp hm with rfl | hmem
    · exact List.lookup_cons_self
    · have hkey : m.1 ∈ ms.map Prod.fst := List.mem_map_of_mem hmem
      have hne : (m.1 == k) = false := by
        rw [beq_eq_false_iff_ne]
        intro hk
        exact h.1 (hk ▸ hkey)
      rw [List.lookup_cons, hne]
      exact ih h.2 hmem

/-- Defining a property keeps the keys different. -/
theorem nodup_setMember {ms : List (JsString × α)} (h : (ms.map Prod.fst).Nodup) (k : JsString)
    (a : α) : ((setMember k a ms).map Prod.fst).Nodup := by
  rw [keys_setMember]
  split
  · exact h
  · next hnot =>
    refine List.nodup_append.mpr ⟨h, by simp, ?_⟩
    rintro k' hk' _ hk rfl
    exact hnot (List.mem_singleton.mp hk ▸ hk')

/-- Properties defined one after another have different keys. -/
theorem defineMembers_nodup (ms : List (JsString × α)) :
    ((defineMembers ms).map Prod.fst).Nodup := by
  have hloop : ∀ own : List (JsString × α), (own.map Prod.fst).Nodup →
      ((ms.foldl (fun own m => setMember m.1 m.2 own) own).map Prod.fst).Nodup := by
    induction ms with
    | nil => exact fun own h => h
    | cons m ms ih => exact fun own h => ih _ (nodup_setMember h m.1 m.2)
  exact hloop [] (by simp)

/-- Different keys are defined in their order. -/
theorem defineMembers_of_nodup {ms : List (JsString × α)} (h : (ms.map Prod.fst).Nodup) :
    defineMembers ms = ms := by
  have hloop : ∀ own : List (JsString × α), ((own ++ ms).map Prod.fst).Nodup →
      ms.foldl (fun own m => setMember m.1 m.2 own) own = own ++ ms := by
    clear h
    induction ms with
    | nil => simp
    | cons m ms ih =>
      intro own hown
      have hnot : m.1 ∉ own.map Prod.fst := by
        intro hmem
        rw [List.map_append, List.nodup_append] at hown
        exact hown.2.2 _ hmem _ (by simp) rfl
      rw [List.foldl_cons, setMember_of_not_mem hnot, ih]
      · simp
      · simpa using hown
  exact hloop [] h

/-- Ordering members does not look at their values. -/
theorem orderMembers_map {β : Type} (f : α → β) (ms : List (JsString × α)) :
    orderMembers (ms.map fun m => (m.1, f m.2)) = (orderMembers ms).map fun m => (m.1, f m.2) := by
  have hsort := List.map_insertionSort (indexBefore (α := α)) (indexBefore (α := β))
    (fun m => (m.1, f m.2)) (ms.filter fun m => (arrayIndex m.1).isSome) fun _ _ _ _ => Iff.rfl
  rw [orderMembers, orderMembers, List.map_append, List.filter_map, List.filter_map, hsort]
  rfl

/-- Members in enumeration order stay where they are. -/
theorem orderMembers_of_inOwnOrder {ms : List (JsString × α)}
    (h : (ms.map Prod.fst).Pairwise EnumeratedBefore) : orderMembers ms = ms := by
  induction ms with
  | nil => rfl
  | cons m ms ih =>
    rw [List.map_cons, List.pairwise_cons] at h
    obtain ⟨hm, hms⟩ := h
    have hrest := ih hms
    cases hindex : arrayIndex m.1 with
    | none =>
      -- After a key that is no index there are no indices.
      have hnone : ∀ n ∈ ms, (arrayIndex n.1).isNone = true := by
        intro n hn
        have hbefore := hm n.1 (List.mem_map_of_mem hn)
        rw [EnumeratedBefore, hindex] at hbefore
        cases hn' : arrayIndex n.1 with
        | none => rfl
        | some j => rw [hn'] at hbefore; exact hbefore.elim
      have hsome : ms.filter (fun n => (arrayIndex n.1).isSome) = [] := by
        rw [List.filter_eq_nil_iff]
        intro n hn hsome
        have := hnone n hn
        rw [Option.isNone_iff_eq_none] at this
        simp [this] at hsome
      rw [orderMembers, List.filter_cons, List.filter_cons, hindex]
      simp only [Option.isSome_none, Bool.false_eq_true, if_false, Option.isNone_none, if_true, hsome,
        List.insertionSort_nil, List.nil_append]
      rw [List.filter_eq_self.mpr hnone]
    | some i =>
      rw [orderMembers, List.filter_cons, List.filter_cons, hindex]
      simp only [Option.isSome_some, if_true, Option.isNone_some, Bool.false_eq_true, if_false,
        List.insertionSort_cons]
      rw [orderMembers] at hrest
      have hle : ∀ n ∈ (ms.filter fun n => (arrayIndex n.1).isSome).insertionSort indexBefore,
          indexBefore m n := by
        intro n hn
        rw [List.mem_insertionSort, List.mem_filter] at hn
        have hbefore := hm n.1 (List.mem_map_of_mem hn.1)
        obtain ⟨j, hj⟩ := Option.isSome_iff_exists.mp hn.2
        rw [EnumeratedBefore, hindex, hj] at hbefore
        simpa [indexBefore, hindex, hj] using hbefore
      generalize (ms.filter fun n => (arrayIndex n.1).isSome).insertionSort indexBefore = sorted
        at hle hrest ⊢
      have hinsert : sorted.orderedInsert indexBefore m = m :: sorted := by
        cases sorted with
        | nil => rfl
        | cons n sorted => rw [List.orderedInsert_cons, if_pos (hle n (by simp))]
      rw [hinsert, List.cons_append, hrest]

theorem orderMembers_perm (ms : List (JsString × α)) : (orderMembers ms).Perm ms := by
  have hsplit : (ms.filter (fun m => (arrayIndex m.1).isSome) ++
      ms.filter fun m => !(arrayIndex m.1).isSome).Perm ms := List.filter_append_perm _ ms
  have hnone : (fun m : JsString × α => (arrayIndex m.1).isNone) =
      fun m => !(arrayIndex m.1).isSome := by
    funext m
    cases arrayIndex m.1 <;> rfl
  rw [orderMembers, hnone]
  exact ((List.perm_insertionSort _ _).append_right _).trans hsplit

/-- Ordering puts the members in enumeration order. -/
theorem orderMembers_pairwise (ms : List (JsString × α)) :
    ((orderMembers ms).map Prod.fst).Pairwise EnumeratedBefore := by
  rw [List.pairwise_map, orderMembers, List.pairwise_append]
  refine ⟨?_, ?_, ?_⟩
  · have hsorted := List.pairwise_insertionSort indexBefore
      (ms.filter fun m => (arrayIndex m.1).isSome)
    have hall : ∀ n ∈ (ms.filter fun m => (arrayIndex m.1).isSome).insertionSort indexBefore,
        (arrayIndex n.1).isSome = true := by
      intro n hn
      rw [List.mem_insertionSort, List.mem_filter] at hn
      exact hn.2
    refine hsorted.imp_of_mem ?_
    intro a b ha hb hab
    obtain ⟨i, hi⟩ := Option.isSome_iff_exists.mp (hall a ha)
    obtain ⟨j, hj⟩ := Option.isSome_iff_exists.mp (hall b hb)
    simpa [EnumeratedBefore, indexBefore, hi, hj] using hab
  · rw [List.pairwise_iff_getElem]
    intro i j hi hj _
    have hnone := (List.mem_filter.mp (List.getElem_mem hj)).2
    rw [Option.isNone_iff_eq_none] at hnone
    rw [EnumeratedBefore, hnone]
    cases arrayIndex _ <;> trivial
  · intro a ha b hb
    have hnone := (List.mem_filter.mp hb).2
    rw [Option.isNone_iff_eq_none] at hnone
    rw [EnumeratedBefore, hnone]
    cases arrayIndex a.1 <;> trivial

end Members

/-- The value a JSON document denotes: duplicate keys are merged and keys reordered. -/
def own : Plain → Plain :=
  .fold .null .bool .num .str .arr fun ms => .obj (orderMembers (defineMembers ms))

/-- Every object lists its properties as the language enumerates them. -/
def OwnOrdered : Plain → Prop :=
  Json.fold True (fun _ => True) (fun _ => True) (fun _ => True) (fun ps => ∀ p ∈ ps, p)
    (fun ps => InOwnOrder (ps.map Prod.fst) ∧ ∀ p ∈ ps, p.2)

@[simp] theorem own_arr (vs : List Plain) : own (.arr vs) = .arr (vs.map own) := by
  simp [own]

@[simp] theorem own_obj (ms : List (JsString × Plain)) :
    own (.obj ms) = .obj (orderMembers (defineMembers (ms.map fun m => (m.1, own m.2)))) := by
  simp [own]

/-- Members in enumeration order stay where they are. -/
theorem own_obj_of_inOwnOrder {ms : List (JsString × Plain)} (h : InOwnOrder (ms.map Prod.fst)) :
    own (.obj ms) = .obj (ms.map fun m => (m.1, own m.2)) := by
  have hkeys : (ms.map fun m => (m.1, own m.2)).map Prod.fst = ms.map Prod.fst := by
    rw [List.map_map]
    rfl
  rw [own_obj, defineMembers_of_nodup (hkeys ▸ h.1), orderMembers_of_inOwnOrder (hkeys ▸ h.2)]

@[simp] theorem ownOrdered_arr {vs : List Plain} :
    OwnOrdered (.arr vs) ↔ ∀ v ∈ vs, OwnOrdered v := by
  simp only [OwnOrdered, Json.fold_arr, List.mem_map, forall_exists_index, and_imp,
    forall_apply_eq_imp_iff₂]

@[simp] theorem ownOrdered_obj {ms : List (JsString × Plain)} :
    OwnOrdered (.obj ms) ↔ InOwnOrder (ms.map Prod.fst) ∧ ∀ m ∈ ms, OwnOrdered m.2 := by
  simp only [OwnOrdered, Json.fold_obj, List.mem_map, forall_exists_index, and_imp,
    forall_apply_eq_imp_iff₂, List.map_map, Function.comp_def]

/-- A value whose objects are in order denotes itself. -/
theorem own_eq_self {v : Plain} (h : OwnOrdered v) : own v = v := by
  induction v using Json.induct with
  | null => rfl
  | bool b => rfl
  | num n => rfl
  | str s => rfl
  | arr vs ih =>
    rw [ownOrdered_arr] at h
    rw [own_arr, List.map_congr_left fun v hv => ih v hv (h v hv), List.map_id']
  | obj ms ih =>
    rw [ownOrdered_obj] at h
    have hmap : (ms.map fun m => (m.1, own m.2)) = ms := by
      rw [List.map_congr_left fun m hm => by rw [ih m hm (h.2 m hm)], List.map_id']
    rw [own_obj, hmap, defineMembers_of_nodup h.1.1, orderMembers_of_inOwnOrder h.1.2]

theorem mem_of_mem_setMember {α : Type} {k : JsString} {a : α} {ms : List (JsString × α)}
    {m : JsString × α} (h : m ∈ setMember k a ms) : m = (k, a) ∨ m ∈ ms := by
  induction ms with
  | nil => exact .inl (List.mem_singleton.mp h)
  | cons n ms ih =>
    rw [setMember] at h
    split at h
    · rcases List.mem_cons.mp h with h | h
      · exact .inl h
      · exact .inr (List.mem_cons_of_mem _ h)
    · rcases List.mem_cons.mp h with h | h
      · exact .inr (h ▸ List.mem_cons_self)
      · rcases ih h with h | h
        · exact .inl h
        · exact .inr (List.mem_cons_of_mem _ h)

/-- The other properties stay. -/
theorem mem_setMember_of_ne {α : Type} {k : JsString} {a : α} {ms : List (JsString × α)}
    {m : JsString × α} (hm : m ∈ ms) (hk : m.1 ≠ k) : m ∈ setMember k a ms := by
  induction ms with
  | nil => cases hm
  | cons n ms ih =>
    rw [setMember]
    rcases List.mem_cons.mp hm with rfl | hm
    · rw [if_neg hk]
      exact List.mem_cons_self
    · split
      · exact List.mem_cons_of_mem _ hm
      · exact List.mem_cons_of_mem _ (ih hm)

/-- Defining properties invents none. -/
theorem mem_of_mem_defineMembers {α : Type} {ms : List (JsString × α)} {m : JsString × α}
    (h : m ∈ defineMembers ms) : m ∈ ms := by
  have hloop : ∀ own : List (JsString × α),
      m ∈ ms.foldl (fun own m => setMember m.1 m.2 own) own → m ∈ own ∨ m ∈ ms := by
    clear h
    induction ms with
    | nil => exact fun own h => .inl h
    | cons n ms ih =>
      intro own h
      rw [List.foldl_cons] at h
      rcases ih _ h with h | h
      · rcases mem_of_mem_setMember h with rfl | h
        · exact .inr (by simp)
        · exact .inl h
      · exact .inr (List.mem_cons_of_mem _ h)
  exact (hloop [] h).resolve_left (by simp)

/-- The value a document denotes has its objects in order. -/
theorem ownOrdered_own (v : Plain) : OwnOrdered (own v) := by
  induction v using Json.induct with
  | null => trivial
  | bool b => trivial
  | num n => trivial
  | str s => trivial
  | arr vs ih =>
    rw [own_arr, ownOrdered_arr]
    intro v hv
    obtain ⟨w, hw, rfl⟩ := List.mem_map.mp hv
    exact ih w hw
  | obj ms ih =>
    rw [own_obj, ownOrdered_obj]
    refine ⟨⟨?_, orderMembers_pairwise _⟩, ?_⟩
    · exact ((orderMembers_perm _).map Prod.fst).nodup_iff.mpr (defineMembers_nodup _)
    · intro m hm
      have hdefined := mem_of_mem_defineMembers ((orderMembers_perm _).subset hm)
      obtain ⟨n, hn, rfl⟩ := List.mem_map.mp hdefined
      exact ih n hn

/-! ## Serialising -/

/-- A number as JSON has it: without a sign on zero, and `null` when it is not finite. -/
def jsonNumber : JsNumber → Plain
  | .finite q h => .num (.finite q h)
  | .negZero => .num (.ofNat 0)
  | .nan => .null
  | .infinity _ => .null

/-- A plain value as JSON has it. -/
def jsonImage : Plain → Plain := .fold .null .bool jsonNumber .str .arr .obj

/-- What `JSON.stringify` makes of a leaf: it throws, or gives a value or nothing. -/
def JsLeaf.toJson : JsLeaf → Option (Option Plain)
  | number n => some (some (jsonNumber n))
  | undefined => some none
  | custom result => some (result.map jsonImage)
  | unserializable => none

/-- What `JSON.stringify` makes of a value. In an array nothing becomes `null`, in an
object it drops the member. -/
def toJson : JsValue → Option (Option Plain) :=
  Json.fold (some (some .null)) (fun b => some (some (.bool b))) JsLeaf.toJson
    (fun s => some (some (.str s)))
    (fun rs => (rs.mapM id).map fun vs => some (.arr (vs.map (·.getD .null))))
    (fun rs => (rs.mapM fun m : JsString × Option (Option Plain) =>
        m.2.map fun v => (m.1, v)).map fun ms =>
      some (.obj (ms.filterMap fun m => m.2.map fun v => (m.1, v))))

/-- A plain value as a general one. -/
def ofPlain : Plain → JsValue := .fold .null .bool (fun n => .num (.number n)) .str .arr .obj

/-- The text of a plain value. -/
def jsonText (gap : Text) (v : Plain) : Text := (jsonImage v).write numberText gap []

/-- `JSON.stringify(value, null, gap)`. -/
def stringify (gap : Text) (v : JsValue) : Option (Option Text) :=
  (toJson v).map (·.map fun j => j.write numberText gap [])

/-- `JSON.parse`. -/
def parseJson (t : Text) : Option Plain := (Json.parse readNumber t).map own

/-- The objects of a document are in order. -/
theorem ownOrdered_of_parseJson {t : Text} {v : Plain} (h : parseJson t = some v) :
    OwnOrdered v := by
  obtain ⟨w, -, rfl⟩ := Option.map_eq_some_iff.mp h
  exact ownOrdered_own w

/-- All numbers have JSON literals that denote them. -/
def JsonNumbers : Plain → Prop := Json.AllNumbers fun n => ∃ q h, n = .finite q h

theorem jsonNumbers_jsonNumber (n : JsNumber) : JsonNumbers (jsonNumber n) := by
  cases n with
  | nan => trivial
  | infinity b => trivial
  | negZero => exact ⟨0, _, JsNumber.ofNat_eq (by norm_num)⟩
  | finite q h => exact ⟨q, h, rfl⟩

@[simp] theorem jsonImage_arr (vs : List Plain) : jsonImage (.arr vs) = .arr (vs.map jsonImage) := by
  simp [jsonImage]

@[simp] theorem jsonImage_obj (ms : List (JsString × Plain)) :
    jsonImage (.obj ms) = .obj (ms.map fun m => (m.1, jsonImage m.2)) := by
  simp [jsonImage]

/-- The JSON image of a value has literals for its numbers. -/
theorem jsonNumbers_jsonImage (v : Plain) : JsonNumbers (jsonImage v) := by
  induction v using Json.induct with
  | null => trivial
  | bool b => trivial
  | num n => exact jsonNumbers_jsonNumber n
  | str s => trivial
  | arr vs ih =>
    rw [jsonImage_arr, JsonNumbers, Json.allNumbers_arr]
    intro v hv
    obtain ⟨w, hw, rfl⟩ := List.mem_map.mp hv
    exact ih w hw
  | obj ms ih =>
    rw [jsonImage_obj, JsonNumbers, Json.allNumbers_obj]
    intro m hm
    obtain ⟨n, hn, rfl⟩ := List.mem_map.mp hm
    exact ih n hn

/-- Merging and ordering members keeps the numbers. -/
theorem JsonNumbers.own {v : Plain} (h : JsonNumbers v) : JsonNumbers (own v) := by
  induction v using Json.induct with
  | null => trivial
  | bool b => trivial
  | num n => exact h
  | str s => trivial
  | arr vs ih =>
    rw [JsonNumbers, Json.allNumbers_arr] at h
    rw [own_arr, JsonNumbers, Json.allNumbers_arr, List.forall_mem_map]
    exact fun v hv => ih v hv (h v hv)
  | obj ms ih =>
    rw [JsonNumbers, Json.allNumbers_obj] at h
    rw [own_obj, JsonNumbers, Json.allNumbers_obj]
    intro m hm
    have hdefined := mem_of_mem_defineMembers ((orderMembers_perm _).subset hm)
    obtain ⟨n, hn, rfl⟩ := List.mem_map.mp hdefined
    exact ih n hn (h n hn)

theorem toJson_arr (vs : List JsValue) : toJson (.arr vs) =
    ((vs.map toJson).mapM id).map fun rs => some (.arr (rs.map (·.getD .null))) :=
  Json.fold_arr vs

theorem toJson_obj (ms : List (JsString × JsValue)) : toJson (.obj ms) =
    ((ms.map fun m => (m.1, toJson m.2)).mapM fun m : JsString × Option (Option Plain) =>
        m.2.map fun v => (m.1, v)).map fun rs =>
      some (.obj (rs.filterMap fun m => m.2.map fun v => (m.1, v))) :=
  Json.fold_obj ms

/-- Results that are all there are collected. -/
theorem mapM_eq_some_map {α β γ : Type} {e : α → β} {f : β → Option γ} {g : α → γ} {l : List α}
    (h : ∀ a ∈ l, f (e a) = some (g a)) : (l.map e).mapM f = some (l.map g) := by
  induction l with
  | nil => rfl
  | cons a l ih =>
    rw [List.map_cons, List.mapM_cons, h a (by simp), ih fun b hb => h b (by simp [hb])]
    rfl

theorem exists_of_mem_mapM {α β : Type} {f : α → Option β} {l : List α} {l' : List β} {b : β}
    (h : l.mapM f = some l') (hb : b ∈ l') : ∃ a ∈ l, f a = some b := by
  induction l generalizing l' with
  | nil =>
    rw [List.mapM_nil] at h
    cases h
    cases hb
  | cons a l ih =>
    rw [List.mapM_cons] at h
    cases ha : f a with
    | none => rw [ha] at h; cases h
    | some b' =>
      cases hl : l.mapM f with
      | none => rw [ha, hl] at h; cases h
      | some bs =>
        rw [ha, hl] at h
        obtain rfl : b' :: bs = l' := Option.some.inj h
        rcases List.mem_cons.mp hb with rfl | hb
        · exact ⟨a, by simp, ha⟩
        · obtain ⟨a', ha', hfa'⟩ := ih hl hb
          exact ⟨a', by simp [ha'], hfa'⟩

/-- The results of a list that has them all. -/
theorem getElem?_of_mapM {α β : Type} {f : α → Option β} {l : List α} {l' : List β}
    (h : l.mapM f = some l') (i : ℕ) : l'[i]? = l[i]?.bind f := by
  induction l generalizing l' i with
  | nil =>
    cases h
    rfl
  | cons a l ih =>
    rw [List.mapM_cons] at h
    obtain ⟨b, hb, h⟩ := Option.bind_eq_some_iff.mp h
    obtain ⟨bs, hbs, h⟩ := Option.bind_eq_some_iff.mp h
    cases h
    cases i with
    | zero => exact hb.symm
    | succ i => exact ih hbs i

/-- What `JSON.stringify` makes of a value has literals for its numbers. -/
theorem jsonNumbers_of_toJson {v : JsValue} {j : Plain} (h : toJson v = some (some j)) :
    JsonNumbers j := by
  induction v using Json.induct generalizing j with
  | null => cases h; trivial
  | bool b => cases h; trivial
  | num leaf =>
    cases leaf with
    | number n =>
      cases h
      exact jsonNumbers_jsonNumber n
    | undefined => cases h
    | custom result =>
      cases result with
      | none => cases h
      | some v =>
        cases h
        exact jsonNumbers_jsonImage v
    | unserializable => cases h
  | str s => cases h; trivial
  | arr vs ih =>
    rw [toJson_arr] at h
    obtain ⟨rs, hrs, h⟩ := Option.map_eq_some_iff.mp h
    obtain rfl := Option.some.inj h
    rw [JsonNumbers, Json.allNumbers_arr]
    intro w hw
    obtain ⟨r, hr, rfl⟩ := List.mem_map.mp hw
    obtain ⟨r', hr', hid⟩ := exists_of_mem_mapM hrs hr
    obtain ⟨v, hv, rfl⟩ := List.mem_map.mp hr'
    cases r with
    | none => trivial
    | some w => exact ih v hv hid
  | obj ms ih =>
    rw [toJson_obj] at h
    obtain ⟨rs, hrs, h⟩ := Option.map_eq_some_iff.mp h
    obtain rfl := Option.some.inj h
    rw [JsonNumbers, Json.allNumbers_obj]
    intro n hn
    obtain ⟨r, hr, hmember⟩ := List.mem_filterMap.mp hn
    obtain ⟨w, hw, rfl⟩ := Option.map_eq_some_iff.mp hmember
    obtain ⟨r', hr', hresult⟩ := exists_of_mem_mapM hrs hr
    obtain ⟨m, hm, rfl⟩ := List.mem_map.mp hr'
    obtain ⟨w', hw', rfl⟩ := Option.map_eq_some_iff.mp hresult
    exact ih m hm (hw'.trans (congrArg some hw))

/-- A value whose numbers have literals is its own JSON image. -/
theorem jsonImage_eq_self {v : Plain} (h : JsonNumbers v) : jsonImage v = v := by
  induction v using Json.induct with
  | null => rfl
  | bool b => rfl
  | num n =>
    obtain ⟨q, hq, rfl⟩ : ∃ q h, n = .finite q h := h
    rfl
  | str s => rfl
  | arr vs ih =>
    rw [JsonNumbers, Json.allNumbers_arr] at h
    rw [jsonImage_arr, List.map_congr_left fun v hv => ih v hv (h v hv), List.map_id']
  | obj ms ih =>
    rw [JsonNumbers, Json.allNumbers_obj] at h
    rw [jsonImage_obj, List.map_congr_left fun m hm => by rw [ih m hm (h m hm)], List.map_id']

/-- Taking the JSON image keeps the order of properties. -/
theorem OwnOrdered.jsonImage {v : Plain} (h : OwnOrdered v) : OwnOrdered (jsonImage v) := by
  induction v using Json.induct with
  | null => trivial
  | bool b => trivial
  | num n => cases n <;> trivial
  | str s => trivial
  | arr vs ih =>
    rw [ownOrdered_arr] at h
    rw [jsonImage_arr, ownOrdered_arr]
    intro v hv
    obtain ⟨w, hw, rfl⟩ := List.mem_map.mp hv
    exact ih w hw (h w hw)
  | obj ms ih =>
    rw [ownOrdered_obj] at h
    rw [jsonImage_obj, ownOrdered_obj, List.map_map]
    refine ⟨h.1, ?_⟩
    intro m hm
    obtain ⟨n, hn, rfl⟩ := List.mem_map.mp hm
    exact ih n hn (h.2 n hn)

theorem writesBack_finite {q : ℚ} (h : roundToDouble q = some q) :
    Json.WritesBack numberText readNumber (.finite q h) := by
  have hback := readsBack_numberText h
  simp only [readsBack, Bool.and_eq_true, decide_eq_true_eq, List.all_eq_true] at hback
  obtain ⟨⟨hne, hchars⟩, hread⟩ := hback
  exact ⟨by simpa using hne, hchars, hread⟩

/-- Numbers with literals are read back. -/
theorem writesBack_of_jsonNumbers {v : Plain} (h : JsonNumbers v) :
    v.AllNumbers (Json.WritesBack numberText readNumber) := by
  refine Json.AllNumbers.imp ?_ h
  rintro _ ⟨q, hq, rfl⟩
  exact writesBack_finite hq

/-- **Round trip.** A written document denotes the value it was written from, with its
properties in enumeration order. -/
theorem parseJson_write {gap : Text} (hgap : Json.Blank gap) {v : Plain} (h : JsonNumbers v) :
    parseJson (v.write numberText gap []) = some (own v) := by
  rw [parseJson, Json.parse_write hgap (writesBack_of_jsonNumbers h), Option.map_some]

theorem parseJson_jsonText_own {gap : Text} (hgap : Json.Blank gap) (v : Plain) :
    parseJson (jsonText gap v) = some (own (jsonImage v)) :=
  parseJson_write hgap (jsonNumbers_jsonImage v)

/-- The text of a plain value denotes its JSON image. -/
theorem parseJson_jsonText {gap : Text} (hgap : Json.Blank gap) {v : Plain} (h : OwnOrdered v) :
    parseJson (jsonText gap v) = some (jsonImage v) := by
  rw [parseJson_jsonText_own hgap, own_eq_self h.jsonImage]

/-- Values with the same text have the same JSON image. -/
theorem jsonText_inj {gap : Text} (hgap : Json.Blank gap) {v w : Plain} :
    jsonText gap v = jsonText gap w ↔ jsonImage v = jsonImage w := by
  constructor
  · exact Json.write_injective hgap (writesBack_of_jsonNumbers (jsonNumbers_jsonImage v))
      (writesBack_of_jsonNumbers (jsonNumbers_jsonImage w))
  · intro h
    rw [jsonText, jsonText, h]

/-- A document reads as the value its JSON tree denotes. -/
theorem parseJson_stringify {gap : Text} (hgap : Json.Blank gap) {v : JsValue} {t : Text}
    (h : stringify gap v = some (some t)) :
    ∃ j, toJson v = some (some j) ∧ parseJson t = some (own j) := by
  rw [stringify] at h
  obtain ⟨r, hr, h⟩ := Option.map_eq_some_iff.mp h
  obtain ⟨j, rfl, rfl⟩ := Option.map_eq_some_iff.mp h
  exact ⟨j, hr, parseJson_write hgap (jsonNumbers_of_toJson hr)⟩

/-- A plain value is serialised as its image. -/
theorem toJson_ofPlain (v : Plain) : toJson (ofPlain v) = some (some (jsonImage v)) := by
  induction v using Json.induct with
  | null => rfl
  | bool b => rfl
  | num n => rfl
  | str s => rfl
  | arr vs ih =>
    have hmap : ((vs.map ofPlain).map toJson).mapM id =
        some (vs.map fun v => some (jsonImage v)) := by
      rw [List.map_map]
      exact mapM_eq_some_map ih
    have hofPlain : ofPlain (.arr vs) = .arr (vs.map ofPlain) := Json.fold_arr vs
    rw [hofPlain, toJson_arr, hmap, Option.map_some, List.map_map, jsonImage_arr]
    rfl
  | obj ms ih =>
    have hmap : ((ms.map fun m => (m.1, ofPlain m.2)).map fun m => (m.1, toJson m.2)).mapM
        (fun m : JsString × Option (Option Plain) => m.2.map fun v => (m.1, v)) =
        some (ms.map fun m => (m.1, some (jsonImage m.2))) := by
      rw [List.map_map]
      refine mapM_eq_some_map fun m hm => ?_
      rw [Function.comp_apply, ih m hm]
      rfl
    have hkept : (ms.map fun m => (m.1, some (jsonImage m.2))).filterMap
        (fun m : JsString × Option Plain => m.2.map fun v => (m.1, v)) =
        ms.map fun m => (m.1, jsonImage m.2) := by
      rw [List.filterMap_map]
      exact congrFun (List.filterMap_eq_map (f := fun m : JsString × Plain => (m.1, jsonImage m.2))) ms
    have hofPlain : ofPlain (.obj ms) = .obj (ms.map fun m => (m.1, ofPlain m.2)) :=
      Json.fold_obj ms
    rw [hofPlain, toJson_obj, hmap, Option.map_some, hkept, jsonImage_obj]

/-! ## Documents in strings -/

/-- The document a string holds. A lone surrogate reads as its escape does, except after a
backslash, where it is no escape. -/
def documentText : Bool → JsString → Option Text
  | _, [] => some []
  | escaped, u :: rest =>
    if isHighSurrogate u then
      match rest with
      | v :: rest' =>
        if isLowSurrogate v then (documentText false rest').map (charOfPair u v :: ·)
        else if escaped then none
        else (documentText false (v :: rest')).map (Json.escapeUnit u ++ ·)
      | [] => if escaped then none else some (Json.escapeUnit u)
    else if isLowSurrogate u then
      if escaped then none else (documentText false rest).map (Json.escapeUnit u ++ ·)
    else (documentText (!escaped && u == 0x5C) rest).map (charOfUnit u :: ·)

/-- `JSON.parse` of a string. -/
def parseString (s : JsString) : Option Plain := (documentText false s).bind parseJson

theorem documentText_ofText (t : Text) : ∀ escaped, documentText escaped (ofText t) = some t := by
  induction t with
  | nil => exact fun _ => rfl
  | cons c t ih =>
    intro escaped
    rw [ofText_cons]
    obtain ⟨u, hunits, hhi, hlo, hc⟩ | ⟨hi, lo, hunits, hhi, hlo, hc⟩ := unitsOfChar_cases c
    · rw [hunits, List.singleton_append, documentText.eq_def]
      simp only [hhi, hlo, Bool.false_eq_true, if_false, ih, Option.map_some, hc]
    · rw [hunits, List.cons_append, List.singleton_append, documentText.eq_def]
      simp only [hhi, hlo, if_true, ih, Option.map_some, hc]

theorem parseString_ofText (t : Text) : parseString (ofText t) = parseJson t := by
  rw [parseString, documentText_ofText, Option.bind_some]

end Ecma
