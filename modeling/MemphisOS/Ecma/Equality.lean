import MemphisOS.Ecma.Value

/-!
# Deep equality

Plain values compared as trees whose objects are sets of properties: the order of
properties and the sign of zero do not count. Rearranging the properties of a value, as a
canonical form does, keeps it deeply equal.
-/

namespace Ecma

/-! ## Rearranging values -/

/-- Replace the numbers and rearrange the properties. -/
def reshape (number : JsNumber → Plain)
    (members : List (JsString × Plain) → List (JsString × Plain)) : Plain → Plain :=
  .fold .null .bool number .str .arr fun ms => .obj (members ms)

section Reshape

variable {number : JsNumber → Plain} {members : List (JsString × Plain) → List (JsString × Plain)}

theorem reshape_arr (vs : List Plain) :
    reshape number members (.arr vs) = .arr (vs.map (reshape number members)) :=
  Json.fold_arr vs

theorem reshape_obj (ms : List (JsString × Plain)) :
    reshape number members (.obj ms) =
      .obj (members (ms.map fun m => (m.1, reshape number members m.2))) :=
  Json.fold_obj ms

/-- Rearrangements that look at keys only are made at once. -/
theorem reshape_reshape {number' : JsNumber → Plain}
    {members' : List (JsString × Plain) → List (JsString × Plain)}
    (hmembers : ∀ (f : Plain → Plain) ms, (members ms).map (fun m => (m.1, f m.2)) =
      members (ms.map fun m => (m.1, f m.2))) (v : Plain) :
    reshape number' members' (reshape number members v) =
      reshape (fun n => reshape number' members' (number n)) (fun ms => members' (members ms)) v := by
  induction v using Json.induct with
  | null => rfl
  | bool b => rfl
  | num n => rfl
  | str s => rfl
  | arr vs ih =>
    rw [reshape_arr, reshape_arr, reshape_arr, List.map_map]
    exact congrArg Json.arr (List.map_congr_left ih)
  | obj ms ih =>
    rw [reshape_obj, reshape_obj, reshape_obj, hmembers, List.map_map]
    have hmap : ms.map ((fun m => (m.1, reshape number' members' m.2)) ∘
        fun m => (m.1, reshape number members m.2)) = ms.map fun m =>
          (m.1, reshape (fun n => reshape number' members' (number n))
            (fun ms => members' (members ms)) m.2) :=
      List.map_congr_left fun m hm => congrArg (Prod.mk m.1) (ih m hm)
    rw [hmap]

/-- Rearranging keeps the number of nodes. -/
theorem size_reshape (hnumber : ∀ n, (number n).size = 1) (hmembers : ∀ ms, (members ms).Perm ms)
    (v : Plain) : (reshape number members v).size = v.size := by
  induction v using Json.induct with
  | null => rfl
  | bool b => rfl
  | num n => exact hnumber n
  | str s => rfl
  | arr vs ih =>
    rw [reshape_arr, Json.size_arr, Json.size_arr, List.map_map]
    exact congrArg (fun ns : List ℕ => ns.sum + 1) (List.map_congr_left ih)
  | obj ms ih =>
    rw [reshape_obj, Json.size_obj, Json.size_obj, ((hmembers _).map _).sum_eq, List.map_map]
    exact congrArg (fun ns : List ℕ => ns.sum + 1) (List.map_congr_left ih)

theorem allNumbers_reshape {P : JsNumber → Prop} (hmembers : ∀ ms, (members ms).Perm ms)
    (v : Plain) : (reshape number members v).AllNumbers P ↔
      v.AllNumbers fun n => (number n).AllNumbers P := by
  induction v using Json.induct with
  | null => exact Iff.rfl
  | bool b => exact Iff.rfl
  | num n => exact Iff.rfl
  | str s => exact Iff.rfl
  | arr vs ih =>
    rw [reshape_arr, Json.allNumbers_arr, Json.allNumbers_arr, List.forall_mem_map]
    exact forall₂_congr ih
  | obj ms ih =>
    rw [reshape_obj, Json.allNumbers_obj, Json.allNumbers_obj]
    have hmem := fun m => (hmembers (ms.map fun m => (m.1, reshape number members m.2))).mem_iff
      (a := m)
    simp only [hmem, List.forall_mem_map]
    exact forall₂_congr ih

end Reshape

/-! ## Sorting by key -/

variable {α : Type}

instance : Std.Total (@keyBefore α) := ⟨fun a b => List.le_total a.1 b.1⟩

instance : IsTrans (JsString × α) keyBefore := ⟨fun _ _ _ => List.le_trans⟩

/-- Properties with different keys are sorted in one way. -/
theorem insertionSort_keyBefore {ms ns : List (JsString × α)} (h : ms.Perm ns)
    (hkeys : (ms.map Prod.fst).Nodup) : ms.insertionSort keyBefore = ns.insertionSort keyBefore := by
  have hms := List.perm_insertionSort keyBefore ms
  have hns := List.perm_insertionSort keyBefore ns
  refine List.Perm.eq_of_pairwise ?_ (List.pairwise_insertionSort keyBefore ms)
    (List.pairwise_insertionSort keyBefore ns) (hms.trans (h.trans hns.symm))
  intro a b ha hb hab hba
  exact List.inj_on_of_nodup_map hkeys (hms.mem_iff.mp ha) (h.mem_iff.mpr (hns.mem_iff.mp hb))
    (List.le_antisymm hab hba)

theorem filter_orderedInsert {P : JsString × α → Bool} {m : JsString × α}
    {ms : List (JsString × α)} (h : ms.Pairwise keyBefore) :
    (ms.orderedInsert keyBefore m).filter P =
      if P m then (ms.filter P).orderedInsert keyBefore m else ms.filter P := by
  induction ms with
  | nil =>
    rw [List.orderedInsert_nil, List.filter_cons]
    rfl
  | cons n ms ih =>
    obtain ⟨hn, hms⟩ := List.pairwise_cons.mp h
    by_cases hle : keyBefore m n
    · rw [List.orderedInsert_cons_of_le keyBefore ms hle, List.filter_cons]
      split
      · -- Nothing that is kept comes before the new element.
        cases hkept : (n :: ms).filter P with
        | nil => rfl
        | cons k rest =>
          have hk : k ∈ n :: ms := List.mem_of_mem_filter (hkept ▸ List.mem_cons_self)
          have hle' : keyBefore m k := by
            rcases List.mem_cons.mp hk with rfl | hk
            · exact hle
            · exact List.le_trans hle (hn k hk)
          rw [List.orderedInsert_cons_of_le keyBefore rest hle']
      · rfl
    · rw [List.orderedInsert_of_not_le keyBefore ms hle, List.filter_cons, List.filter_cons, ih hms]
      by_cases hPn : P n = true
      · rw [if_pos hPn, if_pos hPn]
        split
        · rw [List.orderedInsert_of_not_le keyBefore _ hle]
        · rfl
      · rw [if_neg hPn, if_neg hPn]

/-- What is kept is sorted alike before and after. -/
theorem filter_insertionSort (P : JsString × α → Bool) (ms : List (JsString × α)) :
    (ms.insertionSort keyBefore).filter P = (ms.filter P).insertionSort keyBefore := by
  induction ms with
  | nil => rfl
  | cons m ms ih =>
    rw [List.insertionSort_cons, filter_orderedInsert (List.pairwise_insertionSort keyBefore ms), ih,
      List.filter_cons]
    split
    · rw [List.insertionSort_cons]
    · rfl

/-! ## Deep equality -/

/-- The value with its properties sorted and without signs on zeros. -/
def unordered : Plain → Plain :=
  reshape (fun n => .num n.dropZeroSign) fun ms => ms.insertionSort keyBefore

/-- Deep equality. -/
def DeepEqual (v w : Plain) : Prop := unordered v = unordered w

theorem unordered_arr (vs : List Plain) : unordered (.arr vs) = .arr (vs.map unordered) :=
  reshape_arr vs

theorem unordered_obj (ms : List (JsString × Plain)) :
    unordered (.obj ms) =
      .obj ((ms.map fun m => (m.1, unordered m.2)).insertionSort keyBefore) :=
  reshape_obj ms

/-- A value with different keys stays deeply equal when its properties are rearranged and its
numbers replaced by equal ones. -/
theorem unordered_reshape {number : JsNumber → Plain}
    {members : List (JsString × Plain) → List (JsString × Plain)}
    (hmembers : ∀ ms, (members ms).Perm ms) {v : Plain} (hkeys : OwnOrdered v)
    (hnumbers : v.AllNumbers fun n => unordered (number n) = .num n.dropZeroSign) :
    unordered (reshape number members v) = unordered v := by
  induction v using Json.induct with
  | null => rfl
  | bool b => rfl
  | num n => exact hnumbers
  | str s => rfl
  | arr vs ih =>
    rw [ownOrdered_arr] at hkeys
    rw [Json.allNumbers_arr] at hnumbers
    rw [reshape_arr, unordered_arr, unordered_arr, List.map_map]
    exact congrArg Json.arr (List.map_congr_left fun v hv => ih v hv (hkeys v hv) (hnumbers v hv))
  | obj ms ih =>
    rw [ownOrdered_obj] at hkeys
    rw [Json.allNumbers_obj] at hnumbers
    rw [reshape_obj, unordered_obj, unordered_obj]
    have hperm := (hmembers (ms.map fun m => (m.1, reshape number members m.2))).map
      fun m => (m.1, unordered m.2)
    have hmap : (ms.map fun m => (m.1, reshape number members m.2)).map
        (fun m => (m.1, unordered m.2)) = ms.map fun m => (m.1, unordered m.2) := by
      rw [List.map_map]
      exact List.map_congr_left fun m hm =>
        congrArg (Prod.mk m.1) (ih m hm (hkeys.2 m hm) (hnumbers m hm))
    rw [hmap] at hperm
    refine congrArg Json.obj (insertionSort_keyBefore hperm ?_)
    have hnodup : ((ms.map fun m => (m.1, unordered m.2)).map Prod.fst).Nodup := by
      rw [List.map_map]
      exact hkeys.1.1
    exact (hperm.map Prod.fst).nodup_iff.mpr hnodup

/-- No number is infinite or NaN. -/
def FiniteNumbers : Plain → Prop := Json.AllNumbers fun n => n.isFinite = true

theorem FiniteNumbers.of_jsonNumbers {v : Plain} (h : JsonNumbers v) : FiniteNumbers v := by
  refine Json.AllNumbers.imp ?_ h
  rintro _ ⟨q, hq, rfl⟩
  rfl

/-- Serialising keeps finite values deeply equal. -/
theorem unordered_jsonImage {v : Plain} (hkeys : OwnOrdered v) (h : FiniteNumbers v) :
    unordered (jsonImage v) = unordered v := by
  refine unordered_reshape (fun _ => .refl _) hkeys (Json.AllNumbers.imp (fun n hn => ?_) h)
  cases n with
  | nan => cases hn
  | infinity negative => cases hn
  | negZero => exact congrArg Json.num (JsNumber.dropZeroSign_ofNat (by norm_num))
  | finite q hq => rfl

theorem DeepEqual.size_eq {v w : Plain} (h : DeepEqual v w) : v.size = w.size := by
  have hsize : ∀ v : Plain, (unordered v).size = v.size :=
    size_reshape (fun _ => rfl) (List.perm_insertionSort keyBefore)
  rw [← hsize v, ← hsize w, h]

/-- Deeply equal values are finite together. -/
theorem DeepEqual.finiteNumbers {v w : Plain} (h : DeepEqual v w) (hv : FiniteNumbers v) :
    FiniteNumbers w := by
  have hfinite : ∀ v : Plain, FiniteNumbers (unordered v) ↔
      v.AllNumbers fun n => n.dropZeroSign.isFinite = true :=
    allNumbers_reshape (List.perm_insertionSort keyBefore)
  have hsign : ∀ n : JsNumber, n.dropZeroSign.isFinite = true ↔ n.isFinite = true := by
    intro n
    cases n with
    | negZero => exact iff_of_true (JsNumber.isFinite_ofNat (by norm_num)) rfl
    | _ => exact Iff.rfl
  have hv' : FiniteNumbers (unordered v) :=
    (hfinite v).mpr (Json.AllNumbers.imp (fun n => (hsign n).mpr) hv)
  rw [h] at hv'
  exact Json.AllNumbers.imp (fun n => (hsign n).mp) ((hfinite w).mp hv')

end Ecma
