import MemphisOS.Chain.RecordVerify
import MemphisOS.Ecma.Digests

/-!
# Records that are kept

Leaving properties out and arranging the others give the same in either order, so the sorted copy
of a record is written as what is read back, sorted, unless an object in it has a JSON form of its
own that differs from that of its copy.
-/

namespace MemphisOS.Chain

open Ecma Sequences

variable {host : ChainHost} {call : RecordCall} {blocks : List ChainBlock}

/-! ## Arranging what is kept -/

section Kept

variable {α β : Type} {f : JsString × α → Option (JsString × β)}

theorem filter_filterMap_keys (p : JsString → Bool) (hf : ∀ m m', f m = some m' → m'.1 = m.1)
    (ms : List (JsString × α)) :
    (ms.filterMap f).filter (fun m => p m.1) = (ms.filter fun m => p m.1).filterMap f := by
  induction ms with
  | nil => rfl
  | cons m ms ih =>
    cases hm : f m with
    | none =>
      rw [List.filterMap_cons_none hm, ih, List.filter_cons]
      split
      · rw [List.filterMap_cons_none hm]
      · rfl
    | some m' =>
      rw [List.filterMap_cons_some hm, List.filter_cons, List.filter_cons, hf m m' hm, ih]
      split
      · rw [List.filterMap_cons_some hm]
      · rfl

theorem orderMembers_filterMap (hf : ∀ m m', f m = some m' → m'.1 = m.1)
    (ms : List (JsString × α)) : orderMembers (ms.filterMap f) = (orderMembers ms).filterMap f := by
  rw [orderMembers, orderMembers, List.filterMap_append,
    insertionSort_filterMap (s := @indexBefore β),
    filter_filterMap_keys (fun k => (arrayIndex k).isSome) hf,
    filter_filterMap_keys (fun k => (arrayIndex k).isNone) hf]
  intro a b a' b' ha hb
  rw [indexBefore, indexBefore, hf a a' ha, hf b b' hb]

/-- The comparison of names orders them. -/
structure ChainHost.Ordered (host : ChainHost) : Prop where
  total : ∀ a b, host.localeLe a b = true ∨ host.localeLe b a = true
  trans : ∀ a b c, host.localeLe a b = true → host.localeLe b c = true → host.localeLe a c = true

theorem arrange_filterMap (hhost : host.Ordered) (hf : ∀ m m', f m = some m' → m'.1 = m.1)
    (ms : List (JsString × α)) :
    arrange host (ms.filterMap f) = (arrange host ms).filterMap f := by
  have htotal : Std.Total (@LocaleOrder host α) := ⟨fun a b => hhost.total a.1 b.1⟩
  have htrans : IsTrans (JsString × α) (LocaleOrder host) :=
    ⟨fun a b c => hhost.trans a.1 b.1 c.1⟩
  rw [arrange, arrange, ← orderMembers_filterMap hf,
    insertionSort_filterMap (s := @LocaleOrder host β)]
  intro a b a' b' ha hb
  rw [LocaleOrder, LocaleOrder, hf a a' ha, hf b b' hb]

end Kept

/-! ## Members -/

/-- What is kept of a member. -/
def keptMember (m : JsString × JsTree) : Option (JsString × Plain) :=
  (m.2.written.getD none).map (m.1, ·)

theorem keptMember_fst (m : JsString × JsTree) (m' : JsString × Plain)
    (h : keptMember m = some m') : m'.1 = m.1 := by
  obtain ⟨v, -, rfl⟩ := Option.map_eq_some_iff.mp h
  rfl

/-- What is written of members is what is kept of each. -/
theorem writtenMembers_eq_filterMap {members : List (JsString × JsTree)}
    (h : ∀ m ∈ members, ∃ w, m.2.written = some w) :
    writtenMembers members = some (members.filterMap keptMember) := by
  induction members with
  | nil => rfl
  | cons m members ih =>
    obtain ⟨k, t⟩ := m
    obtain ⟨w, hw⟩ := h (k, t) List.mem_cons_self
    dsimp only at hw
    rw [writtenMembers, hw, Option.bind_some, ih fun m hm => h m (List.mem_cons_of_mem _ hm),
      Option.map_some]
    cases w with
    | none => rw [List.filterMap_cons_none (by rw [keptMember, hw]; rfl)]; rfl
    | some v => rw [List.filterMap_cons_some (b := (k, v)) (by rw [keptMember, hw]; rfl)]; rfl

theorem written_of_writtenMembers {members : List (JsString × JsTree)}
    {ms : List (JsString × Plain)} (h : writtenMembers members = some ms) :
    ∀ m ∈ members, ∃ w, m.2.written = some w := by
  induction members generalizing ms with
  | nil => exact fun m hm => absurd hm List.not_mem_nil
  | cons m members ih =>
    obtain ⟨k, t⟩ := m
    rw [writtenMembers] at h
    obtain ⟨w, hw, h⟩ := Option.bind_eq_some_iff.mp h
    obtain ⟨rest, hrest, -⟩ := Option.map_eq_some_iff.mp h
    exact List.forall_mem_cons.mpr ⟨⟨w, hw⟩, ih hrest⟩

/-- Members of different names that are kept under their names are kept alike exactly if each
is. -/
theorem filterMap_eq_iff {α β : Type} {f g : JsString × α → Option (JsString × β)}
    (hf : ∀ m m', f m = some m' → m'.1 = m.1) (hg : ∀ m m', g m = some m' → m'.1 = m.1)
    {ms : List (JsString × α)} (hkeys : (ms.map Prod.fst).Nodup) :
    ms.filterMap f = ms.filterMap g ↔ ∀ m ∈ ms, f m = g m := by
  constructor
  · intro h
    induction ms with
    | nil => exact fun m hm => absurd hm List.not_mem_nil
    | cons m ms ih =>
      rw [List.map_cons, List.nodup_cons] at hkeys
      -- a member that only one keeps would have the name of a later one
      have hlater {f : JsString × α → Option (JsString × β)}
          (hf : ∀ m m', f m = some m' → m'.1 = m.1) {m' : JsString × β} (hm' : m'.1 = m.1)
          {rest : List (JsString × β)} : ms.filterMap f ≠ m' :: rest := by
        intro heq
        obtain ⟨a, ha, hfa⟩ := List.mem_filterMap.mp (heq ▸ List.mem_cons_self)
        exact hkeys.1 (hm' ▸ hf a m' hfa ▸ List.mem_map_of_mem ha)
      cases hfm : f m with
      | none =>
        cases hgm : g m with
        | none =>
          rw [List.filterMap_cons_none hfm, List.filterMap_cons_none hgm] at h
          exact List.forall_mem_cons.mpr ⟨hfm.trans hgm.symm, ih hkeys.2 h⟩
        | some m' =>
          rw [List.filterMap_cons_none hfm, List.filterMap_cons_some hgm] at h
          exact absurd h (hlater hf (hg m m' hgm))
      | some m' =>
        cases hgm : g m with
        | none =>
          rw [List.filterMap_cons_some hfm, List.filterMap_cons_none hgm] at h
          exact absurd h.symm (hlater hg (hf m m' hfm))
        | some m'' =>
          rw [List.filterMap_cons_some hfm, List.filterMap_cons_some hgm] at h
          obtain ⟨rfl, hrest⟩ := List.cons.inj h
          exact List.forall_mem_cons.mpr ⟨hfm.trans hgm.symm, ih hkeys.2 hrest⟩
  · exact List.filterMap_congr

/-! ## Values of the language -/

mutual

/-- The properties of an object have different names, in the order the language gives them. -/
def OwnOrder : JsTree → Prop
  | .arr items => OwnOrderItems items
  | .obj members => InOwnOrder (members.map Prod.fst) ∧ OwnOrderMembers members
  | _ => True

def OwnOrderItems : List JsTree → Prop
  | [] => True
  | t :: ts => OwnOrder t ∧ OwnOrderItems ts

def OwnOrderMembers : List (JsString × JsTree) → Prop
  | [] => True
  | (_, t) :: ms => OwnOrder t ∧ OwnOrderMembers ms

end

/-! ## Forms -/

section Forms

variable (host)

/-- What is read back of a value, sorted. -/
def sortedForm (t : JsTree) : Written := t.written.map (·.map fun v => sortValue host (own v))

/-- An item an array is written with `null` for. -/
def IsNullItem (t : JsTree) : Prop := t.written.map (·.getD .null) = some .null

mutual

/-- Each object with a JSON form of its own is written, but for the order of names, as its sorted
copy is. In an array nothing and `null` are the same. -/
def FormKept : JsTree → Prop
  | .arr items => FormKeptItems items
  | .obj members => FormKeptMembers members
  | .custom members json ofCopy => (sortTree host (.custom members json ofCopy)).written =
      sortedForm host (.custom members json ofCopy)
  | _ => True

def FormKeptItems : List JsTree → Prop
  | [] => True
  | t :: ts => (FormKept t ∨ IsNullItem t ∧ IsNullItem (sortTree host t)) ∧ FormKeptItems ts

def FormKeptMembers : List (JsString × JsTree) → Prop
  | [] => True
  | (_, t) :: ms => FormKept t ∧ FormKeptMembers ms

end

end Forms

theorem sortedForm_eq {t : JsTree} {w : Option Plain} (h : t.written = some w) :
    sortedForm host t = some (w.map fun v => sortValue host (own v)) := by
  rw [sortedForm, h]
  rfl

theorem formKeptMembers_iff {members : List (JsString × JsTree)} :
    FormKeptMembers host members ↔ ∀ m ∈ members, FormKept host m.2 := by
  induction members with
  | nil => exact iff_of_true (by rw [FormKeptMembers]; trivial) (List.forall_mem_nil _)
  | cons m members ih => rw [FormKeptMembers, ih, List.forall_mem_cons]

theorem isNullItem_iff {t : JsTree} {w : Option Plain} (h : t.written = some w) :
    IsNullItem t ↔ w.getD .null = .null := by
  rw [IsNullItem, h, Option.map_some, Option.some.injEq]

theorem sortValue_own_eq_null {v : Plain} : sortValue host (own v) = .null ↔ v = .null := by
  cases v with
  | null => exact iff_of_true rfl rfl
  | bool b => exact iff_of_false (fun h => by cases h) (fun h => by cases h)
  | num n => exact iff_of_false (fun h => by cases h) (fun h => by cases h)
  | str s => exact iff_of_false (fun h => by cases h) (fun h => by cases h)
  | arr vs =>
    rw [own_arr, sortValue_arr]
    exact iff_of_false (fun h => by cases h) (fun h => by cases h)
  | obj ms =>
    rw [own_obj, sortValue_obj]
    exact iff_of_false (fun h => by cases h) (fun h => by cases h)

/-- An item is written alike exactly if its form is kept or nothing but `null` is. -/
theorem item_eq_iff {w w' : Option Plain} : w'.getD .null =
    sortValue host (own (w.getD .null)) ↔
      w' = w.map (fun v => sortValue host (own v)) ∨
        w.getD .null = .null ∧ w'.getD .null = .null := by
  cases w with
  | none =>
    cases w' with
    | none => exact iff_of_true rfl (.inl rfl)
    | some v' => exact ⟨fun h => .inr ⟨rfl, h⟩, fun h => h.elim (fun h => by cases h) And.right⟩
  | some v =>
    cases w' with
    | none =>
      exact ⟨fun h => .inr ⟨sortValue_own_eq_null.mp h.symm, rfl⟩,
        fun h => h.elim (fun h => by cases h) fun h => (sortValue_own_eq_null.mpr h.1).symm⟩
    | some v' =>
      constructor
      · intro h
        exact .inl (congrArg some h)
      · rintro (h | ⟨hv, hv'⟩)
        · exact Option.some.inj h
        · exact hv'.trans (sortValue_own_eq_null.mpr hv).symm

/-- The sorted copy of an object is written as what is kept, sorted, exactly if each member is. -/
theorem written_sortTree_obj (hhost : host.Ordered) {members : List (JsString × JsTree)}
    (horder : InOwnOrder (members.map Prod.fst)) {ms : List (JsString × Plain)}
    (hms : writtenMembers members = some ms)
    (hcopies : ∀ m ∈ members, ∃ w, (sortTree host m.2).written = some w) :
    (sortTree host (.obj members)).written = sortedForm host (.obj members) ↔
      ∀ m ∈ members, (sortTree host m.2).written = sortedForm host m.2 := by
  have hwritten := written_of_writtenMembers hms
  have hkept : ms = members.filterMap keptMember := by
    have heq := writtenMembers_eq_filterMap hwritten
    rw [hms] at heq
    exact Option.some.inj heq
  have hsorted : writtenMembers ((arrange host members).map fun m => (m.1, sortTree host m.2)) =
      some ((arrange host members).filterMap fun m => keptMember (m.1, sortTree host m.2)) := by
    rw [writtenMembers_eq_filterMap]
    · rw [List.filterMap_map]
      rfl
    · intro copy hcopy
      obtain ⟨m, hm, rfl⟩ := List.mem_map.mp hcopy
      exact hcopies m ((arrange_perm members).mem_iff.mp hm)
  have hback : (arrange host ms).map (fun m => (m.1, sortValue host (own m.2))) =
      (arrange host members).filterMap fun m =>
        (keptMember m).map fun m => (m.1, sortValue host (own m.2)) := by
    rw [hkept, arrange_filterMap hhost keptMember_fst, List.map_filterMap]
  have hown : own (.obj ms) = .obj (ms.map fun m => (m.1, own m.2)) := by
    have hsublist := keys_writtenMembers hms
    exact own_obj_of_inOwnOrder ⟨horder.1.sublist hsublist, horder.2.sublist hsublist⟩
  have hform : sortedForm host (.obj members) =
      some (some (.obj ((arrange host ms).map fun m => (m.1, sortValue host (own m.2))))) := by
    rw [sortedForm_eq (w := some (.obj ms)) (by rw [JsTree.written, hms]; rfl), Option.map_some,
      hown, sortValue_obj_eq, arrange_map, List.map_map]
    rfl
  have hkeys : ((arrange host members).map Prod.fst).Nodup :=
    ((arrange_perm members).map Prod.fst).nodup_iff.mpr horder.1
  have hmember (m : JsString × JsTree) (hm : m ∈ members) :
      keptMember (m.1, sortTree host m.2) =
          (keptMember m).map (fun m => (m.1, sortValue host (own m.2))) ↔
        (sortTree host m.2).written = sortedForm host m.2 := by
    obtain ⟨w, hw⟩ := hwritten m hm
    obtain ⟨w', hw'⟩ := hcopies m hm
    rw [keptMember, keptMember, hw, hw', sortedForm_eq hw, Option.some.injEq]
    cases w <;> cases w' <;> simp
  rw [hform, hback, sortTree_obj, JsTree.written, hsorted, Option.map_some, Option.some.injEq,
    Option.some.injEq, Json.obj.injEq, filterMap_eq_iff _ _ hkeys]
  · constructor
    · intro h m hm
      exact (hmember m hm).mp (h m ((arrange_perm members).mem_iff.mpr hm))
    · intro h m hm
      have hm := (arrange_perm members).mem_iff.mp hm
      exact (hmember m hm).mpr (h m hm)
  · exact fun m m' h => keptMember_fst (m.1, sortTree host m.2) m' h
  · intro m m' h
    obtain ⟨kept, hkept, rfl⟩ := Option.map_eq_some_iff.mp h
    exact keptMember_fst m kept hkept

mutual

/-- **Sorted copies.** The sorted copy of a value is written as what is read back, sorted, exactly
if each object with a JSON form of its own keeps it. -/
theorem written_sortTree_iff_formKept (hhost : host.Ordered) : ∀ (t : JsTree) (w w' : Option Plain),
    OwnOrder t → t.written = some w → (sortTree host t).written = some w' →
    ((sortTree host t).written = sortedForm host t ↔ FormKept host t)
  | .null, _, _, _, _, _ => iff_of_true rfl trivial
  | .bool _, _, _, _, _, _ => iff_of_true rfl trivial
  | .num n, _, _, _, _, _ => iff_of_true (by cases n <;> rfl) trivial
  | .str _, _, _, _, _, _ => iff_of_true rfl trivial
  | .undefined, _, _, _, _, _ => iff_of_true rfl trivial
  | .unserializable, _, _, _, _, _ => iff_of_true rfl trivial
  | .arr items, w, w', hitems, h, h' => by
    rw [OwnOrder] at hitems
    rw [JsTree.written] at h
    obtain ⟨vs, hvs, rfl⟩ := Option.map_eq_some_iff.mp h
    rw [sortTree, JsTree.written] at h'
    obtain ⟨vs', hvs', rfl⟩ := Option.map_eq_some_iff.mp h'
    rw [FormKept, ← writtenItems_iff_formKeptItems hhost items vs vs' hitems hvs hvs', sortTree,
      sortedForm, JsTree.written, JsTree.written, hvs, hvs']
    simp only [Option.map_some, Option.some.injEq, own_arr, sortValue_arr, List.map_map,
      Json.arr.injEq]
    rfl
  | .obj members, w, w', hmembers, h, h' => by
    rw [OwnOrder] at hmembers
    rw [JsTree.written] at h
    obtain ⟨ms, hms, rfl⟩ := Option.map_eq_some_iff.mp h
    rw [sortTree_obj, JsTree.written] at h'
    obtain ⟨ms', hms', -⟩ := Option.map_eq_some_iff.mp h'
    have hcopies : ∀ m ∈ members, ∃ w, (sortTree host m.2).written = some w := fun m hm =>
      written_of_writtenMembers hms' (m.1, sortTree host m.2)
        (List.mem_map_of_mem ((arrange_perm members).mem_iff.mpr hm))
    rw [written_sortTree_obj hhost hmembers.1 hms hcopies, FormKept]
    exact writtenMembers_iff_formKeptMembers hhost members hmembers.2
      (written_of_writtenMembers hms) hcopies
  | .custom _ _ _, _, _, _, _, _ => by
    rw [FormKept]

theorem writtenItems_iff_formKeptItems (hhost : host.Ordered) : ∀ (ts : List JsTree)
    (vs vs' : List Plain), OwnOrderItems ts → writtenItems ts = some vs →
    writtenItems (sortItems host ts) = some vs' →
    (vs' = vs.map (fun v => sortValue host (own v)) ↔ FormKeptItems host ts)
  | [], vs, vs', _, h, h' => by
    rw [writtenItems] at h
    rw [sortItems, writtenItems] at h'
    cases h
    cases h'
    exact iff_of_true rfl trivial
  | t :: ts, vs, vs', hitems, h, h' => by
    rw [OwnOrderItems] at hitems
    rw [writtenItems] at h
    obtain ⟨w, hw, h⟩ := Option.bind_eq_some_iff.mp h
    obtain ⟨rest, hrest, rfl⟩ := Option.map_eq_some_iff.mp h
    rw [sortItems, writtenItems] at h'
    obtain ⟨w', hw', h'⟩ := Option.bind_eq_some_iff.mp h'
    obtain ⟨rest', hrest', rfl⟩ := Option.map_eq_some_iff.mp h'
    rw [FormKeptItems, ← writtenItems_iff_formKeptItems hhost ts rest rest' hitems.2 hrest hrest',
      ← written_sortTree_iff_formKept hhost t w w' hitems.1 hw hw', isNullItem_iff hw,
      isNullItem_iff hw', hw', sortedForm_eq hw, Option.some.injEq, ← item_eq_iff, List.map_cons,
      List.cons.injEq]

theorem writtenMembers_iff_formKeptMembers (hhost : host.Ordered) :
    ∀ (members : List (JsString × JsTree)), OwnOrderMembers members →
    (∀ m ∈ members, ∃ w, m.2.written = some w) →
    (∀ m ∈ members, ∃ w, (sortTree host m.2).written = some w) →
    ((∀ m ∈ members, (sortTree host m.2).written = sortedForm host m.2) ↔
      FormKeptMembers host members)
  | [], _, _, _ => iff_of_true (List.forall_mem_nil _) trivial
  | (k, t) :: members, hmembers, hwritten, hcopies => by
    rw [OwnOrderMembers] at hmembers
    obtain ⟨⟨w, hw⟩, hwritten⟩ := List.forall_mem_cons.mp hwritten
    obtain ⟨⟨w', hw'⟩, hcopies⟩ := List.forall_mem_cons.mp hcopies
    rw [FormKeptMembers, List.forall_mem_cons,
      ← written_sortTree_iff_formKept hhost t w w' hmembers.1 hw hw',
      ← writtenMembers_iff_formKeptMembers hhost members hmembers.2 hwritten hcopies]

end

/-! ## Appending, then verifying -/

/-- The record is written as an object, and each object in it with a JSON form of its own keeps it
in its sorted copy. Otherwise the sorted block must be written as the record, which is then taken
for a block of the older format. -/
def RecordCall.Kept (call : RecordCall) (host : ChainHost) (blocks : List ChainBlock) : Prop :=
  ∃ v ms, call.data.written = some (some v) ∧ own v = .obj ms ∧
    (FormKept host call.data ∨
      (sortTree host (.obj (call.content blocks))).written = some (some (.obj ms)))

/-- The record is hashed as it is read back exactly if it is kept. -/
theorem rehashed_iff_kept (hhost : host.Ordered) (horder : OwnOrder call.data) {canonical : Text}
    (hcanonical : call.canonical host blocks = some (some canonical)) :
    call.Rehashed host blocks ↔ call.Kept host blocks := by
  obtain ⟨w, hw, -, -⟩ := JsTree.stringify_eq_some hcanonical
  rw [sortTree_obj, JsTree.written] at hw
  obtain ⟨ms', hms', -⟩ := Option.map_eq_some_iff.mp hw
  obtain ⟨w', hw'⟩ := written_of_writtenMembers hms' (js "data", sortTree host call.data)
    (List.mem_map.mpr ⟨(js "data", call.data),
      (arrange_perm _).mem_iff.mpr (by simp [RecordCall.content]), rfl⟩)
  have hform {v : Plain} {ms : List (JsString × Plain)} (hv : call.data.written = some (some v))
      (hown : own v = .obj ms) :
      (sortTree host call.data).written = some (some (sortValue host (.obj ms))) ↔
        FormKept host call.data := by
    rw [← written_sortTree_iff_formKept hhost call.data _ w' horder hv hw', sortedForm_eq hv,
      Option.map_some, hown]
  constructor
  · rintro ⟨v, ms, hv, hown, h⟩
    exact ⟨v, ms, hv, hown, h.imp_left (hform hv hown).mp⟩
  · rintro ⟨v, ms, hv, hown, h⟩
    exact ⟨v, ms, hv, hown, h.imp_left (hform hv hown).mpr⟩

/-- **Appending, then verifying.** A directory that is verified, and to which a record is appended,
is verified with one block more exactly if the new file goes last among those of the directory and
the record is kept. -/
theorem verify_append_iff {dir dir' : Dir} {n : ℕ} (hsha : Function.Injective host.sha256)
    (hhost : host.Ordered) (horder : OwnOrder call.data)
    (hnames : (fileNames dir).Nodup) (hlength : dir.length + 1 < 2 ^ 53)
    (hverify : verifyChainIntegrity host (listing.readdir dir) = .ok n)
    (hread : readAndValidateChainBlocks host (listing.readdir dir) = .ok blocks)
    (happend : appendBlock host listing call dir = some dir') :
    verifyChainIntegrity host (listing.readdir dir') = .ok (n + 1) ↔
      listing.Follows dir blocks ∧ call.Kept host blocks := by
  obtain ⟨canonical, -, hcanonical, -⟩ := appendBlock_eq_some hread happend
  rw [verify_iff_rehashed hsha hnames hlength hverify hread happend,
    rehashed_iff_kept hhost horder hcanonical]

/-! ## Samples -/

/-- Some texts that are hashed, with their digests. -/
def sampleDigests : List (Text × Text) :=
  [(sampleText, "6c557b817ef6acedddd906c0df81367a7a7d7baf305619a931b76ffab0be1ecf".toList),
    ("\x7b\"type\":\"journal\",\"content\":\"hello\"\x7d".toList,
      "ec5c949c495f787cb63c200c75d375249456be2f6c76ed60a0affc8ae85b72fc".toList),
    (("\x7b\"chain\":\"journal\",\"data\":\x7b\"at\":\x7b\x7d\x7d,\"index\":1," ++
      "\"prev_hash\":\"0000000000000000000000000000000000000000000000000000000000000000\"," ++
      "\"timestamp\":\"1970-01-01T00:00:01.000Z\"\x7d").toList,
      "5b3eeb1211c4a9720771d33bbde7f2ac5328d3a4bf8743f835452d93533f6985".toList),
    (("\x7b\"chain\":\"journal\",\"data\":\x7b\"at\":\"1970-01-01T00:00:00.000Z\"\x7d," ++
      "\"index\":1," ++
      "\"prev_hash\":\"0000000000000000000000000000000000000000000000000000000000000000\"," ++
      "\"timestamp\":\"1970-01-01T00:00:01.000Z\"\x7d").toList,
      "151103f65c59ffa78a750376e5928cbdb9d8dd0e60c753eed3f969dff9872266".toList),
    ("\x7b\"at\":\"1970-01-01T00:00:00.000Z\"\x7d".toList,
      "890fc6bf9eddaa6742a1be28654ab185fd5646420fcb37fceca1defd5e89b9ab".toList)]

/-- A host that has the digests of these texts. -/
def recordHost : ChainHost :=
  { sampleHost with sha256 := tableHash sampleDigests }

theorem recordHost_injective : Function.Injective recordHost.sha256 :=
  tableHash_injective (by decide) (by simp [sampleDigests])

theorem recordHost_ordered : recordHost.Ordered := by
  constructor
  · intro a b
    simpa [recordHost, sampleHost] using List.le_total a b
  · intro a b c hab hbc
    simp only [recordHost, sampleHost, decide_eq_true_eq] at hab hbc ⊢
    exact List.le_trans hab hbc

/-- Names in the order of their code points. -/
def nameListing : Listing where
  le a b := decide (@LE.le (List Char) List.instLE a b)
  total a b := by simpa using List.le_total a b
  trans a b c hab hbc := by
    rw [decide_eq_true_eq] at hab hbc ⊢
    exact List.le_trans hab hbc
  antisymm a b hab hba := by
    rw [decide_eq_true_eq] at hab hba
    exact List.le_antisymm hab hba

/-- The first append of a record. -/
def recordCall (data : JsTree) : RecordCall where
  chainName := js "journal"
  data := data
  pid := 7
  date := 1000
  now := 1000
  statFails _ := false
  unlinkFails _ := false

/-- A record that is written is appended to an empty directory. -/
theorem exists_appendBlock_nil {data : JsTree} {canonical text : Text}
    (hcanonical : (recordCall data).canonical recordHost [] = some (some canonical))
    (hpayload : (recordCall data).payload [] (ofText (recordHost.sha256 canonical)) =
      some (some text)) :
    ∃ dir', appendBlock recordHost nameListing (recordCall data) [] = some dir' :=
  exists_appendBlock List.not_mem_nil rfl hcanonical hpayload

/-- A record with a property that is not written. -/
def looseRecord : JsTree :=
  .obj [(js "type", .str (js "journal")), (js "content", .str (js "hello")),
    (js "reply", .undefined)]

theorem canonical_looseRecord :
    (recordCall looseRecord).canonical recordHost [] = some (some sampleText) := by
  decide +kernel

/-- The record without its unwritten property is stored and verified. -/
theorem verify_append_iff_sample :
    ∃ dir', appendBlock recordHost nameListing (recordCall looseRecord) [] = some dir' ∧
      verifyChainIntegrity recordHost (nameListing.readdir dir') = .ok 1 := by
  obtain ⟨dir', happend⟩ := exists_appendBlock_nil canonical_looseRecord rfl
  have horder : OwnOrder looseRecord := by
    refine ⟨⟨by decide, by decide⟩, ?_⟩
    simp [OwnOrderMembers, OwnOrder]
  have hkept : (recordCall looseRecord).Kept recordHost [] := by
    refine ⟨.obj [(js "type", .str (js "journal")), (js "content", .str (js "hello"))],
      [(js "type", .str (js "journal")), (js "content", .str (js "hello"))], rfl, rfl, .inl ?_⟩
    simp [recordCall, looseRecord, FormKept, FormKeptMembers]
  have hnames : (fileNames []).Nodup := List.nodup_nil
  refine ⟨dir', happend, (verify_append_iff (n := 0) recordHost_injective recordHost_ordered horder
    hnames (by norm_num) rfl rfl happend).mpr ⟨⟨List.not_mem_nil, ?_⟩, hkept⟩⟩
  exact fun f hf => absurd hf List.not_mem_nil

/-- A record with a date. -/
def dateRecord : JsTree :=
  .obj [(js "at", .custom [] (some (some (.str (js "1970-01-01T00:00:00.000Z")))) none)]

/-- A record with a date is stored, and the chain is no longer verified. -/
theorem date_breaks_chain :
    verifyChainIntegrity recordHost (nameListing.readdir []) = .ok 0 ∧
      ∃ dir', appendBlock recordHost nameListing (recordCall dateRecord) [] = some dir' ∧
        verifyChainIntegrity recordHost (nameListing.readdir dir') ≠ .ok 1 := by
  obtain ⟨dir', happend⟩ := @exists_appendBlock_nil dateRecord _ _ rfl rfl
  have hnames : (fileNames []).Nodup := List.nodup_nil
  refine ⟨rfl, dir', happend, fun hverify => ?_⟩
  obtain ⟨-, v, ms, hv, hown, hdata | hlegacy⟩ := (verify_iff_rehashed (n := 0)
    recordHost_injective hnames (by norm_num) rfl rfl happend).mp hverify
  · -- the copy of the date is written as an object without members
    cases hv
    cases hown
    cases hdata
  · -- a block has more members than the record
    cases hv
    cases hown
    cases hlegacy

end MemphisOS.Chain
