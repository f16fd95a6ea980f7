import MemphisOS.Ecma.Documents
import MemphisOS.Ecma.Equality
import MemphisOS.Sync.MergeAgain

/-!
# What an empty difference means

Texts of values are read back from the front, so that equal fingerprints have equal properties up
to what JSON and the order of members leave open. The fingerprint leaves out the hash of the
previous block, and the maps leave out all but the last block under a key.
-/

namespace MemphisOS.Sync

open Ecma

variable (host : SyncHost)

/-- Members in the order of `localeCompare`. -/
def sortMembers {α : Type} (members : List (JsString × α)) : List (JsString × α) :=
  members.mergeSort fun a b => host.localeCompare a.1 b.1 ≤ 0

/-- The value that is printed: as JSON has it, with the members of its objects sorted. -/
def sortedImage (value : Plain) : Plain := reshape .num (sortMembers host) (jsonImage value)

variable {host}

theorem sortMembers_map {α β : Type} (f : α → β) (members : List (JsString × α)) :
    sortMembers host (members.map fun m => (m.1, f m.2)) =
      (sortMembers host members).map fun m => (m.1, f m.2) := by
  rw [sortMembers, sortMembers, List.map_mergeSort]
  intro _ _ _ _
  rfl

theorem perm_sortMembers {α : Type} (members : List (JsString × α)) :
    (sortMembers host members).Perm members :=
  List.mergeSort_perm _ _

theorem sortedImage_arr (values : List Plain) :
    sortedImage host (.arr values) = .arr (values.map (sortedImage host)) := by
  rw [sortedImage, jsonImage_arr, reshape_arr, List.map_map]
  rfl

theorem sortedImage_obj (members : List (JsString × Plain)) : sortedImage host (.obj members) =
    .obj ((sortMembers host members).map fun m => (m.1, sortedImage host m.2)) := by
  have himages : (members.map fun m => (m.1, jsonImage m.2)).map
      (fun m => (m.1, reshape .num (sortMembers host) m.2)) =
        members.map fun m => (m.1, sortedImage host m.2) := List.map_map
  rw [sortedImage, jsonImage_obj, reshape_obj, himages, sortMembers_map]

theorem stableStringify_arr (values : List Plain) : stableStringify host (.arr values) =
    '[' :: Json.joinWith [','] (values.map (stableStringify host)) ++ [']'] :=
  Json.fold_arr values

theorem stableStringify_obj (members : List (JsString × Plain)) :
    stableStringify host (.obj members) = '{' :: Json.joinWith [',']
      ((sortMembers host members).map fun m =>
        Json.quote m.1 ++ ':' :: stableStringify host m.2) ++ ['}'] := by
  refine (Json.fold_obj members).trans ?_
  have hsort := @sortMembers_map host _ _ (stableStringify host) members
  have htexts := congrArg (fun entries => '{' :: Json.joinWith [',']
    (entries.map fun m : JsString × Text => Json.quote m.1 ++ ':' :: m.2) ++ ['}']) hsort
  rw [List.map_map] at htexts
  exact htexts

theorem bracket_without_gap (opening closing : Char) (parts : List Text) :
    Json.bracket [] [] opening closing parts =
      opening :: Json.joinWith [','] parts ++ [closing] := by
  rw [Json.bracket]
  split
  · next hparts =>
    rw [hparts]
    rfl
  · exact congrArg (· ++ [closing]) (List.append_nil _)

/-- `stableStringify` prints the sorted image. -/
theorem stableStringify_eq (value : Plain) :
    stableStringify host value = (sortedImage host value).write numberText [] [] := by
  induction value using Json.induct with
  | null => rfl
  | bool b => rfl
  | num n => cases n <;> rfl
  | str s => rfl
  | arr vs ih =>
    rw [stableStringify_arr, sortedImage_arr, Json.write_arr, bracket_without_gap, List.map_map,
      List.map_congr_left ih]
    rfl
  | obj ms ih =>
    rw [stableStringify_obj, sortedImage_obj, Json.write_obj, bracket_without_gap, List.map_map]
    have hmembers : ∀ m ∈ sortMembers host ms, Json.quote m.1 ++ ':' :: stableStringify host m.2 =
        Json.quote m.1 ++ Json.colon [] ++ (sortedImage host m.2).write numberText [] [] := by
      intro m hm
      rw [ih m ((perm_sortMembers ms).mem_iff.mp hm)]
      exact (List.append_assoc _ [':'] _).symm
    rw [List.map_congr_left hmembers]
    rfl

/-- Printed values have literals for their numbers. -/
theorem jsonNumbers_sortedImage (value : Plain) : JsonNumbers (sortedImage host value) :=
  (allNumbers_reshape perm_sortMembers _).mpr (jsonNumbers_jsonImage value)

/-- The printed value is the value, up to the order of members. -/
theorem unordered_sortedImage {value : Plain} (h : OwnOrdered value) :
    unordered (sortedImage host value) = unordered (jsonImage value) :=
  unordered_reshape perm_sortMembers h.jsonImage (Json.allNumbers_of_forall (fun _ => rfl) _)

/-! ## Reading texts from the front -/

/-- The text `undefined` is no JSON text. -/
theorem readValue_undefined (fuel : ℕ) (rest : Text) :
    Json.readValue readNumber (fuel + 1) ("undefined".toList ++ rest) = none := by
  simp [Json.readValue, Json.skipSpace, Json.isSpace, isNumberChar, readNumber, readLiteral, readSign,
    readInteger, spanDigits]

/-- Of two texts that continue after a property, the property and the rest are equal. -/
theorem propertyText_append_inj {v w : Option Plain} {r r' : Text} (hr : Json.Delimited r)
    (hr' : Json.Delimited r') (h : propertyText host v ++ r = propertyText host w ++ r') :
    v.map (sortedImage host) = w.map (sortedImage host) ∧ r = r' := by
  have hread : ∀ {value : Plain} {rest : Text} (fuel : ℕ), Json.Delimited rest →
      2 * (sortedImage host value).size ≤ fuel + 1 →
      Json.readValue readNumber fuel (stableStringify host value ++ rest) =
        some (sortedImage host value, rest) := by
    intro value rest fuel hrest hfuel
    rw [stableStringify_eq]
    have hgap : Json.Blank ([] : Text) := by simp [Json.Blank]
    exact Json.readsBack_of_allNumbers hgap
      (writesBack_of_jsonNumbers (jsonNumbers_sortedImage value)) [] [] rest fuel hgap hgap hrest hfuel
  cases v with
  | none =>
    cases w with
    | none => exact ⟨rfl, List.append_cancel_left h⟩
    | some w =>
      have hw := @hread w r' (2 * (sortedImage host w).size + 1) hr' (by omega)
      have hnone := readValue_undefined (2 * (sortedImage host w).size) r
      rw [show "undefined".toList ++ r = stableStringify host w ++ r' from h, hw] at hnone
      cases hnone
  | some v =>
    cases w with
    | none =>
      have hv := @hread v r (2 * (sortedImage host v).size + 1) hr (by omega)
      have hnone := readValue_undefined (2 * (sortedImage host v).size) r'
      rw [show "undefined".toList ++ r' = stableStringify host v ++ r from h.symm, hv] at hnone
      cases hnone
    | some w =>
      have hv := @hread v r (2 * (sortedImage host v).size + 2 * (sortedImage host w).size)
        hr (by omega)
      have hw := @hread w r' (2 * (sortedImage host v).size + 2 * (sortedImage host w).size)
        hr' (by omega)
      rw [show stableStringify host v ++ r = stableStringify host w ++ r' from h, hw] at hv
      obtain ⟨hvalue, hrest⟩ := Prod.mk.inj (Option.some.inj hv)
      exact ⟨congrArg some hvalue.symm, hrest.symm⟩

/-- The text of a member. -/
def memberText (host : SyncHost) (m : JsString × Option Plain) : Text :=
  Json.quote m.1 ++ ':' :: propertyText host m.2

/-- A member with its printed value. -/
def memberImage (host : SyncHost) (m : JsString × Option Plain) : JsString × Option Plain :=
  (m.1, m.2.map (sortedImage host))

/-- Members with the same keys and the same texts have the same printed values. -/
theorem memberTexts_inj {ms ns : List (JsString × Option Plain)}
    (hkeys : ms.map Prod.fst = ns.map Prod.fst)
    (h : Json.joinWith [','] (ms.map (memberText host)) ++ ['}'] =
      Json.joinWith [','] (ns.map (memberText host)) ++ ['}']) :
    ms.map (memberImage host) = ns.map (memberImage host) := by
  have hclose : Json.Delimited ['}'] := Json.delimited_cons (by decide) _
  have hcomma : ∀ t, Json.Delimited (',' :: t) := Json.delimited_cons (by decide)
  have hfirst : ∀ {m n : JsString × Option Plain} {r r' : Text}, m.1 = n.1 → Json.Delimited r →
      Json.Delimited r' → memberText host m ++ r = memberText host n ++ r' →
        memberImage host m = memberImage host n ∧ r = r' := by
    intro m n r r' hkey hr hr' htext
    rw [memberText, memberText, hkey, List.append_assoc, List.append_assoc] at htext
    obtain ⟨hvalue, hrest⟩ := propertyText_append_inj hr hr'
      (List.cons.inj (List.append_cancel_left htext)).2
    exact ⟨Prod.ext hkey hvalue, hrest⟩
  induction ms generalizing ns with
  | nil =>
    obtain rfl := List.map_eq_nil_iff.mp hkeys.symm
    rfl
  | cons m ms ih =>
    cases ns with
    | nil => cases hkeys
    | cons n ns =>
      obtain ⟨hkey, hkeys⟩ := List.cons.inj hkeys
      cases ms with
      | nil =>
        obtain rfl := List.map_eq_nil_iff.mp hkeys.symm
        rw [List.map_singleton, List.map_singleton, (hfirst hkey hclose hclose h).1]
      | cons m' ms =>
        cases ns with
        | nil => cases hkeys
        | cons n' ns =>
          simp only [List.map_cons, Json.joinWith, List.append_assoc] at h
          obtain ⟨hmember, hrest⟩ := hfirst hkey (hcomma _) (hcomma _) h
          exact List.cons_eq_cons.mpr ⟨hmember, ih hkeys (List.cons.inj hrest).2⟩

/-- Members with different keys in one order are equal when they are the same. -/
theorem eq_of_perm_of_keys {α : Type} {ms ns : List (JsString × α)} (hperm : ms.Perm ns)
    (hnodup : (ms.map Prod.fst).Nodup) (hkeys : ms.map Prod.fst = ns.map Prod.fst) : ms = ns := by
  refine List.ext_getElem hperm.length_eq fun i hi hi' => ?_
  have hkey : ms[i].1 = ns[i].1 := by
    have hget := congrArg (·[i]?) hkeys
    simpa [hi, hi'] using hget
  exact List.inj_on_of_nodup_map hnodup (List.getElem_mem hi)
    (hperm.mem_iff.mpr (List.getElem_mem hi')) hkey

/-! ## Blocks with one fingerprint -/

/-- The contents that a fingerprint shows: the index as JSON has it, the time, the hash, the chain,
and the data as JSON has it, up to the order of members. -/
structure SameContents (a b : Block) : Prop where
  index : a.index.map jsonNumber = b.index.map jsonNumber
  timestamp : a.timestamp = b.timestamp
  hash : a.hash = b.hash
  chain : a.chain = b.chain
  data : DeepEqual (jsonImage (a.data.getD (.obj []))) (jsonImage (b.data.getD (.obj [])))

variable {localBlocks remoteBlocks : List Block} {a b : Block}

theorem keys_fingerprintEntries (block : Block) : (fingerprintEntries block).map Prod.fst =
    [js "index", js "timestamp", js "hash", js "chain", js "data"] :=
  rfl

/-- Blocks with one fingerprint have the same printed properties. -/
theorem printed_of_blockFingerprint_eq (h : blockFingerprint host a = blockFingerprint host b) :
    (fingerprintEntries a).map (memberImage host) =
      (fingerprintEntries b).map (memberImage host) := by
  have htexts : ∀ block, blockFingerprint host block = '{' :: Json.joinWith [',']
      ((sortMembers host (fingerprintEntries block)).map (memberText host)) ++ ['}'] := by
    intro block
    have hsort := @sortMembers_map host _ _ (propertyText host) (fingerprintEntries block)
    have hentries := congrArg (fun entries => '{' :: Json.joinWith [',']
      (entries.map fun m : JsString × Text => Json.quote m.1 ++ ':' :: m.2) ++ ['}']) hsort
    rw [List.map_map] at hentries
    exact hentries
  have hsortedKeys : ∀ block, (sortMembers host (fingerprintEntries block)).map Prod.fst =
      ((fingerprintEntries block).map Prod.fst).mergeSort
        fun j k => host.localeCompare j k ≤ 0 := by
    intro block
    rw [sortMembers, List.map_mergeSort]
    intro _ _ _ _
    rfl
  rw [htexts, htexts] at h
  have hsorted := memberTexts_inj (by rw [hsortedKeys, hsortedKeys]; rfl) (List.cons.inj h).2
  have hkeys : ∀ block, ((fingerprintEntries block).map (memberImage host)).map Prod.fst =
      [js "index", js "timestamp", js "hash", js "chain", js "data"] := fun _ => rfl
  have hperm : ((fingerprintEntries a).map (memberImage host)).Perm
      ((fingerprintEntries b).map (memberImage host)) := by
    refine ((@perm_sortMembers host _ _).map _).symm.trans ?_
    rw [hsorted]
    exact (perm_sortMembers _).map _
  refine eq_of_perm_of_keys hperm ?_ ((hkeys a).trans (hkeys b).symm)
  rw [hkeys]
  decide

/-- **Blocks with one fingerprint have the same contents.** -/
theorem sameContents_of_blockFingerprint_eq (ha : ∀ value ∈ a.data, OwnOrdered value)
    (hb : ∀ value ∈ b.data, OwnOrdered value)
    (h : blockFingerprint host a = blockFingerprint host b) : SameContents a b := by
  have hprinted := printed_of_blockFingerprint_eq h
  simp only [fingerprintEntries, memberImage, List.map_cons, List.map_nil, List.cons.injEq,
    Prod.mk.injEq, true_and, and_true, Option.map_map, Option.map_some, Option.some.injEq]
    at hprinted
  obtain ⟨hindex, htimestamp, hhash, hchain, hdata⟩ := hprinted
  have hnumber : sortedImage host ∘ Json.num = jsonNumber := funext fun n => by cases n <;> rfl
  have hstring : Function.Injective (sortedImage host ∘ Json.str) := fun s t hst => by
    cases hst
    rfl
  have howned : ∀ {data : Option Plain}, (∀ value ∈ data, OwnOrdered value) →
      OwnOrdered (data.getD (.obj [])) := by
    intro data hdata
    cases data with
    | none => exact ownOrdered_obj.mpr ⟨⟨List.nodup_nil, .nil⟩, List.forall_mem_nil _⟩
    | some value => exact hdata value rfl
  rw [hnumber] at hindex
  refine ⟨hindex, Option.map_injective hstring htimestamp, Option.map_injective hstring hhash,
    Option.map_injective hstring hchain, ?_⟩
  rw [DeepEqual, ← @unordered_sortedImage host _ (howned ha), hdata,
    unordered_sortedImage (howned hb)]

/-! ## Empty differences -/

/-- The difference finds nothing. -/
def ChainDiffResult.Empty (diff : ChainDiffResult) : Prop :=
  diff.localOnly = [] ∧ diff.remoteOnly = [] ∧ diff.conflicts = []

/-- Both replicas have the same keys, and under each key their last blocks have the same
contents. -/
structure SameUnderKeys (host : SyncHost) (localBlocks remoteBlocks : List Block) : Prop where
  keys : ∀ key, key ∈ localBlocks.map (blockKey host) ↔ key ∈ remoteBlocks.map (blockKey host)
  contents : ∀ key a b, held host localBlocks.reverse key = some a →
    held host remoteBlocks.reverse key = some b → SameContents a b

theorem onlyIn_eq_nil {own other : List Block}
    (h : onlyIn (blockMap host own) (blockMap host other) = []) {key : JsString}
    (hkey : key ∈ own.map (blockKey host)) : key ∈ other.map (blockKey host) := by
  rw [onlyIn, List.map_eq_nil_iff, List.filter_eq_nil_iff] at h
  obtain ⟨entry, hentry, rfl⟩ := List.mem_map.mp (mem_keys_blockMap.mpr hkey)
  have hfound := h entry hentry
  rw [Bool.not_eq_true, Option.isNone_eq_false_iff] at hfound
  exact isSome_lookup_blockMap.mp hfound

/-- **Replicas without a difference are the same under their keys.** -/
theorem sameUnderKeys_of_empty (host : SyncHost) (localBlocks remoteBlocks : List Block)
    (hjson : ∀ block ∈ localBlocks ++ remoteBlocks, block.FromJson)
    (h : (detectChainDiff host localBlocks remoteBlocks).Empty) :
    SameUnderKeys host localBlocks remoteBlocks := by
  obtain ⟨hlocal, hremote, hconflicts⟩ := h
  refine ⟨fun key => ⟨onlyIn_eq_nil hlocal, onlyIn_eq_nil hremote⟩, fun key a b ha hb => ?_⟩
  have hmem : ∀ {blocks : List Block} {block : Block},
      held host blocks.reverse key = some block → block ∈ blocks := fun hheld =>
    List.mem_reverse.mp (List.mem_of_find?_eq_some hheld)
  have hread : ∀ block ∈ localBlocks ++ remoteBlocks, ∀ value ∈ block.data, OwnOrdered value :=
    fun block hblock => (hjson block hblock).data
  refine @sameContents_of_blockFingerprint_eq host a b
    (hread a (List.mem_append_left _ (hmem ha))) (hread b (List.mem_append_right _ (hmem hb))) ?_
  have hentry : (key, a) ∈ blockMap host localBlocks :=
    mem_of_lookup_eq_some ((lookup_blockMap localBlocks key).trans ha)
  have hfound : (blockMap host remoteBlocks).lookup key = some b :=
    (lookup_blockMap remoteBlocks key).trans hb
  have hnone := List.filterMap_eq_nil_iff.mp hconflicts (key, a) hentry
  rw [hfound, Option.bind_some, ite_eq_right_iff] at hnone
  by_contra hne
  exact Option.some_ne_none _ (hnone hne)

/-! ## What the difference does not see -/

/-- Single blocks with one key and one fingerprint do not differ. -/
theorem empty_singletons (hkey : blockKey host a = blockKey host b)
    (hfingerprint : blockFingerprint host a = blockFingerprint host b) :
    (detectChainDiff host [a] [b]).Empty := by
  have hmap : ∀ block, blockMap host [block] = [(blockKey host block, block)] := fun _ => rfl
  have hfound : ∀ block : Block, List.lookup (blockKey host b) [(blockKey host b, block)] =
      some block := fun _ => List.lookup_cons_self
  refine ⟨?_, ?_, ?_⟩
  · simp [detectChainDiff, onlyIn, hmap, hkey]
  · simp [detectChainDiff, onlyIn, hmap, hkey]
  · simp [detectChainDiff, hmap, hkey, hfingerprint]

theorem sameUnderKeys_of_empty_sample :
    SameUnderKeys sampleHost [sampleBlock 1 "content"] [sampleBlock 1 "content"] := by
  refine sameUnderKeys_of_empty sampleHost [sampleBlock 1 "content"] [sampleBlock 1 "content"] ?_
    (empty_singletons rfl rfl)
  exact List.forall_mem_cons.mpr ⟨fromJson_sampleBlock (by norm_num) "content",
    List.forall_mem_singleton.mpr (fromJson_sampleBlock (by norm_num) "content")⟩

/-- The sample with the hash of a previous block. -/
def chainedBlock (prevHash : String) : Block :=
  { sampleBlock 1 "content" with prevHash := some (js prevHash) }

/-- A block whose previous block is another one, and a block that is stored twice, make no
difference. -/
theorem no_difference :
    ((detectChainDiff sampleHost [chainedBlock "00"] [chainedBlock "01"]).Empty ∧
      ¬ ([chainedBlock "00"].map Block.prevHash).Perm ([chainedBlock "01"].map Block.prevHash)) ∧
    (detectChainDiff sampleHost [chainedBlock "00", chainedBlock "00"] [chainedBlock "00"]).Empty ∧
      ¬ [chainedBlock "00", chainedBlock "00"].Perm [chainedBlock "00"] := by
  have htwice : blockMap sampleHost [chainedBlock "00", chainedBlock "00"] =
      blockMap sampleHost [chainedBlock "00"] := setMember_eq_self List.lookup_cons_self
  refine ⟨⟨empty_singletons rfl rfl, fun hperm => ?_⟩, ?_, fun hperm => ?_⟩
  · have heq := List.perm_singleton.mp hperm
    exact absurd (js_inj.mp (Option.some.inj (List.singleton_inj.mp heq))) (by decide)
  · have hsame := @empty_singletons sampleHost (chainedBlock "00") (chainedBlock "00") rfl rfl
    unfold detectChainDiff at hsame ⊢
    rw [htwice]
    exact hsame
  · cases hperm.length_eq

end MemphisOS.Sync
