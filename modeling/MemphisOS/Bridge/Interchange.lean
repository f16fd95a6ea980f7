import MemphisOS.Bridge.Concurrency
import MemphisOS.Chain.Tamper

/-!
# Chains shared by both backends

Both backends of `appendBlock` keep their blocks in one directory. What one of them has written,
the other reads and continues.
-/

namespace MemphisOS.Bridge

open Ecma MemphisCore

/-- The backends of `getChainAdapterStatus`. -/
inductive Backend where
  | tsLegacy
  | rustNapi

def Backend.other : Backend → Backend
  | .tsLegacy => .rustNapi
  | .rustNapi => .tsLegacy

variable (host : BridgeHost) (chainAppend : Text → Text → Text)

/-- The append of the legacy backend, alone and without errors of the file system; the lock and the
temporary file are gone when it returns. -/
def legacyAppend (call : Chain.AppendCall) (date : ℤ) (dir : Chain.Dir) :
    Except JsString Chain.Dir :=
  let pruned := (Chain.pruneTrailingEmptyBlockFiles (fun _ => false) (fun _ => false) dir).foldl
    Chain.unlink dir
  match Chain.readAndValidateChainBlocks host.toChainHost pruned with
  | .ok blocks =>
    let block := call.block host.toChainHost blocks (isoText date)
    .ok (Chain.writeFile pruned (Chain.fileName block.index) block.payload)
  | .error message => .error (ofText message)

/-- The append of the native backend, alone and without errors of the file system. -/
def nativeAppend (call : Chain.AppendCall) (date : ℤ) (dir : Chain.Dir) :
    Except JsString Chain.Dir := do
  let chainBlocks := readChainBlocks dir
  let appended ← sendBlock host chainAppend chainBlocks
    (nextBlock host call.chainName call.data (isoText date) chainBlocks)
  return Chain.writeFile dir (blockFileName host appended) (payload appended)

def Backend.append : Backend → Chain.AppendCall → ℤ → Chain.Dir → Except JsString Chain.Dir
  | .tsLegacy => legacyAppend host
  | .rustNapi => nativeAppend host chainAppend

/-- The directories a number of appends of one backend leads to. -/
inductive WrittenBy (fs : Chain.FileSystem) (backend : Backend) : Chain.Dir → ℕ → Prop
  | empty : WrittenBy fs backend [] 0
  | append {dir listing next : Chain.Dir} {n : ℕ} {call : Chain.AppendCall} {date : ℤ} :
      WrittenBy fs backend dir n → listing.Perm dir →
      backend.append host chainAppend call date listing = .ok next →
      next.length ≤ fs.capacity → WrittenBy fs backend next (n + 1)

/-- The append of the backend succeeds, and the check of the legacy backend finds one block more. -/
def Extends (backend : Backend) (call : Chain.AppendCall) (date : ℤ) (dir : Chain.Dir) (n : ℕ) :
    Prop :=
  ∃ next, backend.append host chainAppend call date dir = .ok next ∧
    ∀ listing : Chain.Dir, listing.Perm next →
      Chain.verifyChainIntegrity host.toChainHost listing = .ok (n + 1)

/-! ## Reading a block of the native backend -/

variable {host chainAppend} {dir listing next : Chain.Dir} {call : Chain.AppendCall} {date : ℤ}
  {n : ℕ} {fs : Chain.FileSystem} {vs : List Plain}

/-- The legacy backend reads the object that is stored. -/
theorem readBlockFile_payload {ms : List (JsString × Plain)} (hordered : OwnOrdered (.obj ms))
    (hnumbers : JsonNumbers (.obj ms)) (file : Text) :
    Chain.readBlockFile host.toChainHost (payload (.obj ms)) file =
      Chain.toChainBlock (.obj ms) file := by
  have hparse : parseJson (jsonText [' ', ' '] (.obj ms)) = some (.obj ms) := by
    rw [parseJson_jsonText (by simp [Json.Blank, Json.isSpace]) hordered,
      jsonImage_eq_self hnumbers]
  rw [Chain.readBlockFile, payload, decodeUtf8_encodeUtf8, Chain.parseJsonObject,
    Chain.trim_jsonText_obj, if_neg (Chain.jsonText_obj_ne_nil _ _), hparse]
  rfl

/-- A block is read with the properties the object has. -/
theorem toChainBlock_eq_ok {ms : List (JsString × Plain)} {file : Text} {block : Chain.ChainBlock}
    (h : Chain.toChainBlock (.obj ms) file = .ok block) :
    ms.lookup (js "index") = some (.num block.index) ∧
      ms.lookup (js "hash") = some (.str block.hash) := by
  rw [Chain.toChainBlock] at h
  split at h
  · next hindex _ _ _ hhash _ =>
    cases h
    exact ⟨hindex, hhash⟩
  · cases h

/-- A directory with a block of index zero is not accepted. -/
theorem read_ne_ok_of_stored_zero {v : Plain} (hv : Stored v 0) {name : Text}
    (hmem : ((name, payload v), (.ofNat 0 : JsNumber)) ∈ Chain.indexedFiles dir)
    (hlength : dir.length < 2 ^ 53) (blocks : List Chain.ChainBlock) :
    Chain.readAndValidateChainBlocks host.toChainHost dir ≠ .ok blocks := by
  intro hread
  obtain ⟨block, hblock, hfile⟩ := Chain.exists_of_read hread hmem
  have hle : blocks.length ≤ dir.length := by
    rw [Chain.length_of_read hread]
    refine (List.length_filter_le _ _).trans ?_
    rw [List.length_map]
    exact List.length_filter_le _ _
  obtain ⟨⟨i, hi, hindex⟩, -⟩ :=
    (Chain.accepted_of_read hread (by omega)).of_mem hblock
  have hproperty := hv.index
  cases v with
  | obj ms =>
    rw [readBlockFile_payload hv.ordered hv.numbers] at hfile
    have hnumber := (toChainBlock_eq_ok hfile).1
    rw [property] at hproperty
    rw [hproperty, Option.some.injEq, Json.num.injEq, hindex,
      JsNumber.ofNat_inj (by norm_num) (by omega)] at hnumber
    omega
  | _ => cases hproperty

/-! ## Chains of the native backend -/

/-- A directory of the native backend holds its blocks in order. Beyond a million its last file is
replaced over and over. -/
structure NativeDir (dir : Chain.Dir) (vs : List Plain) : Prop where
  files : dir.Perm (numbered (vs.map payload))
  stored : StoredInOrder vs
  room : vs.length ≤ 10 ^ 6 + 1

theorem mapM_getLast? {α β : Type} {f : α → Option β} {l : List α}
    (h : ∀ a ∈ l, ∃ b, f a = some b) :
    ∃ bs, l.mapM f = some bs ∧ bs.getLast? = l.getLast?.bind f := by
  induction l using List.reverseRecOn with
  | nil => exact ⟨[], rfl, rfl⟩
  | append_singleton l a ih =>
    obtain ⟨bs, hbs, -⟩ := ih fun c hc => h c (by simp [hc])
    obtain ⟨b, hb⟩ := h a (by simp)
    refine ⟨bs ++ [b], ?_, ?_⟩
    · rw [List.mapM_append, hbs, List.mapM_cons, hb]
      rfl
    · rw [List.getLast?_concat, List.getLast?_concat, Option.bind_some, hb]

/-- The name with seven digits comes before the last name with six. -/
theorem nameLe_million {i : ℕ} (hi : i ≤ 10 ^ 6) (bytes bytes' : List UInt8) :
    NameLe (Chain.fileName (.ofNat i), bytes) (Chain.fileName (.ofNat 999999), bytes') := by
  rcases hi.lt_or_eq with hlt | rfl
  · exact nameLe_fileName hlt (by norm_num) _ _ (by omega)
  · rw [NameLe, Chain.fileName, Chain.fileName, numberText_ofNat (by norm_num),
      numberText_ofNat (by norm_num)]
    exact show ofText (Chain.padZeros 6 (digits (10 ^ 6)) ++ Chain.blockSuffix) ≤
      ofText (Chain.padZeros 6 (digits 999999) ++ Chain.blockSuffix) by decide

/-- With one file more than a million, the file read last is the millionth. -/
theorem getLast?_sortedFiles {contents : List (List UInt8)} (h : dir.Perm (numbered contents))
    (hlength : contents.length = 10 ^ 6 + 1) :
    (sortedFiles dir).getLast? =
      some (Chain.fileName (.ofNat 999999), contents.get ⟨999999, by omega⟩) := by
  have hperm := sortedFiles_perm h
  have hmem : (Chain.fileName (.ofNat 999999), contents.get ⟨999999, by omega⟩) ∈ sortedFiles dir :=
    hperm.mem_iff.mpr (mem_numbered.mpr ⟨999999, by omega, rfl⟩)
  have hsorted : (sortedFiles dir).Pairwise NameLe := List.pairwise_insertionSort NameLe _
  rcases List.eq_nil_or_concat' (sortedFiles dir) with hnil | ⟨init, last, hconcat⟩
  · rw [hnil] at hmem
    cases hmem
  · rw [hconcat] at hmem hsorted ⊢
    rw [List.getLast?_concat]
    have hlast : last ∈ numbered contents := hperm.mem_iff.mp (by rw [hconcat]; simp)
    obtain ⟨i, hi, rfl⟩ := mem_numbered.mp hlast
    rcases List.mem_append.mp hmem with hinit | hself
    · have hle := (List.pairwise_append.mp hsorted).2.2 _ hinit _ (List.mem_singleton_self _)
      have hge := nameLe_million (i := i) (by omega) contents[i] (contents.get ⟨999999, by omega⟩)
      have hname := ofText_injective (List.le_antisymm hge hle)
      obtain rfl := (fileName_inj (by omega) (by norm_num)).mp hname
      rfl
    · rw [List.mem_singleton.mp hself]

/-- The next block is the one after the last, or again the one after the millionth. -/
theorem NativeDir.nextIndex_eq (h : NativeDir dir vs) :
    nextIndex host (readChainBlocks dir) = .num (.ofNat (min vs.length (10 ^ 6))) := by
  rcases h.room.lt_or_eq with hlt | heq
  · rw [readChainBlocks, readBlocks_eq h.files h.stored (by omega), Option.getD_some,
      Bridge.nextIndex_eq h.stored (by omega), Nat.min_eq_left (by omega)]
  · have hlength : (vs.map payload).length = 10 ^ 6 + 1 := by rw [List.length_map, heq]
    have hlast := getLast?_sortedFiles h.files hlength
    have hparse : ∀ e ∈ sortedFiles dir, ∃ v, parseJson (decodeUtf8 e.2) = some v := by
      intro e he
      obtain ⟨i, hi, rfl⟩ := mem_numbered.mp ((sortedFiles_perm h.files).mem_iff.mp he)
      rw [List.length_map] at hi
      rw [List.getElem_map]
      exact ⟨_, (h.stored i hi).parse⟩
    obtain ⟨ws, hws, hget⟩ := mapM_getLast? hparse
    have hstored := h.stored 999999 (by omega)
    rw [hlast, Option.bind_some, List.get_eq_getElem, List.getElem_map, hstored.parse] at hget
    rw [readChainBlocks, readBlocks, hws, Option.getD_some, nextIndex, hget,
      Nat.min_eq_right (by omega)]
    simp only [hstored.index, orElse, plusOne]
    rw [JsNumber.add_one (by norm_num)]
    rfl

theorem StoredInOrder.set {vs : List Plain} (hstored : StoredInOrder vs) {v : Plain} {i : ℕ}
    (h : Stored v i) : StoredInOrder (vs.set i v) := by
  intro j hj
  by_cases hij : i = j
  · subst hij
    rwa [List.getElem_set_self]
  · rw [List.getElem_set_ne hij]
    exact hstored j (by simpa using hj)

/-- What the native backend reads is in order, whatever the directory holds. -/
theorem ownOrdered_readChainBlocks (dir : Chain.Dir) : ∀ v ∈ readChainBlocks dir, OwnOrdered v := by
  intro v hv
  cases hblocks : readBlocks dir with
  | none =>
    rw [readChainBlocks, hblocks] at hv
    cases hv
  | some blocks =>
    rw [readChainBlocks, hblocks, Option.getD_some] at hv
    obtain ⟨e, -, he⟩ := exists_of_mem_mapM hblocks hv
    exact ownOrdered_of_parseJson he

/-- The block an accepting bridge appends is the one it was sent. -/
theorem nativeAppend_eq (hbridge : AcceptsLinked host chainAppend) (call : Chain.AppendCall)
    (date : ℤ) (dir : Chain.Dir) :
    let appended := own (jsonImage
      (nextBlock host call.chainName call.data (isoText date) (readChainBlocks dir)).value)
    nativeAppend host chainAppend call date dir =
      .ok (Chain.writeFile dir (blockFileName host appended) (payload appended)) := by
  rw [nativeAppend, hbridge _ _ (ownOrdered_readChainBlocks dir) rfl rfl]
  rfl

/-- An append of the native backend leaves a directory of the native backend. -/
theorem NativeDir.append (hbridge : AcceptsLinked host chainAppend) (h : NativeDir dir vs)
    (hnext : nativeAppend host chainAppend call date dir = .ok next) :
    ∃ vs', vs' ≠ [] ∧ NativeDir next vs' := by
  rw [nativeAppend_eq hbridge] at hnext
  obtain rfl := Except.ok.inj hnext
  have hindex : (nextBlock host call.chainName call.data (isoText date)
      (readChainBlocks dir)).index = .num (.ofNat (min vs.length (10 ^ 6))) := h.nextIndex_eq
  have hroom := h.room
  have hstored := stored_sent (by omega) hindex
  rw [blockFileName_eq (by omega) hstored.index]
  generalize own (jsonImage (nextBlock host call.chainName call.data (isoText date)
    (readChainBlocks dir)).value) = v at hstored
  rcases h.room.lt_or_eq with hlt | heq
  · rw [Nat.min_eq_left (by omega)] at hstored ⊢
    refine ⟨vs ++ [v], by simp, ?_⟩
    exact
      { files := by
          have hperm := writeFile_perm_concat h.files (by rw [List.length_map]; omega) (payload v)
          rw [List.length_map] at hperm
          rw [List.map_append]
          exact hperm
        stored := h.stored.concat hstored
        room := by
          rw [List.length_append, List.length_singleton]
          omega }
  · rw [heq, Nat.min_eq_right (by norm_num)] at hstored ⊢
    refine ⟨vs.set (10 ^ 6) v, ?_, ?_⟩
    · rw [ne_eq, List.set_eq_nil_iff, ← List.length_eq_zero_iff, heq]
      norm_num
    · exact
        { files := by
            rw [List.map_set]
            exact writeFile_perm_set h.files (by rw [List.length_map]; omega)
              (by rw [List.length_map]; omega) (payload v)
          stored := h.stored.set hstored
          room := by rwa [List.length_set] }

theorem payload_ne_nil {v : Plain} (h : Stored v n) : payload v ≠ [] := by
  intro hnil
  have hparse := h.parse
  rw [hnil] at hparse
  cases hparse

/-- **A chain of the native backend is not continued.** The legacy backend finds no genesis block in
it. -/
theorem NativeDir.legacyAppend_ne_ok (h : NativeDir dir vs) (hne : vs ≠ []) :
    legacyAppend host call date dir ≠ .ok next := by
  have hlength : vs.length ≤ 10 ^ 6 + 1 := h.room
  have hpayload : ∀ f ∈ Chain.indexedFiles dir, f.1.2 ≠ [] := by
    intro f hf
    obtain ⟨e, he, rfl⟩ := List.mem_map.mp (List.mem_filter.mp hf).1
    obtain ⟨i, hi, rfl⟩ := mem_numbered.mp (h.files.mem_iff.mp (List.mem_filter.mp he).1)
    rw [List.getElem_map]
    exact payload_ne_nil (h.stored i (by simpa using hi))
  have hprune : Chain.pruneTrailingEmptyBlockFiles (fun _ => false) (fun _ => false) dir = [] :=
    Chain.prunedNames_eq_nil fun f hf => hpayload f ((List.mem_insertionSort Chain.IndexGe).mp hf)
  have hzero : 0 < vs.length := List.length_pos_iff.mpr hne
  have hmem : ((Chain.fileName (.ofNat 0), payload vs[0]), (.ofNat 0 : JsNumber)) ∈
      Chain.indexedFiles dir := by
    have hfile : (Chain.fileName (.ofNat 0), payload vs[0]) ∈ dir :=
      h.files.mem_iff.mpr (mem_numbered.mpr ⟨0, by simpa using hzero, by rw [List.getElem_map]⟩)
    rw [Chain.indexedFiles, List.mem_filter, List.mem_map]
    refine ⟨⟨_, List.mem_filter.mpr ⟨hfile, Chain.isBlockFile_fileName _⟩, ?_⟩,
      JsNumber.isFinite_ofNat (by norm_num)⟩
    rw [Chain.fileIndex_fileName (by norm_num)]
  have hfiles : dir.length < 2 ^ 53 := by
    rw [h.files.length_eq, length_numbered, List.length_map]
    omega
  rw [legacyAppend, hprune, List.foldl_nil]
  cases hread : Chain.readAndValidateChainBlocks host.toChainHost dir with
  | ok blocks => exact absurd hread (read_ne_ok_of_stored_zero (h.stored 0 hzero) hmem hfiles blocks)
  | error message => simp

/-! ## Chains of the legacy backend -/

/-- A new block file continues a chain. -/
theorem dirInv_store {blocks : List Chain.ChainBlock} {block : Chain.ChainBlock}
    (h : Chain.DirInv host.toChainHost fs dir blocks)
    (hcontinues : Chain.Continues host.toChainHost blocks block)
    (hroom : (Chain.writeFile dir (Chain.fileName block.index) block.payload).length ≤ fs.capacity) :
    Chain.DirInv host.toChainHost fs
      (Chain.writeFile dir (Chain.fileName block.index) block.payload) (blocks ++ [block]) where
  names := Chain.nodup_writeFile h.names _ _
  room := hroom
  files := by
    have hnew : Chain.fileName block.index ∉ Chain.fileNames (Chain.blockFiles dir) := fun hmem =>
      Chain.fileName_new h.chained hcontinues h.length_lt ((h.files.map Prod.fst).mem_iff.mp hmem)
    rw [Chain.blockFiles_writeFile_new (Chain.isBlockFile_fileName _) hnew, Chain.storedFiles,
      List.map_append]
    exact h.files.append_right _
  chained := h.chained.concat hcontinues

theorem dirInv_of_perm {blocks : List Chain.ChainBlock}
    (h : Chain.DirInv host.toChainHost fs dir blocks) (hlisting : listing.Perm dir) :
    Chain.DirInv host.toChainHost fs listing blocks where
  names := (hlisting.map Prod.fst).nodup_iff.mpr h.names
  room := hlisting.length_eq ▸ h.room
  files := (hlisting.filter _).trans h.files
  chained := h.chained

/-- An append of the legacy backend continues its chain. -/
theorem legacyAppend_eq {blocks : List Chain.ChainBlock}
    (h : Chain.DirInv host.toChainHost fs dir blocks) (call : Chain.AppendCall) (date : ℤ) :
    ∃ block, Chain.Continues host.toChainHost blocks block ∧
      legacyAppend host call date dir =
        .ok (Chain.writeFile dir (Chain.fileName block.index) block.payload) := by
  have hlength := h.length_lt
  refine ⟨_, (Chain.prepared_block h.chained hlength call (isoText date) 0).continues, ?_⟩
  rw [legacyAppend, Chain.prune_of_perm h.chained hlength h.files, List.foldl_nil,
    Chain.readAndValidate_of_perm h.chained hlength h.files]

/-- What the appends of a backend have written. -/
theorem WrittenBy.dirInv (h : WrittenBy host chainAppend fs .tsLegacy dir n) :
    ∃ blocks, blocks.length = n ∧ Chain.DirInv host.toChainHost fs dir blocks := by
  induction h with
  | empty => exact ⟨[], rfl, ⟨List.nodup_nil, Nat.zero_le _, .refl _, .nil⟩⟩
  | append _ hlisting hnext hroom ih =>
    obtain ⟨blocks, rfl, hinv⟩ := ih
    have hinv := dirInv_of_perm hinv hlisting
    obtain ⟨block, hcontinues, heq⟩ := legacyAppend_eq hinv _ _
    rw [Backend.append, heq] at hnext
    obtain rfl := Except.ok.inj hnext
    exact ⟨blocks ++ [block], by simp, dirInv_store hinv hcontinues hroom⟩

theorem WrittenBy.nativeDir (hbridge : AcceptsLinked host chainAppend)
    (h : WrittenBy host chainAppend fs .rustNapi dir n) :
    ∃ vs, NativeDir dir vs ∧ (vs = [] ↔ n = 0) := by
  induction h with
  | empty =>
    exact ⟨[], ⟨.refl _, fun _ hi => absurd hi (Nat.not_lt_zero _), Nat.zero_le _⟩, by simp⟩
  | append _ hlisting hnext _ ih =>
    obtain ⟨vs, hdir, -⟩ := ih
    have hdir : NativeDir _ vs := ⟨hlisting.trans hdir.files, hdir.stored, hdir.room⟩
    obtain ⟨vs', hne, hdir'⟩ := hdir.append hbridge hnext
    exact ⟨vs', hdir', by simp [hne]⟩

/-- The first block of an empty directory is verified. -/
theorem extends_empty (call : Chain.AppendCall) (date : ℤ) :
    Extends host chainAppend .tsLegacy call date [] 0 := by
  have hinv : Chain.DirInv host.toChainHost ⟨1, by norm_num⟩ [] [] :=
    ⟨List.nodup_nil, Nat.zero_le _, .refl _, .nil⟩
  obtain ⟨block, hcontinues, heq⟩ := legacyAppend_eq hinv call date
  refine ⟨_, heq, fun listing hlisting => ?_⟩
  have hnext := dirInv_of_perm (dirInv_store hinv hcontinues (le_refl 1)) hlisting
  rw [Chain.verifyChainIntegrity,
    Chain.readAndValidate_of_perm hnext.chained hnext.length_lt hnext.files]
  rfl

/-- The legacy backend accepts the hash of the next block because two different texts have one
digest: the text that is hashed for the block, and one of the two that are hashed to check it. -/
def Collides (host : BridgeHost) (call : Chain.AppendCall) (date : ℤ) (dir : Chain.Dir) : Prop :=
  let block := nextBlock host call.chainName call.data (isoText date) (readChainBlocks dir)
  let hashed := wellFormed
    (hashInput host block.index block.timestamp block.chain block.data block.prevHash)
  ∃ (stored : Chain.ChainBlock) (checked : Text),
    (∃ file, Chain.readBlockFile host.toChainHost (payload (own (jsonImage block.value))) file =
      .ok stored) ∧
    (checked = Chain.stableStringify host.toChainHost stored.toBlockContent.value ∨
      checked = jsonText [] (.obj stored.data)) ∧
    checked ≠ hashed ∧ host.sha256 checked = host.sha256 hashed

theorem head?_jsonText_obj (gap : Text) (ms : List (JsString × Plain)) :
    (jsonText gap (.obj ms)).head? = some '{' := by
  rw [Ecma.jsonText, jsonImage_obj, Json.write_obj, Json.bracket]
  split <;> rfl

theorem head?_stableStringify (content : Chain.BlockContent) :
    (Chain.stableStringify host.toChainHost content.value).head? = some '{' := by
  rw [Chain.stableStringify, Chain.BlockContent.value, Chain.sortValue_obj, head?_jsonText_obj]

/-- The text of a number that is stored does not start as an object does. -/
theorem exists_numberText {x m : JsNumber} (h : jsonNumber x = .num m) :
    ∃ c t, numberText x = c :: t ∧ c ≠ '{' := by
  cases x with
  | finite q hq =>
    obtain ⟨hne, hchars, -⟩ := writesBack_finite hq
    cases htext : numberText (.finite q hq) with
    | nil => exact absurd htext hne
    | cons c t =>
      refine ⟨c, t, rfl, ?_⟩
      rintro rfl
      exact absurd (hchars '{' (by simp [htext])) (by decide)
  | negZero => exact ⟨'0', [], rfl, by decide⟩
  | _ => cases h

theorem head?_hashInput {index : Plain} {m : JsNumber} (h : own (jsonImage index) = .num m)
    (timestamp chain : JsString) (data : NapiBlockData) (prevHash : Plain) :
    (wellFormed (hashInput host index timestamp chain data prevHash)).head? ≠ some '{' := by
  cases index with
  | num x =>
    have hnumber : jsonNumber x = .num m := by
      cases x with
      | finite | negZero => exact h
      | _ => cases h
    obtain ⟨c, t, htext, hne⟩ := exists_numberText hnumber
    rw [hashInput, joinUnits, display, List.append_assoc, wellFormed_ofText_append, htext,
      List.cons_append, List.head?_cons, ne_eq, Option.some.injEq]
    exact hne
  | arr items =>
    rw [jsonImage_arr, own_arr] at h
    cases h
  | obj members =>
    rw [jsonImage_obj, own_obj] at h
    cases h
  | _ => cases h

theorem length_indexedFiles_le (dir : Chain.Dir) :
    (Chain.indexedFiles dir).length ≤ (Chain.blockFiles dir).length := by
  refine (List.length_filter_le _ _).trans ?_
  rw [List.length_map]

/-- A directory with one more file has one more indexed file only if that is the new one. -/
theorem mem_indexedFiles_writeFile {name : Text} {bytes : List UInt8}
    (h : (Chain.blockFiles dir).length < (Chain.indexedFiles (Chain.writeFile dir name bytes)).length) :
    ∃ index, ((name, bytes), index) ∈ Chain.indexedFiles (Chain.writeFile dir name bytes) := by
  have hsplit : Chain.indexedFiles (Chain.writeFile dir name bytes) =
      Chain.indexedFiles (Chain.unlink dir name) ++ Chain.indexedFiles [(name, bytes)] := by
    simp [Chain.writeFile, Chain.indexedFiles, Chain.blockFiles, List.filter_append]
  have hunlink : (Chain.blockFiles (Chain.unlink dir name)).length ≤ (Chain.blockFiles dir).length :=
    (List.filter_sublist.filter _).length_le
  have hle := length_indexedFiles_le (Chain.unlink dir name)
  cases hnew : Chain.indexedFiles [(name, bytes)] with
  | nil =>
    rw [hsplit, hnew, List.append_nil] at h
    omega
  | cons f fs =>
    have hf : f ∈ Chain.indexedFiles [(name, bytes)] := by simp [hnew]
    obtain ⟨e, he, rfl⟩ := List.mem_map.mp (List.mem_filter.mp hf).1
    obtain rfl := List.mem_singleton.mp (List.mem_filter.mp he).1
    exact ⟨_, by rw [hsplit]; exact List.mem_append_right _ hf⟩

/-- What the legacy backend reads of a block that was sent. -/
theorem read_sent {block : NapiBlock} {file : Text} {stored : Chain.ChainBlock}
    (h : Chain.readBlockFile host.toChainHost (payload (own (jsonImage block.value))) file =
      .ok stored) :
    own (jsonImage block.index) = .num stored.index ∧ stored.hash = block.hash := by
  have hordered := ownOrdered_own (jsonImage block.value)
  have hnumbers := (jsonNumbers_jsonImage block.value).own
  rw [own_value] at h hordered hnumbers
  rw [readBlockFile_payload hordered hnumbers] at h
  obtain ⟨hindex, hhash⟩ := toChainBlock_eq_ok h
  exact ⟨Option.some.inj hindex, (Json.str.inj (Option.some.inj hhash)).symm⟩

theorem readChainBlocks_eq_nil (h : Chain.blockFiles dir = []) : readChainBlocks dir = [] := by
  rw [readChainBlocks, readBlocks, sortedFiles, h]
  rfl

/-- What the legacy check has found of a file that makes a chain longer. -/
theorem exists_of_verify_writeFile {name : Text} {bytes : List UInt8}
    (hfiles : (Chain.blockFiles dir).length = n) (hlength : n + 1 < 2 ^ 53)
    (hverify : Chain.verifyChainIntegrity host.toChainHost (Chain.writeFile dir name bytes) =
      .ok (n + 1)) :
    ∃ stored, Chain.readBlockFile host.toChainHost bytes name = .ok stored ∧
      (∃ i < n + 1, stored.index = .ofNat (i + 1)) ∧
      (stored.hash = ofText (Chain.hashBlock host.toChainHost stored.toBlockContent) ∨
        stored.hash = ofText (Chain.legacyHash host.toChainHost stored.data)) := by
  obtain ⟨verified, hread, hcount⟩ := Chain.exists_of_verify hverify
  have hlonger : (Chain.blockFiles dir).length <
      (Chain.indexedFiles (Chain.writeFile dir name bytes)).length := by
    rw [← Chain.length_of_read hread]
    omega
  obtain ⟨index, hmem⟩ := mem_indexedFiles_writeFile hlonger
  obtain ⟨stored, hstored, hfile⟩ := Chain.exists_of_read hread hmem
  have haccepted := (Chain.accepted_of_read hread (by omega)).of_mem hstored
  rw [hcount] at haccepted
  exact ⟨stored, hfile, haccepted⟩

theorem index_first (hempty : readChainBlocks dir = []) :
    (nextBlock host call.chainName call.data (isoText date) (readChainBlocks dir)).index =
      .num (.ofNat 0) := by
  rw [hempty]
  rfl

/-- **A chain of the legacy backend is not continued**, unless digests collide. -/
theorem collides_of_extends (hbridge : AcceptsLinked host chainAppend)
    {blocks : List Chain.ChainBlock} (h : Chain.DirInv host.toChainHost fs dir blocks)
    (hextends : Extends host chainAppend .rustNapi call date dir blocks.length) :
    0 < blocks.length ∧ Collides host call date dir := by
  obtain ⟨next, hnext, hverify⟩ := hextends
  rw [Backend.append, nativeAppend_eq hbridge] at hnext
  obtain rfl := Except.ok.inj hnext
  have hlength := h.length_lt
  have hfiles : (Chain.blockFiles dir).length = blocks.length := by
    rw [h.files.length_eq, Chain.storedFiles, List.length_map]
  obtain ⟨stored, hfile, ⟨i, hi, hindex⟩, hchecked⟩ :=
    exists_of_verify_writeFile hfiles (by omega) (hverify _ (.refl _))
  obtain ⟨hnumber, hhash⟩ := read_sent hfile
  constructor
  · by_contra hzero
    have hempty : Chain.blockFiles dir = [] := by
      have hfiles := h.files
      rw [List.length_eq_zero_iff.mp (by omega : blocks.length = 0)] at hfiles
      exact hfiles.eq_nil
    rw [index_first (readChainBlocks_eq_nil hempty), hindex] at hnumber
    have hsame : (JsNumber.ofNat 0) = .ofNat (i + 1) := by
      rw [show jsonImage (.num (.ofNat 0)) = .num (.ofNat 0) from
        Chain.jsonNumber_ofNat (by norm_num)] at hnumber
      exact Json.num.inj hnumber
    rw [JsNumber.ofNat_inj (by norm_num) (by omega)] at hsame
    omega
  · have hdigest : ∃ checked, (checked =
          Chain.stableStringify host.toChainHost stored.toBlockContent.value ∨
        checked = jsonText [] (.obj stored.data)) ∧ stored.hash = ofText (host.sha256 checked) := by
      rcases hchecked with hcanonical | hlegacy
      · exact ⟨_, .inl rfl, hcanonical⟩
      · exact ⟨_, .inr rfl, hlegacy⟩
    obtain ⟨checked, htext, hdigest⟩ := hdigest
    refine ⟨stored, checked, ⟨_, hfile⟩, htext, ?_, ?_⟩
    · have hhead : checked.head? = some '{' := by
        rcases htext with rfl | rfl
        · exact head?_stableStringify _
        · exact head?_jsonText_obj _ _
      rintro rfl
      exact head?_hashInput hnumber _ _ _ _ hhead
    · rw [hhash] at hdigest
      exact (ofText_injective hdigest).symm

/-! ## Switching -/

/-- **Switching the backend.** The other backend extends a chain, so that the legacy check accepts
it, only when the native backend has stored nothing yet; short of a collision of digests, it never
extends a chain of the legacy backend. -/
theorem extends_other (hbridge : AcceptsLinked host chainAppend) {backend : Backend}
    (hwritten : WrittenBy host chainAppend fs backend dir n) (hlisting : listing.Perm dir)
    (call : Chain.AppendCall) (date : ℤ) :
    (backend = .rustNapi →
      (Extends host chainAppend backend.other call date listing n ↔ n = 0)) ∧
    (backend = .tsLegacy → Extends host chainAppend backend.other call date listing n →
      0 < n ∧ Collides host call date listing) := by
  constructor
  · rintro rfl
    obtain ⟨vs, hdir, hzero⟩ := hwritten.nativeDir hbridge
    have hdir : NativeDir listing vs := ⟨hlisting.trans hdir.files, hdir.stored, hdir.room⟩
    constructor
    · rintro ⟨next, hnext, -⟩
      by_contra hn
      exact hdir.legacyAppend_ne_ok (fun hnil => hn (hzero.mp hnil)) hnext
    · rintro rfl
      obtain rfl := hzero.mpr rfl
      obtain rfl := hdir.files.eq_nil
      exact extends_empty call date
  · rintro rfl hextends
    obtain ⟨blocks, rfl, hinv⟩ := hwritten.dirInv
    exact collides_of_extends hbridge (dirInv_of_perm hinv hlisting) hextends

/-- The directory after the native backend has stored one block. -/
def nativeSample : Chain.Dir :=
  let appended := own (jsonImage
    (nextBlock sampleHost Chain.sampleCall.chainName Chain.sampleCall.data (isoText 1000)
      (readChainBlocks [])).value)
  Chain.writeFile [] (blockFileName sampleHost appended) (payload appended)

theorem writtenBy_nativeSample :
    WrittenBy sampleHost acceptingBridge Chain.sampleFileSystem .rustNapi nativeSample 1 :=
  .append .empty (.refl _) (nativeAppend_eq acceptsLinked_acceptingBridge Chain.sampleCall 1000 [])
    (show 1 ≤ 1000 by norm_num)

/-- The native backend's first block ends its chain for the legacy backend, which continues the
empty chain. -/
theorem extends_other_sample :
    ¬Extends sampleHost acceptingBridge .tsLegacy Chain.sampleCall 1000 nativeSample 1 ∧
      Extends sampleHost acceptingBridge .tsLegacy Chain.sampleCall 1000 [] 0 := by
  have hempty : WrittenBy sampleHost acceptingBridge Chain.sampleFileSystem .rustNapi [] 0 := .empty
  constructor
  · rw [show Extends sampleHost acceptingBridge .tsLegacy Chain.sampleCall 1000 nativeSample 1 ↔ _
      from (extends_other acceptsLinked_acceptingBridge writtenBy_nativeSample (.refl _)
        Chain.sampleCall 1000).1 rfl]
    exact Nat.one_ne_zero
  · exact ((extends_other acceptsLinked_acceptingBridge hempty (.refl _)
      Chain.sampleCall 1000).1 rfl).mpr rfl

/-- **Neither backend continues the chain of the other.** A chain of one block of either backend is
not extended by the other, under a digest without collisions. -/
theorem switched_backend_rejected : AcceptsLinked sampleHost acceptingBridge ∧
    ∀ backend, ∃ dir,
      WrittenBy sampleHost acceptingBridge Chain.sampleFileSystem backend dir 1 ∧
        ¬Extends sampleHost acceptingBridge backend.other Chain.sampleCall 1000 dir 1 := by
  refine ⟨acceptsLinked_acceptingBridge, fun backend => ?_⟩
  cases backend with
  | rustNapi =>
    refine ⟨nativeSample, writtenBy_nativeSample, ?_⟩
    rintro ⟨next, hnext, -⟩
    obtain ⟨vs, hdir, hzero⟩ := writtenBy_nativeSample.nativeDir acceptsLinked_acceptingBridge
    exact hdir.legacyAppend_ne_ok (fun hnil => Nat.one_ne_zero (hzero.mp hnil)) hnext
  | tsLegacy =>
    have hempty : Chain.DirInv sampleHost.toChainHost Chain.sampleFileSystem [] [] :=
      ⟨List.nodup_nil, Nat.zero_le _, .refl _, .nil⟩
    obtain ⟨block, hcontinues, hnext⟩ := legacyAppend_eq hempty Chain.sampleCall 1000
    have hroom : 1 ≤ Chain.sampleFileSystem.capacity := by decide
    refine ⟨_, .append .empty (.refl _) hnext hroom, fun hextends => ?_⟩
    have hinv := dirInv_store hempty hcontinues hroom
    obtain ⟨-, stored, checked, -, -, hne, hdigest⟩ :=
      collides_of_extends acceptsLinked_acceptingBridge hinv hextends
    exact hne hdigest

end MemphisOS.Bridge
