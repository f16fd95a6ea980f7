import MemphisOS.Chain.RecordOrder

/-!
# Verifying what was appended

A record that `appendBlock` has stored is verified exactly if its file goes last and the sorted
copy that was hashed is written as the sorted record that is read back.
-/

namespace MemphisOS.Chain

open Ecma

variable {host : ChainHost} {listing : Listing} {call : RecordCall} {blocks : List ChainBlock}
  {n : ℕ}

/-! ## Hashes -/

/-- What is read back of a value that was written. -/
def readBack (t : JsTree) : Plain := own ((t.written.getD none).getD .null)

theorem sortTree_obj (members : List (JsString × JsTree)) :
    sortTree host (.obj members) =
      .obj ((arrange host members).map fun m => (m.1, sortTree host m.2)) := by
  rw [sortTree, sortMembers_eq_map, arrange_map]

/-- The members of the content that are read back. -/
theorem readBack_content (hn : n < 2 ^ 53) (hindex : nextIndex blocks = .ofNat n)
    {ms : List (JsString × Plain)} {v : Plain} (hv : call.data.written = some (some v))
    (hown : own v = .obj ms) :
    (call.content blocks).map (fun m => (m.1, readBack m.2)) =
      [(js "index", .num (.ofNat n)), (js "timestamp", .str (ofText (isoText call.date))),
        (js "chain", .str call.chainName), (js "data", .obj ms),
        (js "prev_hash", .str (RecordCall.prevHash blocks))] := by
  have hnumber : readBack (.num (nextIndex blocks)) = .num (.ofNat n) := by
    rw [readBack, JsTree.written, hindex, jsonNumber_ofNat hn]
    rfl
  have hdata : readBack call.data = .obj ms := by
    rw [readBack, hv]
    exact hown
  have hstring (s : JsString) : readBack (.str s) = .str s := by
    rw [readBack, JsTree.written]
    rfl
  simp only [RecordCall.content, List.map_cons, List.map_nil, hnumber, hdata, hstring]

/-- The sorted content is written as the sorted content that is read back exactly if the data
is. -/
theorem written_sortTree_iff (hn : n < 2 ^ 53) (hindex : nextIndex blocks = .ofNat n)
    {ms : List (JsString × Plain)} {v : Plain} (hv : call.data.written = some (some v))
    (hown : own v = .obj ms) :
    (sortTree host (.obj (call.content blocks))).written =
        some (some (sortValue host (call.block blocks [] ms).toBlockContent.value)) ↔
      (sortTree host call.data).written = some (some (sortValue host (.obj ms))) := by
  have hvalue : (call.block blocks [] ms).toBlockContent.value =
      .obj ((call.content blocks).map fun m => (m.1, readBack m.2)) := by
    rw [readBack_content hn hindex hv hown, RecordCall.block, BlockContent.value, hindex]
  have hkeys : ((arrange host (call.content blocks)).map Prod.fst).Nodup := by
    rw [((arrange_perm (call.content blocks)).map Prod.fst).nodup_iff]
    exact show (["index", "timestamp", "chain", "data", "prev_hash"].map js).Nodup by decide
  have hobj {members : List (JsString × JsTree)} {ms : List (JsString × Plain)} :
      (JsTree.obj members).written = some (some (.obj ms)) ↔
        writtenMembers members = some ms := by
    rw [JsTree.written]
    cases writtenMembers members with
    | none => simp
    | some ms' => simp
  have hplain {t : JsTree} {w : Plain} (hsort : sortTree host t = t)
      (hwritten : t.written = some (some w)) (hback : sortValue host (own w) = w) :
      (sortTree host t).written = some (some (sortValue host (readBack t))) := by
    rw [hsort, readBack, hwritten]
    exact congrArg (fun w => some (some w)) hback.symm
  have hmembers := @writtenMembers_eq_some_map _ _ (sortTree host)
    (fun t => sortValue host (readBack t)) hkeys
  have hcompose : (arrange host (call.content blocks)).map
      ((fun m : JsString × Plain => (m.1, sortValue host m.2)) ∘ fun m => (m.1, readBack m.2)) =
      (arrange host (call.content blocks)).map fun m => (m.1, sortValue host (readBack m.2)) := rfl
  rw [hvalue, sortValue_obj_eq, arrange_map, List.map_map, sortTree_obj, hobj, hcompose, hmembers]
  have hback : readBack call.data = .obj ms := by
    rw [readBack, hv]
    exact hown
  constructor
  · intro h
    have hdata := h (js "data", call.data)
      ((arrange_perm _).mem_iff.mpr (by simp [RecordCall.content]))
    rwa [hback] at hdata
  · intro h m hm
    have hmem := (arrange_perm _).mem_iff.mp hm
    simp only [RecordCall.content, List.mem_cons, List.not_mem_nil, or_false] at hmem
    rcases hmem with rfl | rfl | rfl | rfl | rfl
    · exact @hplain _ (.num (.ofNat n)) rfl
        (by rw [JsTree.written, hindex, jsonNumber_ofNat hn]) rfl
    · exact @hplain _ _ rfl (by rw [JsTree.written]) rfl
    · exact @hplain _ _ rfl (by rw [JsTree.written]) rfl
    · dsimp only
      rw [hback]
      exact h
    · exact @hplain _ _ rfl (by rw [JsTree.written]) rfl

theorem jsonNumbers_sortValue {v : Plain} (h : JsonNumbers v) : JsonNumbers (sortValue host v) := by
  have himage := jsonNumbers_jsonImage (sortValue host v)
  rwa [← sortValue_jsonImage, jsonImage_eq_self h] at himage

/-- The hashed text is that of a value exactly if the sorted content is written as the value. -/
theorem canonical_eq_iff {text : Text} (h : call.canonical host blocks = some (some text))
    {value : Plain} (hvalue : JsonNumbers value) :
    text = jsonText [] value ↔
      (sortTree host (.obj (call.content blocks))).written = some (some value) := by
  obtain ⟨w, hw, hnumbers, rfl⟩ := JsTree.stringify_eq_some h
  have htext : w.write numberText [] [] = jsonText [] w := by
    rw [jsonText, jsonImage_eq_self hnumbers]
  rw [hw, htext, jsonText_inj (by simp [Json.Blank]), jsonImage_eq_self hnumbers,
    jsonImage_eq_self hvalue, Option.some.injEq, Option.some.injEq]

theorem jsonNumbers_block (hn : n < 2 ^ 53) (hindex : nextIndex blocks = .ofNat n)
    {ms : List (JsString × Plain)} (hms : JsonNumbers (.obj ms)) :
    JsonNumbers (call.block blocks [] ms).toBlockContent.value := by
  rw [JsonNumbers, BlockContent.value, Json.allNumbers_obj]
  simp only [List.mem_cons, List.not_mem_nil, or_false]
  rintro m (rfl | rfl | rfl | rfl | rfl)
  · have hnumber := jsonNumbers_jsonNumber (.ofNat n)
    rw [jsonNumber_ofNat hn] at hnumber
    rw [RecordCall.block, hindex]
    exact hnumber
  · trivial
  · trivial
  · exact hms
  · trivial

/-- The data is hashed as it is read back, or as the legacy hash of a block would be. -/
def RecordCall.Rehashed (call : RecordCall) (host : ChainHost) (blocks : List ChainBlock) : Prop :=
  ∃ v ms, call.data.written = some (some v) ∧ own v = .obj ms ∧
    ((sortTree host call.data).written = some (some (sortValue host (.obj ms))) ∨
      (sortTree host (.obj (call.content blocks))).written = some (some (.obj ms)))

/-- **Hashes.** The stored hash is one of the hashes of what is read back. -/
theorem hash_iff (hsha : Function.Injective host.sha256) (hn : n < 2 ^ 53)
    (hindex : nextIndex blocks = .ofNat n) {ms : List (JsString × Plain)} {v : Plain}
    (hv : call.data.written = some (some v)) (hown : own v = .obj ms) {text : Text}
    (h : call.canonical host blocks = some (some text)) :
    (ofText (host.sha256 text) = ofText (hashBlock host (call.block blocks [] ms).toBlockContent) ∨
      ofText (host.sha256 text) = ofText (legacyHash host ms)) ↔
      (sortTree host call.data).written = some (some (sortValue host (.obj ms))) ∨
        (sortTree host (.obj (call.content blocks))).written = some (some (.obj ms)) := by
  have hms : JsonNumbers (.obj ms) := hown ▸ (call.data.jsonNumbers_written v hv).own
  have hcontent := @jsonNumbers_block call blocks n hn hindex ms hms
  rw [ofText_injective.eq_iff, ofText_injective.eq_iff, hashBlock, legacyHash, hsha.eq_iff,
    hsha.eq_iff, stableStringify, canonical_eq_iff h (jsonNumbers_sortValue hcontent),
    canonical_eq_iff h hms, written_sortTree_iff hn hindex hv hown]

/-! ## The stored file -/

/-- A record is read back as a block exactly if an object is written of it. -/
theorem readBlockFile_record (hn : n < 2 ^ 53) (hindex : nextIndex blocks = .ofNat n)
    {hash : JsString} {text : Text} (h : call.payload blocks hash = some (some text))
    (file : Text) {block : ChainBlock} :
    readBlockFile host (encodeUtf8 text) file = .ok block ↔
      ∃ v ms, call.data.written = some (some v) ∧ own v = .obj ms ∧
        block = call.block blocks hash ms := by
  obtain ⟨stored, data, htext, hdata, hparse⟩ := call.payload_eq_some hn hindex h
  have hne : text ≠ [] := htext ▸ jsonText_obj_ne_nil _ _
  have htrim : trim text = text := htext ▸ trim_jsonText_obj _ _
  have hread : readBlockFile host (encodeUtf8 text) file = toChainBlock (.obj
      ([(js "index", .num (.ofNat n)), (js "timestamp", .str (ofText (isoText call.date))),
        (js "chain", .str call.chainName)] ++ (data.map fun v => (js "data", own v)).toList ++
        [(js "prev_hash", .str (RecordCall.prevHash blocks)), (js "hash", .str hash)])) file := by
    rw [readBlockFile, decodeUtf8_encodeUtf8, parseJsonObject, htrim, if_neg hne, hparse]
    rfl
  rw [hread, hdata]
  cases data with
  | none =>
    constructor
    · intro h
      cases h
    · rintro ⟨v, ms, hv, -⟩
      cases hv
  | some v =>
    constructor
    · intro h
      cases hown : own v with
      | obj ms =>
        rw [Option.map_some, hown] at h
        refine ⟨v, ms, rfl, hown, ?_⟩
        rw [RecordCall.block, hindex]
        exact (Except.ok.inj h).symm
      | _ =>
        rw [Option.map_some, hown] at h
        cases h
    · rintro ⟨v', ms, hv, hown, rfl⟩
      cases hv
      rw [Option.map_some, hown, RecordCall.block, hindex]
      rfl

/-- The index of the next block. -/
theorem Accepted.nextIndex_eq (h : Accepted host blocks) (hlength : blocks.length + 1 < 2 ^ 53) :
    nextIndex blocks = .ofNat (blocks.length + 1) := by
  cases h with
  | nil => rfl
  | @concat init previous _ hlast =>
    rw [List.length_append, List.length_singleton] at hlength ⊢
    rw [nextIndex, List.getLast?_concat]
    dsimp only
    rw [hlast.index, JsNumber.add_one (by omega)]

/-- The loop accepts the stored block after the blocks that were read exactly if its hash is that
of what is read. -/
theorem checkBlock_record (h : Accepted host blocks) (hlength : blocks.length + 1 < 2 ^ 53)
    {ms : List (JsString × Plain)} {hash : JsString} (file : Text) :
    checkBlock host blocks (file, call.block blocks hash ms) =
        .ok (blocks ++ [call.block blocks hash ms]) ↔
      hash = ofText (hashBlock host (call.block blocks [] ms).toBlockContent) ∨
        hash = ofText (legacyHash host ms) := by
  have hindex := h.nextIndex_eq hlength
  have hone (m : ℕ) (hm : m < 2 ^ 53) :
      (call.block blocks hash ms).hasIndex (.ofNat m) = true ↔ blocks.length + 1 = m := by
    rw [BlockContent.hasIndex, JsNumber.strictEq_ofNat hm, RecordCall.block, hindex,
      JsNumber.dropZeroSign_ofNat hlength, JsNumber.ofNat_inj hlength hm]
  constructor
  · intro hcheck
    obtain ⟨-, hvalid, -⟩ := checkBlock_eq_ok hcheck
    by_contra hnot
    rw [not_or] at hnot
    have hbad : (call.block blocks hash ms).hash ≠
          ofText (hashBlock host (call.block blocks hash ms).toBlockContent) ∧
        (call.block blocks hash ms).hash ≠
          ofText (legacyHash host (call.block blocks hash ms).data) := hnot
    rw [validateBlockHash, if_pos hbad] at hvalid
    cases hvalid
  · intro hhash
    have hvalid : validateBlockHash host (call.block blocks hash ms) file = .ok () := by
      rw [validateBlockHash, if_neg fun hbad => hhash.elim hbad.1 hbad.2, if_neg]
      rintro ⟨hfirst, -, hne⟩
      rw [hone 1 (by norm_num)] at hfirst
      obtain rfl := List.length_eq_zero_iff.mp (Nat.add_right_cancel hfirst)
      exact hne rfl
    rw [checkBlock, hvalid]
    rcases List.eq_nil_or_concat' blocks with rfl | ⟨init, previous, rfl⟩
    · have hfirst := (hone 1 (by norm_num)).mpr rfl
      have hprev : (call.block [] hash ms).prevHash = genesisPrevHash := rfl
      simp only [List.getLast?_nil, hfirst, hprev]
      rfl
    · have hsucc : (call.block (init ++ [previous]) hash ms).hasIndex
          (previous.index.add (.ofNat 1)) = true := by
        rw [List.length_append, List.length_singleton] at hlength hone
        rw [h.of_concat.2.index, JsNumber.add_one (by omega)]
        exact (hone _ (by omega)).mpr rfl
      have hlink : (call.block (init ++ [previous]) hash ms).prevHash = previous.hash := by
        rw [RecordCall.block, RecordCall.prevHash, List.getLast?_concat]
        rfl
      simp only [List.getLast?_concat, hsucc, hlink, not_true_eq_false, if_false, ne_eq]
      rfl

/-! ## Reading in order -/

/-- A block file with its name. -/
def loadFile (host : ChainHost) (f : IndexedFile) : Except Text (Text × ChainBlock) := do
  return (f.1.1, ← readBlockFile host f.1.2 f.1.1)

theorem read_eq (entries : Dir) : readAndValidateChainBlocks host entries =
    (readFiles entries).mapM (loadFile host) >>= fun loaded =>
      loaded.foldlM (checkBlock host) [] := rfl

/-- One more file that is read last. -/
theorem read_concat {entries entries' : Dir} {new : IndexedFile}
    (hfiles : readFiles entries' = readFiles entries ++ [new])
    (hread : readAndValidateChainBlocks host entries = .ok blocks) :
    readAndValidateChainBlocks host entries' =
      (readBlockFile host new.1.2 new.1.1).bind fun block =>
        checkBlock host blocks (new.1.1, block) := by
  rw [read_eq] at hread
  obtain ⟨loaded, hloaded, hblocks⟩ := bind_eq_ok.mp hread
  rw [read_eq, hfiles, List.mapM_append, hloaded, ok_bind]
  cases hnew : readBlockFile host new.1.2 new.1.1 with
  | error message =>
    have herror : [new].mapM (loadFile host) = .error message := by
      rw [List.mapM_cons, loadFile, hnew]
      rfl
    rw [herror]
    rfl
  | ok block =>
    have hone : [new].mapM (loadFile host) = .ok [(new.1.1, block)] := by
      rw [List.mapM_cons, loadFile, hnew]
      rfl
    rw [hone]
    have hfold : (loaded ++ [(new.1.1, block)]).foldlM (checkBlock host) [] =
        checkBlock host blocks (new.1.1, block) := by
      rw [List.foldlM_append, hblocks, ok_bind, List.foldlM_cons]
      cases checkBlock host blocks (new.1.1, block) <;> rfl
    exact hfold

/-- The files before and after one are the blocks before and after its. -/
theorem exists_split_of_read {entries : Dir} {new : IndexedFile} {front back : List IndexedFile}
    (hread : readAndValidateChainBlocks host entries = .ok blocks)
    (hfiles : readFiles entries = front ++ new :: back) :
    ∃ before block after, blocks = before ++ block :: after ∧ before.length = front.length ∧
      after.length = back.length ∧ readBlockFile host new.1.2 new.1.1 = .ok block := by
  rw [read_eq] at hread
  obtain ⟨loaded, hloaded, hblocks⟩ := bind_eq_ok.mp hread
  rw [hfiles, List.mapM_append, List.mapM_cons] at hloaded
  obtain ⟨first, hfirst, hloaded⟩ := bind_eq_ok.mp hloaded
  obtain ⟨rest, hrest, hloaded⟩ := bind_eq_ok.mp hloaded
  cases hloaded
  obtain ⟨one, hone, hrest⟩ := bind_eq_ok.mp hrest
  obtain ⟨others, hothers, hrest⟩ := bind_eq_ok.mp hrest
  cases hrest
  obtain ⟨block, hblock, hone⟩ := bind_eq_ok.mp hone
  cases hone
  rw [eq_append_of_foldlM_checkBlock hblocks, List.nil_append, List.map_append, List.map_cons]
  exact ⟨first.map Prod.snd, block, others.map Prod.snd, rfl,
    by rw [List.length_map, length_of_mapM_ok hfirst],
    by rw [List.length_map, length_of_mapM_ok hothers], hblock⟩

/-- Accepted blocks are numbered by their places. -/
theorem Accepted.index_of_split {before after : List ChainBlock} {block : ChainBlock}
    (h : Accepted host (before ++ block :: after)) : block.index = .ofNat (before.length + 1) := by
  induction after using List.reverseRecOn with
  | nil => exact h.of_concat.2.index
  | append_singleton after last ih =>
    rw [← List.cons_append, ← List.append_assoc] at h
    exact ih h.of_concat.1

/-! ## Appending, then verifying -/

/-- The file of the next block is a new one, and goes last. -/
structure Listing.Follows (listing : Listing) (dir : Dir) (blocks : List ChainBlock) : Prop where
  new : fileName (nextIndex blocks) ∉ fileNames dir
  last : listing.GoesLast dir ((fileName (nextIndex blocks), []), nextIndex blocks)

variable {dir dir' : Dir}

theorem verify_eq_ok_iff {entries : Dir} {m : ℕ} : verifyChainIntegrity host entries = .ok m ↔
    ∃ blocks, readAndValidateChainBlocks host entries = .ok blocks ∧ blocks.length = m := by
  constructor
  · exact exists_of_verify
  · rintro ⟨blocks, hread, rfl⟩
    rw [verifyChainIntegrity, hread]
    rfl

/-- The indexed files once the file of a block is written. -/
theorem indexedFiles_of_blockFiles {target : Text} {bytes : List UInt8} {index : JsNumber}
    (hindex : fileIndex target = index) (hfinite : index.isFinite = true)
    (h : blockFiles dir' = unlink (blockFiles dir) target ++ [(target, bytes)]) :
    indexedFiles dir' = indexedFiles (unlink dir target) ++ [((target, bytes), index)] := by
  rw [indexedFiles, indexedFiles, h, blockFiles_unlink_eq, List.map_append, List.filter_append,
    List.map_singleton, hindex, List.filter_cons_of_pos (by exact hfinite), List.filter_nil]

/-- A file that is replaced adds none. -/
theorem length_indexedFiles_unlink {target : Text} (hblock : isBlockFile target = true)
    (hfinite : (fileIndex target).isFinite = true) (hmem : target ∈ fileNames dir) :
    (indexedFiles (unlink dir target)).length < (indexedFiles dir).length := by
  obtain ⟨e, he, rfl⟩ := List.mem_map.mp hmem
  have hunlink : indexedFiles (unlink dir e.1) =
      (indexedFiles dir).filter fun f => f.1.1 ≠ e.1 := by
    rw [indexedFiles, indexedFiles, blockFiles_unlink_eq, unlink, List.filter_map,
      List.filter_filter, List.filter_map, List.filter_map, List.filter_filter]
    exact congrArg _ (List.filter_congr fun a _ => Bool.and_comm _ _)
  rw [hunlink, List.length_filter_lt_length_iff_exists]
  refine ⟨(e, fileIndex e.1), ?_, by simp⟩
  exact List.mem_filter.mpr ⟨List.mem_map.mpr ⟨e, List.mem_filter.mpr ⟨he, hblock⟩, rfl⟩, hfinite⟩

/-- **Appending, then verifying.** A directory that is verified, and to which a record is appended,
is verified with one block more exactly if the new file goes last among those of the directory and
the record is hashed as it is read back. -/
theorem verify_iff_rehashed (hsha : Function.Injective host.sha256)
    (hnames : (fileNames dir).Nodup) (hlength : dir.length + 1 < 2 ^ 53)
    (hverify : verifyChainIntegrity host (listing.readdir dir) = .ok n)
    (hread : readAndValidateChainBlocks host (listing.readdir dir) = .ok blocks)
    (happend : appendBlock host listing call dir = some dir') :
    verifyChainIntegrity host (listing.readdir dir') = .ok (n + 1) ↔
      listing.Follows dir blocks ∧ call.Rehashed host blocks := by
  obtain rfl : blocks.length = n := by
    obtain ⟨blocks', hread', rfl⟩ := exists_of_verify hverify
    rw [Except.ok.inj (hread.symm.trans hread')]
  have hcount : blocks.length = (indexedFiles dir).length := by
    rw [length_of_read hread, indexedFiles_readdir, List.length_insertionSort]
  have hbound : blocks.length + 1 < 2 ^ 53 := by
    have hle : (indexedFiles dir).length ≤ dir.length := by
      have hsublist := (names_indexedFiles dir).length_le
      rwa [List.length_map, fileNames, List.length_map] at hsublist
    omega
  have haccepted := accepted_of_read hread (by omega)
  have hindex := haccepted.nextIndex_eq hbound
  obtain ⟨canonical, text, hcanonical, hpayload, hblockFiles⟩ := appendBlock_eq_some hread happend
  have hfileIndex : fileIndex (fileName (nextIndex blocks)) = nextIndex blocks := by
    rw [hindex, fileIndex_fileName hbound]
  have hfinite : (nextIndex blocks).isFinite = true := by
    rw [hindex]
    exact JsNumber.isFinite_ofNat hbound
  have hfiles := indexedFiles_of_blockFiles hfileIndex hfinite hblockFiles
  by_cases hnew : fileName (nextIndex blocks) ∈ fileNames dir
  · -- the file of an earlier block is replaced
    refine iff_of_false ?_ fun h => h.1.new hnew
    intro hok
    obtain ⟨blocks', hread', hblocks'⟩ := exists_of_verify hok
    have hfewer := length_indexedFiles_unlink (isBlockFile_fileName _)
      (by rw [hfileIndex]; exact hfinite) hnew
    have hcount' := length_of_read hread'
    rw [indexedFiles_readdir, List.length_insertionSort, hfiles, List.length_append,
      List.length_singleton] at hcount'
    omega
  · rw [unlink_of_not_mem hnew] at hfiles
    have hother : ∀ f ∈ indexedFiles dir, f.1.1 ≠ fileName (nextIndex blocks) := by
      rintro f hf heq
      exact hnew (heq ▸ (names_indexedFiles dir).subset (List.mem_map_of_mem hf))
    obtain ⟨hconcat, hlast⟩ := @readFiles_concat_iff listing dir _ hnames hother dir' hfiles
    have hrecord {block : ChainBlock} :=
      @readBlockFile_record host call blocks _ hbound hindex _ _ hpayload
        (fileName (nextIndex blocks)) block
    have hkept : (∃ block,
        readBlockFile host (encodeUtf8 text) (fileName (nextIndex blocks)) = .ok block ∧
          checkBlock host blocks (fileName (nextIndex blocks), block) = .ok (blocks ++ [block])) ↔
        call.Rehashed host blocks := by
      constructor
      · rintro ⟨block, hblock, hcheck⟩
        obtain ⟨v, ms, hv, hown, rfl⟩ := hrecord.mp hblock
        exact ⟨v, ms, hv, hown, (hash_iff hsha hbound hindex hv hown hcanonical).mp
          ((checkBlock_record haccepted hbound _).mp hcheck)⟩
      · rintro ⟨v, ms, hv, hown, hhash⟩
        exact ⟨_, hrecord.mpr ⟨v, ms, hv, hown, rfl⟩, (checkBlock_record haccepted hbound _).mpr
          ((hash_iff hsha hbound hindex hv hown hcanonical).mpr hhash)⟩
    constructor
    · intro hok
      obtain ⟨blocks', hread', hblocks'⟩ := exists_of_verify hok
      have hgoesLast : listing.GoesLast dir
          ((fileName (nextIndex blocks), encodeUtf8 text), nextIndex blocks) := by
        have hmem : ((fileName (nextIndex blocks), encodeUtf8 text), nextIndex blocks) ∈
            readFiles (listing.readdir dir') := by
          rw [readFiles, List.mem_insertionSort, indexedFiles_readdir, List.mem_insertionSort,
            hfiles]
          exact List.mem_append_right _ List.mem_cons_self
        obtain ⟨front, back, hsplit⟩ := List.append_of_mem hmem
        obtain ⟨before, block, after, rfl, -, hafter, hblock⟩ := exists_split_of_read hread' hsplit
        obtain ⟨v, ms, -, -, rfl⟩ := hrecord.mp hblock
        rw [List.length_append, List.length_cons] at hblocks'
        -- an accepted block stands where its index says
        have hplace := (accepted_of_read hread' (by
          rw [List.length_append, List.length_cons]
          omega)).index_of_split
        rw [RecordCall.block, hindex, JsNumber.ofNat_inj hbound (by omega)] at hplace
        have hback : back = [] := List.length_eq_zero_iff.mp (by omega)
        rw [hback] at hsplit
        exact hlast front hsplit
      rw [read_concat (hconcat hgoesLast) hread] at hread'
      obtain ⟨block, hblock, hcheck⟩ := bind_eq_ok.mp hread'
      obtain ⟨rfl, -⟩ := checkBlock_eq_ok hcheck
      exact ⟨⟨hnew, hgoesLast⟩, hkept.mp ⟨block, hblock, hcheck⟩⟩
    · rintro ⟨hfollows, hkeeps⟩
      obtain ⟨block, hblock, hcheck⟩ := hkept.mpr hkeeps
      refine verify_eq_ok_iff.mpr ⟨blocks ++ [block], ?_, ?_⟩
      · rw [read_concat (hconcat hfollows.last) hread]
        exact bind_eq_ok.mpr ⟨block, hblock, hcheck⟩
      · rw [List.length_append, List.length_singleton]

end MemphisOS.Chain
