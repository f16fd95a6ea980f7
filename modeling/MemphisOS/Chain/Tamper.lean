import MemphisOS.Chain.Concurrency
import MemphisOS.Ecma.Equality
import MemphisOS.Ecma.Exceptions

/-!
# Altered chains

What the head hash of an accepted chain says about its blocks. Canonical hashes fix every
block back to the first; a hash of the data alone fixes only the data.
-/

namespace MemphisOS.Chain

open Ecma

variable {host : ChainHost}

/-! ## Accepted chains -/

variable (host) in
/-- What the validating loop has checked of a block that follows others. -/
structure Admissible (blocks : List ChainBlock) (block : ChainBlock) : Prop where
  index : block.index = .ofNat (blocks.length + 1)
  link : ∀ previous, blocks.getLast? = some previous → block.prevHash = previous.hash
  data : OwnOrdered (.obj block.data)
  hash : block.hash = ofText (hashBlock host block.toBlockContent) ∨
    block.hash = ofText (legacyHash host block.data)

variable (host) in
/-- The blocks the validating loop accepts. -/
inductive Accepted : List ChainBlock → Prop
  | nil : Accepted []
  | concat {blocks : List ChainBlock} {block : ChainBlock} :
      Accepted blocks → Admissible host blocks block → Accepted (blocks ++ [block])

/-- The last block of accepted blocks is admissible after the others. -/
theorem Accepted.of_concat {blocks : List ChainBlock} {block : ChainBlock}
    (h : Accepted host (blocks ++ [block])) : Accepted host blocks ∧ Admissible host blocks block := by
  generalize hall : blocks ++ [block] = all at h
  cases h with
  | nil => simp at hall
  | concat hinit hlast =>
    obtain ⟨rfl, hblock⟩ := List.append_inj' hall rfl
    obtain rfl := List.singleton_inj.mp hblock
    exact ⟨hinit, hlast⟩

/-- One round of the recovery collects documents only. -/
theorem ownOrdered_extractStep {state : ExtractState} (h : ∀ v ∈ state.out, OwnOrdered v)
    (ch : Char) : ∀ v ∈ (extractStep state ch).out, OwnOrdered v := by
  have hchunk : ∀ chunk : Option Text, ∀ v ∈ state.out ++
      (chunk.bind fun chunk => parseJson chunk.reverse).toList, OwnOrdered v := by
    intro chunk v hv
    rcases List.mem_append.mp hv with hv | hv
    · exact h v hv
    · obtain ⟨chunk, -, hparse⟩ := Option.bind_eq_some_iff.mp (Option.mem_toList.mp hv)
      exact ownOrdered_of_parseJson hparse
  unfold extractStep
  dsimp only
  by_cases hstring : state.inString = true
  · rw [if_pos hstring]
    split_ifs <;> exact h
  · rw [if_neg hstring]
    by_cases hquote : ch = '"'
    · rw [if_pos hquote]
      exact h
    · rw [if_neg hquote]
      by_cases hopen : ch = '{'
      · rw [if_pos hopen]
        exact h
      · rw [if_neg hopen]
        by_cases hclose : ch = '}' ∧ 0 < state.depth
        · rw [if_pos hclose]
          split_ifs
          · exact hchunk _
          · exact h
        · rw [if_neg hclose]
          exact h

theorem ownOrdered_extractJsonObjects (raw : Text) :
    ∀ v ∈ extractJsonObjects raw, OwnOrdered v := by
  have hloop : ∀ state : ExtractState, (∀ v ∈ state.out, OwnOrdered v) →
      ∀ v ∈ (raw.foldl extractStep state).out, OwnOrdered v := by
    induction raw with
    | nil => exact fun state h => h
    | cons ch raw ih => exact fun state h => ih _ (ownOrdered_extractStep h ch)
  exact hloop _ (by simp)

theorem ownOrdered_of_parseJsonObject {raw file : Text} {v : Plain}
    (h : parseJsonObject host raw file = .ok v) : OwnOrdered v := by
  unfold parseJsonObject at h
  simp only at h
  split at h
  · cases h
  · split at h
    · next hparse =>
      cases h
      exact ownOrdered_of_parseJson hparse
    · split at h
      · next hlast =>
        cases h
        exact ownOrdered_extractJsonObjects raw _ (List.mem_of_getLast? hlast)
      · cases h

theorem mem_of_lookup {α : Type} {k : JsString} {a : α} {ms : List (JsString × α)}
    (h : ms.lookup k = some a) : (k, a) ∈ ms := by
  obtain ⟨before, after, rfl, -⟩ := List.lookup_eq_some_iff.mp h
  simp

/-- The data of a block that is read is in order. -/
theorem ownOrdered_of_readBlockFile {bytes : List UInt8} {file : Text} {block : ChainBlock}
    (h : readBlockFile host bytes file = .ok block) : OwnOrdered (.obj block.data) := by
  obtain ⟨v, hparse, hblock⟩ := bind_eq_ok.mp h
  have hv := ownOrdered_of_parseJsonObject hparse
  unfold toChainBlock at hblock
  split at hblock
  · cases hblock
  · split at hblock
    · next hdata =>
      cases hblock
      exact (ownOrdered_obj.mp hv).2 _ (mem_of_lookup hdata)
    · cases hblock
  · cases hblock

/-- An accepted index is the index exactly. -/
theorem eq_ofNat_of_strictEq {n : JsNumber} {i : ℕ} (hi : i + 1 < 2 ^ 53)
    (h : n.strictEq (.ofNat (i + 1)) = true) : n = .ofNat (i + 1) := by
  rw [JsNumber.strictEq_ofNat hi] at h
  cases n with
  | negZero =>
    have hzero : JsNumber.ofNat 0 = .ofNat (i + 1) := h
    rw [JsNumber.ofNat_inj (by norm_num) hi] at hzero
    omega
  | _ => exact h

/-- A round of the loop that does not throw adds the block. -/
theorem checkBlock_eq_ok {blocks blocks' : List ChainBlock} {file : Text} {block : ChainBlock}
    (h : checkBlock host blocks (file, block) = .ok blocks') :
    blocks' = blocks ++ [block] ∧ validateBlockHash host block file = .ok () ∧
      match blocks.getLast? with
      | none => block.hasIndex (.ofNat 1) = true
      | some previous => block.hasIndex (previous.index.add (.ofNat 1)) = true ∧
          block.prevHash = previous.hash := by
  obtain ⟨_, hvalid, hblock⟩ := bind_eq_ok.mp h
  cases hlast : blocks.getLast? with
  | none =>
    simp only [hlast] at hblock
    split_ifs at hblock with hindex hgenesis
    cases hblock
    exact ⟨rfl, hvalid, by simpa using hindex⟩
  | some previous =>
    simp only [hlast] at hblock
    split_ifs at hblock with hindex hlink
    cases hblock
    exact ⟨rfl, hvalid, by simpa using hindex, by simpa using hlink⟩

/-- A round of the loop accepts admissible blocks only. -/
theorem Accepted.checkBlock {blocks blocks' : List ChainBlock} {file : Text} {block : ChainBlock}
    (hblocks : Accepted host blocks) (hdata : OwnOrdered (.obj block.data))
    (hlength : blocks'.length < 2 ^ 53)
    (h : checkBlock host blocks (file, block) = .ok blocks') : Accepted host blocks' := by
  obtain ⟨rfl, hvalid, hplace⟩ := checkBlock_eq_ok h
  rw [List.length_append, List.length_singleton] at hlength
  have hhash : block.hash = ofText (hashBlock host block.toBlockContent) ∨
      block.hash = ofText (legacyHash host block.data) := by
    by_contra hnot
    rw [not_or] at hnot
    rw [validateBlockHash, if_pos hnot] at hvalid
    cases hvalid
  rcases List.eq_nil_or_concat' blocks with rfl | ⟨init, previous, rfl⟩
  · exact .concat .nil ⟨eq_ofNat_of_strictEq (by norm_num) hplace, by simp, hdata, hhash⟩
  · simp only [List.getLast?_concat] at hplace
    obtain ⟨hindex, hlink⟩ := hplace
    rw [List.length_append, List.length_singleton] at hlength
    rw [hblocks.of_concat.2.index, JsNumber.add_one (by omega)] at hindex
    refine .concat hblocks ⟨?_, ?_, hdata, hhash⟩
    · rw [List.length_append, List.length_singleton]
      exact eq_ofNat_of_strictEq (by omega) hindex
    · intro last hlast
      rw [List.getLast?_concat] at hlast
      rw [← Option.some.inj hlast]
      exact hlink

/-- The loop adds one block a round. -/
theorem eq_append_of_foldlM_checkBlock {loaded : List (Text × ChainBlock)}
    {blocks blocks' : List ChainBlock} (h : loaded.foldlM (checkBlock host) blocks = .ok blocks') :
    blocks' = blocks ++ loaded.map Prod.snd := by
  induction loaded generalizing blocks with
  | nil =>
    cases h
    rw [List.map_nil, List.append_nil]
  | cons l loaded ih =>
    rw [List.foldlM_cons] at h
    obtain ⟨mid, hmid, h⟩ := bind_eq_ok.mp h
    obtain ⟨rfl, -⟩ := checkBlock_eq_ok hmid
    rw [ih h, List.append_assoc, List.singleton_append, List.map_cons]

/-- The loop accepts admissible blocks only. -/
theorem Accepted.foldlM {loaded : List (Text × ChainBlock)} {blocks blocks' : List ChainBlock}
    (hblocks : Accepted host blocks) (hdata : ∀ l ∈ loaded, OwnOrdered (.obj l.2.data))
    (hlength : blocks'.length < 2 ^ 53)
    (h : loaded.foldlM (Chain.checkBlock host) blocks = .ok blocks') : Accepted host blocks' := by
  induction loaded generalizing blocks with
  | nil =>
    cases h
    exact hblocks
  | cons l loaded ih =>
    rw [List.foldlM_cons] at h
    obtain ⟨mid, hmid, h⟩ := bind_eq_ok.mp h
    have hle : mid.length ≤ blocks'.length := by
      rw [eq_append_of_foldlM_checkBlock h, List.length_append]
      exact Nat.le_add_right _ _
    exact ih (hblocks.checkBlock (hdata l (by simp)) (by omega) hmid)
      (fun l' hl' => hdata l' (by simp [hl'])) h

/-- **Soundness of reading.** What is read and validated is accepted. -/
theorem accepted_of_read {entries : Dir} {blocks : List ChainBlock}
    (h : readAndValidateChainBlocks host entries = .ok blocks) (hlength : blocks.length < 2 ^ 53) :
    Accepted host blocks := by
  obtain ⟨loaded, hloaded, hblocks⟩ := bind_eq_ok.mp h
  refine Accepted.nil.foldlM (fun l hl => ?_) hlength hblocks
  obtain ⟨f, -, hf⟩ := exists_of_mem_mapM_ok hloaded hl
  obtain ⟨block, hread, hblock⟩ := bind_eq_ok.mp hf
  cases hblock
  exact ownOrdered_of_readBlockFile hread

/-- The validated blocks are the indexed files, each read. -/
theorem length_of_read {entries : Dir} {blocks : List ChainBlock}
    (h : readAndValidateChainBlocks host entries = .ok blocks) :
    blocks.length = (indexedFiles entries).length := by
  obtain ⟨loaded, hloaded, hblocks⟩ := bind_eq_ok.mp h
  rw [eq_append_of_foldlM_checkBlock hblocks, List.nil_append, List.length_map,
    length_of_mapM_ok hloaded, List.length_insertionSort]

theorem exists_of_verify {entries : Dir} {n : ℕ} (h : verifyChainIntegrity host entries = .ok n) :
    ∃ blocks, readAndValidateChainBlocks host entries = .ok blocks ∧ blocks.length = n := by
  rw [verifyChainIntegrity] at h
  cases hread : readAndValidateChainBlocks host entries with
  | error message =>
    rw [hread] at h
    cases h
  | ok blocks =>
    rw [hread] at h
    exact ⟨blocks, rfl, Except.ok.inj h⟩

theorem exists_of_read {entries : Dir} {blocks : List ChainBlock}
    (h : readAndValidateChainBlocks host entries = .ok blocks) {f : IndexedFile}
    (hf : f ∈ indexedFiles entries) :
    ∃ block ∈ blocks, readBlockFile host f.1.2 f.1.1 = .ok block := by
  obtain ⟨loaded, hloaded, hblocks⟩ := bind_eq_ok.mp h
  obtain ⟨l, hl, hfl⟩ := exists_mem_of_mapM_ok hloaded ((List.mem_insertionSort IndexLe).mpr hf)
  obtain ⟨block, hread, hblock⟩ := bind_eq_ok.mp hfl
  cases hblock
  rw [eq_append_of_foldlM_checkBlock hblocks, List.nil_append]
  exact ⟨block, List.mem_map_of_mem hl, hread⟩

/-- Accepted blocks are numbered from one, and their hashes are checked. -/
theorem Accepted.of_mem {blocks : List ChainBlock} (h : Accepted host blocks) {block : ChainBlock}
    (hmem : block ∈ blocks) : (∃ i < blocks.length, block.index = .ofNat (i + 1)) ∧
      (block.hash = ofText (hashBlock host block.toBlockContent) ∨
        block.hash = ofText (legacyHash host block.data)) := by
  induction h with
  | nil => cases hmem
  | @concat blocks last _ hlast ih =>
    rw [List.length_append, List.length_singleton]
    rcases List.mem_append.mp hmem with hmem | hmem
    · obtain ⟨⟨i, hi, hindex⟩, hhash⟩ := ih hmem
      exact ⟨⟨i, by omega, hindex⟩, hhash⟩
    · obtain rfl := List.mem_singleton.mp hmem
      exact ⟨⟨blocks.length, by omega, hlast.index⟩, hlast.hash⟩

/-! ## The canonical hash fixes a block -/

/-- The two blocks are equal in every field but the hash. -/
structure SameBlock (original altered : ChainBlock) : Prop where
  index : altered.index = original.index
  timestamp : altered.timestamp = original.timestamp
  chain : altered.chain = original.chain
  data : DeepEqual (.obj altered.data) (.obj original.data)
  prevHash : altered.prevHash = original.prevHash

/-- Sorting by locale only rearranges properties. -/
theorem unordered_sortValue {v : Plain} (h : OwnOrdered v) :
    unordered (sortValue host v) = unordered v := by
  refine unordered_reshape (fun ms => ?_) h (Json.allNumbers_of_forall (fun _ => rfl) v)
  exact (orderMembers_perm _).trans (List.perm_insertionSort _ ms)

/-- Equal canonical texts are of deeply equal values. -/
theorem deepEqual_of_stableStringify {v w : Plain} (hv : OwnOrdered v) (hw : OwnOrdered w)
    (hvfinite : FiniteNumbers v) (hwfinite : FiniteNumbers w)
    (h : stableStringify host v = stableStringify host w) : DeepEqual v w := by
  have himage := (jsonText_inj (by simp [Json.Blank])).mp h
  rw [← sortValue_jsonImage, ← sortValue_jsonImage] at himage
  have hunordered := congrArg unordered himage
  rwa [unordered_sortValue hv.jsonImage, unordered_sortValue hw.jsonImage,
    unordered_jsonImage hv hvfinite, unordered_jsonImage hw hwfinite] at hunordered

/-- The content with its properties sorted. -/
theorem unordered_value (content : BlockContent) :
    unordered content.value = .obj [(js "chain", .str content.chain),
      (js "data", unordered (.obj content.data)), (js "index", .num content.index.dropZeroSign),
      (js "prev_hash", .str content.prevHash), (js "timestamp", .str content.timestamp)] := by
  rw [BlockContent.value, unordered_obj]
  rfl

/-- Deeply equal contents are the same block. -/
theorem sameBlock_of_deepEqual {original altered : ChainBlock} {i j : ℕ} (hi : i < 2 ^ 53)
    (hj : j < 2 ^ 53) (horiginal : original.index = .ofNat i) (haltered : altered.index = .ofNat j)
    (h : DeepEqual altered.toBlockContent.value original.toBlockContent.value) :
    SameBlock original altered := by
  rw [DeepEqual, unordered_value, unordered_value] at h
  simp only [Json.obj.injEq, List.cons.injEq, Prod.mk.injEq, true_and, and_true, Json.str.injEq,
    Json.num.injEq] at h
  obtain ⟨hchain, hdata, hindex, hprev, htimestamp⟩ := h
  rw [horiginal, haltered, JsNumber.dropZeroSign_ofNat hi, JsNumber.dropZeroSign_ofNat hj] at hindex
  exact ⟨by rw [haltered, horiginal, hindex], htimestamp, hchain, hdata, hprev⟩

theorem ownOrdered_content {content : BlockContent} (h : OwnOrdered (.obj content.data)) :
    OwnOrdered content.value := by
  rw [BlockContent.value, ownOrdered_obj]
  simp only [List.map_cons, List.map_nil]
  refine ⟨⟨by decide, by decide⟩, ?_⟩
  simp only [List.mem_cons, List.not_mem_nil, or_false]
  rintro m (rfl | rfl | rfl | rfl | rfl)
  · trivial
  · trivial
  · trivial
  · exact h
  · trivial

theorem finiteNumbers_content {content : BlockContent} {i : ℕ} (hi : i < 2 ^ 53)
    (hindex : content.index = .ofNat i) (h : FiniteNumbers (.obj content.data)) :
    FiniteNumbers content.value := by
  rw [FiniteNumbers, BlockContent.value, Json.allNumbers_obj]
  simp only [List.mem_cons, List.not_mem_nil, or_false]
  rintro m (rfl | rfl | rfl | rfl | rfl)
  · rw [hindex]
    exact JsNumber.isFinite_ofNat hi
  · trivial
  · trivial
  · exact h
  · trivial

/-- **One block.** Canonical hashes of finite blocks fix the blocks. -/
theorem sameBlock_of_hashBlock (hsha : Function.Injective host.sha256) {original altered : ChainBlock}
    {i j : ℕ} (hi : i < 2 ^ 53) (hj : j < 2 ^ 53) (horiginal : original.index = .ofNat i)
    (haltered : altered.index = .ofNat j) (hdata : OwnOrdered (.obj original.data))
    (hdata' : OwnOrdered (.obj altered.data)) (hfinite : FiniteNumbers (.obj original.data))
    (hfinite' : FiniteNumbers (.obj altered.data))
    (h : hashBlock host altered.toBlockContent = hashBlock host original.toBlockContent) :
    SameBlock original altered :=
  sameBlock_of_deepEqual hi hj horiginal haltered
    (deepEqual_of_stableStringify (ownOrdered_content hdata') (ownOrdered_content hdata)
      (finiteNumbers_content hj haltered hfinite') (finiteNumbers_content hi horiginal hfinite)
      (hsha h))

/-- A block has more nodes than its data, so the legacy hash of deeply equal data is not the
canonical hash. -/
theorem legacyHash_ne_hashBlock (hsha : Function.Injective host.sha256)
    {original altered : ChainBlock} (h : DeepEqual (.obj altered.data) (.obj original.data)) :
    legacyHash host altered.data ≠ hashBlock host original.toBlockContent := by
  intro hhash
  have himage := (jsonText_inj (by simp [Json.Blank])).mp (hsha hhash)
  have hnumber : ∀ n, (jsonNumber n).size = 1 := fun n => by cases n <;> rfl
  have hsizeImage : ∀ v, (jsonImage v).size = v.size := size_reshape hnumber fun _ => .refl _
  have hsizeSort : ∀ v, (sortValue host v).size = v.size :=
    size_reshape (fun _ => rfl) fun ms =>
      (orderMembers_perm _).trans (List.perm_insertionSort _ ms)
  have hsize := congrArg Json.size himage
  rw [hsizeImage, hsizeImage, hsizeSort, h.size_eq, BlockContent.value, Json.size_obj ([_, _, _, _, _])]
    at hsize
  simp only [List.map_cons, List.map_nil, List.sum_cons, List.sum_nil, Json.size_num, Json.size_str]
    at hsize
  omega

/-! ## Back from the head -/

/-- The block is bound by its hash: it does not carry the legacy hash of its data, and no number
of its data has overflowed. -/
def Bound (host : ChainHost) (block : ChainBlock) : Prop :=
  block.hash ≠ ofText (legacyHash host block.data) ∧ FiniteNumbers (.obj block.data)

/-- The blocks of a chain as they are read back. -/
structure Original (host : ChainHost) (blocks : List ChainBlock) (block : ChainBlock) : Prop where
  index : block.index = .ofNat (blocks.length + 1)
  link : ∀ previous, blocks.getLast? = some previous → block.prevHash = previous.hash
  data : OwnOrdered (.obj block.data)
  finite : FiniteNumbers (.obj block.data)
  hash : block.hash = ofText (hashBlock host block.toBlockContent)

theorem Continues.original {blocks : List ChainBlock} {block : ChainBlock}
    (h : Continues host blocks block) (hlength : blocks.length + 1 < 2 ^ 53) :
    Original host (blocks.map ChainBlock.image) block.image where
  index := by
    rw [List.length_map]
    exact h.index
  link previous hprevious := by
    rw [List.getLast?_map] at hprevious
    obtain ⟨last, hlast, rfl⟩ := Option.map_eq_some_iff.mp hprevious
    have hprev := h.prevHash
    rw [hlast] at hprev
    exact hprev
  data := by
    have himage := h.data.jsonImage
    rwa [jsonImage_obj] at himage
  finite := by
    have himage := FiniteNumbers.of_jsonNumbers (jsonNumbers_jsonImage (.obj block.data))
    rwa [jsonImage_obj] at himage
  hash := by
    rw [hashBlock_image hlength h.index]
    exact h.hash

/-- Two blocks with one hash are the same exactly when the accepted one is bound by it. -/
theorem sameBlock_iff_bound (hsha : Function.Injective host.sha256)
    {originals blocks : List ChainBlock} {original altered : ChainBlock}
    (hlength : originals.length + 1 < 2 ^ 53) (hblocks : blocks.length + 1 < 2 ^ 53)
    (horiginal : Original host originals original) (haltered : Admissible host blocks altered)
    (hhash : altered.hash = original.hash) :
    SameBlock original altered ↔ Bound host altered := by
  constructor
  · intro hsame
    refine ⟨fun hlegacy => ?_, ?_⟩
    · rw [hhash, horiginal.hash] at hlegacy
      exact legacyHash_ne_hashBlock hsha hsame.data (ofText_injective hlegacy).symm
    · exact DeepEqual.finiteNumbers hsame.data.symm horiginal.finite
  · rintro ⟨hlegacy, hfinite⟩
    have hcanonical := haltered.hash.resolve_right hlegacy
    rw [hhash, horiginal.hash] at hcanonical
    exact sameBlock_of_hashBlock hsha hlength hblocks horiginal.index haltered.index horiginal.data
      haltered.data horiginal.finite hfinite (ofText_injective hcanonical).symm

theorem forall₂_concat {α β : Type} {R : α → β → Prop} {as : List α} {bs : List β} {a : α} {b : β} :
    List.Forall₂ R (as ++ [a]) (bs ++ [b]) ↔ List.Forall₂ R as bs ∧ R a b := by
  rw [← List.forall₂_reverse_iff, List.reverse_concat, List.reverse_concat, List.forall₂_cons,
    List.forall₂_reverse_iff, and_comm]

/-- The same predecessor hash is the same hash of the predecessor. -/
theorem head_eq_of_prevHash {originals blocks : List ChainBlock} {original altered : ChainBlock}
    (hlength : blocks.length = originals.length) (horiginal : Original host originals original)
    (haltered : Admissible host blocks altered) (hprev : altered.prevHash = original.prevHash) :
    blocks.getLast?.map ChainBlock.hash = originals.getLast?.map ChainBlock.hash := by
  rcases List.eq_nil_or_concat' blocks with rfl | ⟨init, previous, rfl⟩
  · obtain rfl := List.length_eq_zero_iff.mp hlength.symm
    rfl
  · rcases List.eq_nil_or_concat' originals with rfl | ⟨init', previous', rfl⟩
    · simp at hlength
    · have hlink := haltered.link previous (by simp)
      have hlink' := horiginal.link previous' (by simp)
      simp [← hlink, ← hlink', hprev]

/-- **Back from the head.** An accepted chain with the length and the head hash of a chain that
was appended consists of the same blocks exactly when its blocks are bound by their hashes. -/
theorem forall₂_sameBlock_iff (hsha : Function.Injective host.sha256) {blocks altered : List ChainBlock}
    (h : Chained host blocks) (haltered : Accepted host altered) (hbound : blocks.length < 2 ^ 53)
    (hlength : altered.length = blocks.length)
    (hhead : altered.getLast?.map ChainBlock.hash = blocks.getLast?.map ChainBlock.hash) :
    List.Forall₂ SameBlock (blocks.map ChainBlock.image) altered ↔
      ∀ block ∈ altered, Bound host block := by
  induction h generalizing altered with
  | nil =>
    obtain rfl := List.length_eq_zero_iff.mp hlength
    simp
  | @concat blocks block h hnext ih =>
    rw [List.length_append, List.length_singleton] at hbound hlength
    cases haltered with
    | nil => simp at hlength
    | @concat init last hinit hlast =>
      rw [List.length_append, List.length_singleton] at hlength
      have horiginal := hnext.original hbound
      have hhash : last.hash = block.image.hash := by simpa using hhead
      have hiff := sameBlock_iff_bound hsha (by rw [List.length_map]; exact hbound) (by omega)
        horiginal hlast hhash
      rw [List.map_append, List.map_singleton, forall₂_concat, List.forall_mem_append, hiff,
        List.forall_mem_singleton]
      refine and_congr_left fun hsame => ih hinit (by omega) (by omega) ?_
      have hprev := head_eq_of_prevHash (by rw [List.length_map]; omega) horiginal hlast
        (hiff.mpr hsame).prevHash
      rwa [List.getLast?_map, Option.map_map] at hprev

variable {fs : FileSystem} {calls : ℕ → AppendCall} {s : ChainState}

/-- **Tamper evidence.** Take a directory that `appendBlock` alone has written, and one with as
many blocks and the same head hash that is accepted too. Its blocks are the original ones exactly
when each of them is bound by its hash. -/
theorem altered_blocks_same_iff (hsha : Function.Injective host.sha256)
    (hs : (appendSystem host fs calls).Reachable s) {listing altered : Dir}
    (hlisting : listing.Perm s.dir) {originals blocks : List ChainBlock}
    (horiginals : readAndValidateChainBlocks host listing = .ok originals)
    (hblocks : readAndValidateChainBlocks host altered = .ok blocks)
    (hlength : blocks.length = originals.length)
    (hhead : blocks.getLast?.map ChainBlock.hash = originals.getLast?.map ChainBlock.hash) :
    List.Forall₂ SameBlock originals blocks ↔ ∀ block ∈ blocks, Bound host block := by
  obtain ⟨stored, hinv⟩ := exists_chainInv hs
  have hbound := hinv.dir.length_lt
  have hread := readAndValidate_of_perm hinv.dir.chained hbound
    ((hlisting.filter _).trans hinv.dir.files)
  obtain rfl : (stored.map Prod.snd).map ChainBlock.image = originals :=
    Except.ok.inj (hread.symm.trans horiginals)
  rw [List.length_map] at hlength
  refine forall₂_sameBlock_iff hsha hinv.dir.chained (accepted_of_read hblocks (by omega))
    (by omega) hlength ?_
  rwa [List.getLast?_map, Option.map_map] at hhead

/-! ## A forged block -/

/-- The properties of the object that is hashed, sorted as they are for hashing. -/
def sortedMembers (host : ChainHost) (content : BlockContent) : List (JsString × Plain) :=
  match sortValue host content.value with
  | .obj ms => ms
  | _ => []

/-- Another time and another chain for a block, with the hashed object as data: the legacy hash
of the new block is the canonical hash of the old one. -/
def forge (host : ChainHost) (block : ChainBlock) (timestamp chain : JsString) : ChainBlock :=
  { block with timestamp, chain, data := sortedMembers host block.toBlockContent }

theorem sortedMembers_eq (content : BlockContent) :
    .obj (sortedMembers host content) = sortValue host content.value := by
  rw [sortedMembers, BlockContent.value, sortValue_obj]

theorem legacyHash_forge (block : ChainBlock) (timestamp chain : JsString) :
    legacyHash host (forge host block timestamp chain).image.data =
      hashBlock host block.toBlockContent := by
  have himage : (.obj (forge host block timestamp chain).image.data : Plain) =
      jsonImage (sortValue host block.toBlockContent.value) := by
    rw [← sortedMembers_eq, jsonImage_obj]
    rfl
  rw [legacyHash, himage, hashBlock, stableStringify, jsonText, jsonText, jsonImage_jsonImage]

/-- Sorting for hashing puts the properties in order. -/
theorem ownOrdered_sortValue {v : Plain} (h : OwnOrdered v) : OwnOrdered (sortValue host v) := by
  induction v using Json.induct with
  | null => trivial
  | bool b => trivial
  | num n => trivial
  | str s => trivial
  | arr vs ih =>
    rw [ownOrdered_arr] at h
    rw [sortValue_arr, ownOrdered_arr]
    intro v hv
    obtain ⟨w, hw, rfl⟩ := List.mem_map.mp hv
    exact ih w hw (h w hw)
  | obj ms ih =>
    rw [ownOrdered_obj] at h
    rw [sortValue_obj, ownOrdered_obj]
    have hperm := (orderMembers_perm ((ms.map fun m => (m.1, sortValue host m.2)).insertionSort
      (LocaleBefore host))).trans (List.perm_insertionSort _ _)
    refine ⟨⟨?_, orderMembers_pairwise _⟩, ?_⟩
    · rw [(hperm.map Prod.fst).nodup_iff, List.map_map]
      exact h.1.1
    · intro m hm
      obtain ⟨n, hn, rfl⟩ := List.mem_map.mp (hperm.mem_iff.mp hm)
      exact ih n hn (h.2 n hn)

/-- A directory whose only block is forged from the first block of a chain is accepted. -/
theorem forged_accepted {block : ChainBlock} (h : Continues host [] block) (timestamp chain : JsString) :
    readAndValidateChainBlocks host (storedFiles [forge host block timestamp chain]) =
      .ok [(forge host block timestamp chain).image] := by
  set forged := forge host block timestamp chain
  have hindex : forged.index = .ofNat 1 := h.index
  have hprev : forged.prevHash = genesisPrevHash := h.prevHash
  have hdata : OwnOrdered (.obj forged.data) := by
    rw [show (.obj forged.data : Plain) = _ from sortedMembers_eq block.toBlockContent]
    exact ownOrdered_sortValue (ownOrdered_content h.data)
  have hindexed : indexedFiles (storedFiles [forged]) = [forged.file] := by
    have hfile : fileIndex (fileName forged.index) = forged.index := by
      rw [hindex, fileIndex_fileName (by norm_num)]
    have hfinite : forged.index.isFinite = true := by
      rw [hindex, JsNumber.isFinite_ofNat (by norm_num)]
    simp [indexedFiles, blockFiles, storedFiles, isBlockFile_fileName, hfile, hfinite,
      ChainBlock.file]
  have hread : readBlockFile host forged.payload (fileName forged.index) = .ok forged.image :=
    readBlockFile_payload (by norm_num) hindex hdata _
  have hlegacy : ofText (legacyHash host forged.image.data) = forged.image.hash := by
    rw [legacyHash_forge]
    exact h.hash.symm
  have hvalid : validateBlockHash host forged.image (fileName forged.index) = .ok () := by
    rw [validateBlockHash, if_neg fun hbad => hbad.2 hlegacy.symm, if_neg]
    rintro ⟨-, -, hne⟩
    exact hne hprev
  have hone : forged.image.hasIndex (.ofNat 1) = true := by
    rw [BlockContent.hasIndex, JsNumber.strictEq_ofNat (by norm_num), ChainBlock.image_index, hindex,
      JsNumber.dropZeroSign_ofNat (by norm_num)]
  have hcheck : checkBlock host [] (fileName forged.index, forged.image) = .ok [forged.image] := by
    rw [checkBlock]
    simp only [hvalid, List.getLast?_nil, hone, ChainBlock.image_prevHash, hprev]
    rfl
  have hload : ([forged.file].insertionSort IndexLe).mapM (fun f => do
      return (f.1.1, ← readBlockFile host f.1.2 f.1.1)) =
        .ok [(fileName forged.index, forged.image)] := by
    refine mapM_map_ok (l := [forged]) (e := ChainBlock.file)
      (g := fun block => (fileName block.index, block.image)) fun block hblock => ?_
    rw [List.mem_singleton.mp hblock, ChainBlock.file, hread]
    rfl
  have hloop : [(fileName forged.index, forged.image)].foldlM (checkBlock host) [] =
      .ok [forged.image] := by
    rw [List.foldlM_cons, hcheck]
    rfl
  rw [readAndValidateChainBlocks, hindexed, hload]
  exact hloop

theorem sampleSha256_injective : Function.Injective sampleSha256 := by
  intro a b h
  unfold sampleSha256 at h
  split_ifs at h with ha hb hb
  · rw [ha, hb]
  · simp at h
  · simp at h
  · exact List.cons_injective h

/-- The block of `sampleCall`. -/
def sampleBlock : ChainBlock := sampleCall.block sampleHost [] (isoText 1000)

theorem sampleBlock_continues : Continues sampleHost [] sampleBlock :=
  (prepared_block .nil (by norm_num) sampleCall (isoText 1000) 1000).continues

/-- The state after `sampleCall` has returned. -/
def sampleState : ChainState := ⟨storedFiles [sampleBlock], aloneAt (.returned sampleBlock.result)⟩

theorem sampleState_reachable :
    (appendSystem sampleHost sampleFileSystem fun _ => sampleCall).Reachable sampleState :=
  reachable_of_append (by decide) 1000 1000

theorem read_sampleState :
    readAndValidateChainBlocks sampleHost sampleState.dir = .ok [sampleBlock.image] :=
  readAndValidate_of_perm (.concat .nil sampleBlock_continues) (by norm_num)
    (by simp [sampleState, blockFiles, storedFiles, isBlockFile_fileName])

/-- The block of `sampleCall` under another time and another chain. -/
def forgedBlock : ChainBlock :=
  forge sampleHost sampleBlock (js "2030-01-01T00:00:00.000Z") (js "decisions")

theorem read_forgedBlock :
    readAndValidateChainBlocks sampleHost (storedFiles [forgedBlock]) = .ok [forgedBlock.image] :=
  forged_accepted sampleBlock_continues _ _

theorem forgedBlock_hash : forgedBlock.image.hash = sampleBlock.image.hash := by
  rw [forgedBlock, ChainBlock.image_hash, ChainBlock.image_hash, forge]

/-- The forged chain has one block, as the original, and its hash. -/
theorem altered_blocks_same_iff_sample :
    List.Forall₂ SameBlock [sampleBlock.image] [forgedBlock.image] ↔
      ∀ block ∈ [forgedBlock.image], Bound sampleHost block :=
  altered_blocks_same_iff sampleSha256_injective sampleState_reachable (.refl _) read_sampleState
    read_forgedBlock rfl (by simp only [List.getLast?_singleton, Option.map_some, forgedBlock_hash])

/-- The forged block passes for the first block under another time and another chain. -/
theorem forged_chain_accepted :
    Function.Injective sampleHost.sha256 ∧
      (appendSystem sampleHost sampleFileSystem fun _ => sampleCall).Reachable sampleState ∧
      readAndValidateChainBlocks sampleHost sampleState.dir = .ok [sampleBlock.image] ∧
      readAndValidateChainBlocks sampleHost (storedFiles [forgedBlock]) = .ok [forgedBlock.image] ∧
      forgedBlock.image.hash = sampleBlock.image.hash ∧
      ¬List.Forall₂ SameBlock [sampleBlock.image] [forgedBlock.image] := by
  refine ⟨sampleSha256_injective, sampleState_reachable, read_sampleState, read_forgedBlock,
    forgedBlock_hash, ?_⟩
  rintro (_ | ⟨hsame, -⟩)
  have hchain : js "decisions" = js "journal" := hsame.chain
  exact absurd hchain (by decide)

end MemphisOS.Chain
