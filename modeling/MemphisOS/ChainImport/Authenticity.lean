import MemphisOS.Chain.Tamper
import MemphisOS.ChainImport.Reconcile
import MemphisOS.Ecma.Transparency

/-!
# Importing blocks of the chain store

The chain store numbers blocks from one and hashes all their data, the importer numbers them from
zero and keeps three members of their data. What a valid import keeps of the blocks of an accepted
chain, and what has to be put back before their hashes verify.
-/

namespace MemphisOS.ChainImport

open Ecma Sequences
open Chain (ChainBlock ChainHost Dir readAndValidateChainBlocks validateBlockHash)

/-! ## Blocks of the store as candidates -/

/-- A string that is there and not empty. -/
def nonEmpty (s : JsString) : Option JsString := if s = [] then none else some s

/-- The members the importer keeps of the data of a block. -/
def importedData (data : UnknownRecord) : Option BlockData :=
  blockData (pickString data ["type", "block_type"]) (pickString data ["content", "text"])
    (pickStringArray data ["tags"])

/-- A block of the store with its index and its data put back. -/
def putBack (source : ChainBlock) (returned : Block) : ChainBlock :=
  { index := source.index
    timestamp := returned.timestamp.getD []
    chain := returned.chain.getD []
    data := source.data
    prevHash := returned.prevHash
    hash := returned.hash }

/-- What an imported block keeps of a block of the store. An empty `prev_hash` is read as that of
the genesis block, an empty timestamp or chain is left out. -/
structure Kept (source : ChainBlock) (returned : Block) : Prop where
  hash : returned.hash = source.hash
  prevHash : returned.prevHash = (nonEmpty source.prevHash).getD genesisPrevHash
  timestamp : returned.timestamp = nonEmpty source.timestamp
  chain : returned.chain = nonEmpty source.chain
  data : returned.data = importedData source.data

variable {source : ChainBlock} {returned : Block}

theorem nonEmpty_getD (s : JsString) : (nonEmpty s).getD [] = s := by
  unfold nonEmpty
  split
  · next h => exact h.symm
  · rfl

/-- Unless its `prev_hash` was empty, the block is the one that was stored. -/
theorem Kept.putBack_eq (h : Kept source returned) (hprev : source.prevHash ≠ []) :
    putBack source returned = source := by
  rw [putBack, h.hash, h.prevHash, h.timestamp, h.chain, nonEmpty_getD, nonEmpty_getD, nonEmpty,
    if_neg hprev]
  rfl

theorem stringValue_str_eq (s : JsString) : stringValue (some (.str s)) = nonEmpty s := by
  cases s <;> rfl

/-- The members of `ChainBlock.value`. -/
def storedMembers (block : ChainBlock) : UnknownRecord :=
  [(js "index", .num block.index), (js "timestamp", .str block.timestamp),
    (js "chain", .str block.chain), (js "data", .obj block.data),
    (js "prev_hash", .str block.prevHash), (js "hash", .str block.hash)]

theorem lookup_storedMembers (block : ChainBlock) (key : String) :
    (storedMembers block).lookup (js key) =
      if key = "index" then some (.num block.index)
      else if key = "timestamp" then some (.str block.timestamp)
      else if key = "chain" then some (.str block.chain)
      else if key = "data" then some (.obj block.data)
      else if key = "prev_hash" then some (.str block.prevHash)
      else if key = "hash" then some (.str block.hash) else none := by
  rw [storedMembers, lookup_js_cons, lookup_js_cons, lookup_js_cons, lookup_js_cons,
    lookup_js_cons, lookup_js_cons, List.lookup_nil]

theorem asRecord_value (block : ChainBlock) :
    asRecord block.value = some (storedMembers block) := rfl

/-- A block of the store with a hash is normalised to a block that keeps it. -/
theorem normalizeCandidate_chainBlock (hhash : source.hash ≠ []) (indexHint : ℕ) :
    ∃ block, normalizeCandidate source.value indexHint = .ok block ∧ Kept source block ∧
      (source.index.isFinite = true → block.index = source.index) := by
  have hpick : pickString (storedMembers source) ["hash", "block_hash"] = some source.hash := by
    simp [pickString_cons, pickString_nil, lookup_storedMembers, stringValue_str hhash]
  have hprev : pickString (storedMembers source) ["prev_hash", "prevHash", "previous_hash",
      "previousHash"] = nonEmpty source.prevHash := by
    simp [pickString_cons, pickString_nil, lookup_storedMembers, stringValue_str_eq,
      stringValue_none]
  have htimestamp : pickString (storedMembers source) ["timestamp", "ts", "created_at"] =
      nonEmpty source.timestamp := by
    simp [pickString_cons, pickString_nil, lookup_storedMembers, stringValue_str_eq,
      stringValue_none]
  have hchain : pickString (storedMembers source) ["chain", "chain_name"] =
      nonEmpty source.chain := by
    simp [pickString_cons, pickString_nil, lookup_storedMembers, stringValue_str_eq,
      stringValue_none]
  have hnone : pickString (storedMembers source) ["content"] = none ∧
      pickStringArray (storedMembers source) ["tags"] = none ∧
      pickString (storedMembers source) ["type", "block_type"] = none := by
    simp [pickString_cons, pickString_nil, pickStringArray, lookup_storedMembers,
      stringValue_none, stringArrayValue_none]
  have hdata : (storedMembers source).lookup (js "data") = some (.obj source.data) := by
    simp [lookup_storedMembers]
  unfold normalizeCandidate
  rw [asRecord_value]
  dsimp only
  rw [hpick]
  refine ⟨_, rfl, ⟨rfl, congrArg (·.getD genesisPrevHash) hprev, htimestamp, hchain, ?_⟩,
    fun hfinite => ?_⟩
  · dsimp only
    rw [hnone.1, hnone.2.1, hnone.2.2, hdata]
    rfl
  · simp [pickNumber, lookup_storedMembers, numberValue, hfinite]

/-- A block of the store without a hash is refused. -/
theorem normalizeCandidate_no_hash (hhash : source.hash = []) (indexHint : ℕ) :
    ∃ issue, normalizeCandidate source.value indexHint = .error issue ∧
      issue.reason ≠ .duplicateHash := by
  have hpick : pickString (storedMembers source) ["hash", "block_hash"] = none := by
    simp [pickString_cons, pickString_nil, lookup_storedMembers, stringValue_none, hhash,
      stringValue_str_eq, nonEmpty]
  unfold normalizeCandidate
  rw [asRecord_value]
  dsimp only
  rw [hpick]
  exact ⟨_, rfl, by intro h; cases h⟩

/-! ## What a valid result says -/

/-- The issues that leave a result valid. -/
def Harmless (issues : List ImportIssue) : Prop := ∀ issue ∈ issues, issue.reason = .duplicateHash

theorem Harmless.of_append {issues issues' : List ImportIssue} (h : Harmless (issues ++ issues')) :
    Harmless issues ∧ Harmless issues' :=
  List.forall_mem_append.mp h

/-- After the first pass without a harmful issue, every candidate that is no duplicate has been
normalised. -/
theorem harmless_foldl {candidates : List (Plain × ℕ)} {state : Normalized}
    (h : Harmless (candidates.foldl normalizeStep state).issues) :
    Harmless state.issues ∧ ∀ candidate ∈ candidates, ∀ issue,
      normalizeCandidate candidate.1 candidate.2 = .error issue →
        issue.reason = .duplicateHash := by
  induction candidates generalizing state with
  | nil => exact ⟨h, fun _ hmem => absurd hmem List.not_mem_nil⟩
  | cons candidate rest ih =>
    obtain ⟨hstep, hrest⟩ := ih h
    rw [normalizeStep] at hstep
    cases hblock : normalizeCandidate candidate.1 candidate.2 with
    | error issue =>
      rw [hblock] at hstep
      obtain ⟨hstate, hissue⟩ := hstep.of_append
      refine ⟨hstate, List.forall_mem_cons.mpr ⟨fun other hother => ?_, hrest⟩⟩
      obtain rfl := Except.error.inj (hblock.symm.trans hother)
      exact hissue issue List.mem_cons_self
    | ok block =>
      rw [hblock] at hstep
      refine ⟨?_, List.forall_mem_cons.mpr ⟨fun other hother => ?_, hrest⟩⟩
      · dsimp only at hstep
        split at hstep
        · exact hstep.of_append.1
        · exact hstep
      · cases hblock.symm.trans hother

/-- The second pass adds issues only. -/
theorem issues_reconcileFrom {blocks : List Block} {i : ℕ} {state state' : Reconciled}
    (hrun : reconcileFrom i state blocks = .ok state') : state.issues <+: state'.issues := by
  induction blocks generalizing i state with
  | nil =>
    obtain rfl := Except.ok.inj hrun
    exact List.prefix_rfl
  | cons block blocks ih =>
    rw [reconcileFrom] at hrun
    split at hrun
    · cases hrun
    · split at hrun
      · exact (List.prefix_append _ _).trans (ih hrun)
      · exact (List.prefix_append _ _).trans (ih hrun)

theorem Harmless.of_prefix {issues issues' : List ImportIssue} (h : Harmless issues')
    (hfront : issues <+: issues') : Harmless issues :=
  fun issue hissue => h issue (hfront.subset hissue)

/-- The second pass without a harmful issue changes no more of the blocks than their indices. -/
theorem kept_reconcileFrom {sources : List ChainBlock} {blocks : List Block} {i : ℕ}
    {state state' : Reconciled} (hkept : List.Forall₂ Kept sources blocks)
    (hrun : reconcileFrom i state blocks = .ok state') (h : Harmless state'.issues) :
    ∃ out, state'.blocks = state.blocks ++ out ∧ List.Forall₂ Kept sources out := by
  induction hkept generalizing i state with
  | nil =>
    obtain rfl := Except.ok.inj hrun
    exact ⟨[], (List.append_nil _).symm, .nil⟩
  | @cons source block sources blocks hblock _ ih =>
    rw [reconcileFrom] at hrun
    split at hrun
    · cases hrun
    · next expectedPrevHash _ =>
      split at hrun
      · obtain ⟨out, hout, hkept⟩ := ih hrun
        have hrelinked := (h.of_prefix (issues_reconcileFrom hrun)).of_append.2
        have hlinked : block.prevHash = expectedPrevHash := by
          by_contra hne
          rw [if_pos (decide_eq_true hne)] at hrelinked
          have hreason := hrelinked _ List.mem_cons_self
          dsimp only at hreason
          split at hreason <;> cases hreason
        rw [reconcileBlock] at hout
        rw [hout]
        refine ⟨_, List.append_assoc _ _ _, .cons ?_ hkept⟩
        exact { hblock with prevHash := hlinked ▸ hblock.prevHash }
      · have hharmless := (h.of_prefix (issues_reconcileFrom hrun)).of_append.2
        exact absurd (hharmless _ List.mem_cons_self) (by intro hreason; cases hreason)

/-- The blocks of candidates of the store that have all been normalised. -/
theorem kept_candidateBlocks (sources : List ChainBlock) (k : ℕ)
    (h : ∀ candidate ∈ (sources.map ChainBlock.value).zipIdx k, ∀ issue,
      normalizeCandidate candidate.1 candidate.2 = .error issue → issue.reason = .duplicateHash) :
    List.Forall₂ Kept sources (candidateBlocks ((sources.map ChainBlock.value).zipIdx k)) := by
  induction sources generalizing k with
  | nil => exact .nil
  | cons source sources ih =>
    rw [List.map_cons, List.zipIdx_cons, List.forall_mem_cons] at h
    rw [List.map_cons, List.zipIdx_cons]
    by_cases hhash : source.hash = []
    · obtain ⟨issue, hissue, hreason⟩ := normalizeCandidate_no_hash hhash k
      exact absurd (h.1 issue hissue) hreason
    · obtain ⟨block, hblock, hkept, -⟩ := normalizeCandidate_chainBlock hhash k
      rw [candidateBlocks_ok hblock]
      exact .cons hkept (ih (k + 1) h.2)

/-! ## Blocks of an accepted chain -/

variable {host : ChainHost}

/-- Each block the store reads has a hash of its own. -/
theorem validateBlockHash_of_read {entries : Dir} {blocks : List ChainBlock}
    (h : readAndValidateChainBlocks host entries = .ok blocks) :
    ∀ block ∈ blocks, ∃ file, validateBlockHash host block file = .ok () := by
  obtain ⟨loaded, -, hloop⟩ := bind_eq_ok.mp h
  have hrun : ∀ (loaded : List (Text × ChainBlock)) (before : List ChainBlock),
      loaded.foldlM (Chain.checkBlock host) before = .ok blocks →
        ∀ l ∈ loaded, validateBlockHash host l.2 l.1 = .ok () := by
    intro loaded
    induction loaded with
    | nil => exact fun _ _ => List.forall_mem_nil _
    | cons l loaded ih =>
      intro before hrun
      rw [List.foldlM_cons] at hrun
      obtain ⟨mid, hmid, hrest⟩ := bind_eq_ok.mp hrun
      exact List.forall_mem_cons.mpr ⟨(Chain.checkBlock_eq_ok hmid).2.1, ih mid hrest⟩
  intro block hmem
  rw [Chain.eq_append_of_foldlM_checkBlock hloop, List.nil_append] at hmem
  obtain ⟨l, hl, rfl⟩ := List.mem_map.mp hmem
  exact ⟨l.1, hrun loaded [] hloop l hl⟩

/-- The file is named in the errors only. -/
theorem validateBlockHash_file {block : ChainBlock} {file : Text}
    (h : validateBlockHash host block file = .ok ()) (file' : Text) :
    validateBlockHash host block file' = .ok () := by
  unfold validateBlockHash at h ⊢
  split_ifs at h ⊢
  rfl

/-- **A valid import of blocks of an accepted chain** returns the first of the blocks with each
hash, numbered from zero. Each keeps its hash, link, timestamp and chain and three members of its
data, and passes the hash check of the store once its index and data are put back. -/
theorem valid_import_keeps {entries : Dir} {blocks picked : List ChainBlock}
    {result : ImportJsonResult} (hread : readAndValidateChainBlocks host entries = .ok blocks)
    (hpicked : ∀ source ∈ picked, source ∈ blocks)
    (hrun : runImportJsonPayload (.arr (picked.map ChainBlock.value)) = .ok result)
    (hvalid : result.valid = true) :
    List.Forall₂ (fun source returned => Kept source returned ∧ (source.prevHash ≠ [] →
        ∀ file, validateBlockHash host (putBack source returned) file = .ok ()))
      (firsts (·.hash) [] picked) result.blocks ∧
    ∀ (i : ℕ) (returned : Block), result.blocks[i]? = some returned →
      returned.index.strictEq (.ofNat i) = true := by
  set candidates := picked.map ChainBlock.value with hcandidates
  rw [runImportJsonPayload_eq rfl] at hrun
  cases hstate : reconcileFrom 0 ⟨(normalizeAll candidates).issues, [], 0, 0⟩
    (freshBlocks candidates) with
  | error error =>
    rw [hstate] at hrun
    cases hrun
  | ok state =>
  rw [hstate] at hrun
  obtain rfl := Except.ok.inj hrun
  have hharmless : Harmless state.issues := fun issue hissue =>
    of_decide_eq_true (List.all_eq_true.mp hvalid issue hissue)
  rw [blocks_importResult]
  constructor
  · have hnormalized := (harmless_foldl (hharmless.of_prefix (issues_reconcileFrom hstate))).2
    have hfresh := forall₂_firsts (fun source returned hkept => hkept.hash.symm)
      (kept_candidateBlocks picked 0 hnormalized) []
    obtain ⟨out, hout, hkept⟩ := kept_reconcileFrom hfresh hstate hharmless
    rw [hout, List.nil_append]
    have hsources : ∀ source ∈ firsts (·.hash) [] picked,
        ∃ file, validateBlockHash host source file = .ok () := fun source hsource =>
      validateBlockHash_of_read hread source
        (hpicked source ((firsts_sublist _ _ _).subset hsource))
    refine ((List.forall₂_and_left _ _).mpr ⟨hsources, hkept⟩).imp ?_
    rintro source returned ⟨⟨file', hvalidated⟩, hkept⟩
    refine ⟨hkept, fun hprev file => ?_⟩
    rw [hkept.putBack_eq hprev]
    exact validateBlockHash_file hvalidated file
  · rcases reconcileFrom_cases (normalizeAll candidates).issues (freshBlocks candidates) with
      ⟨s, hok, hs, -⟩ | ⟨⟨error, herror⟩, -⟩
    · obtain rfl := Except.ok.inj (hok.symm.trans hstate)
      intro i returned hreturned
      rw [hs] at hreturned
      have hindex := index_relink 0 genesisPrevHash _ hreturned
      rwa [Nat.zero_add] at hindex
    · cases herror.symm.trans hstate

/-! ## The first block of a chain -/

/-- The genesis block of the store is imported without an issue, under the index zero. -/
theorem import_genesis (hhash : source.hash ≠ []) (hprev : source.prevHash = genesisPrevHash)
    (hindex : source.index = .ofNat 1) :
    ∃ result returned, runImportJsonPayload (.arr [source.value]) = .ok result ∧
      result.valid = true ∧ result.blocks = [returned] ∧ returned.hash = source.hash ∧
      returned.index = .ofNat 0 := by
  obtain ⟨block, hblock, hkept, hnumber⟩ := normalizeCandidate_chainBlock hhash 0
  have hfinite : source.index.isFinite = true := by
    rw [hindex]
    exact JsNumber.isFinite_ofNat (by norm_num)
  have hmoved : block.index.strictEq (.ofNat 0) = false := by
    rw [hnumber hfinite, hindex, Bool.eq_false_iff, ne_eq, JsNumber.strictEq_ofNat (by norm_num),
      JsNumber.dropZeroSign_ofNat (by norm_num), JsNumber.ofNat_inj (by norm_num) (by norm_num)]
    exact Nat.one_ne_zero
  have hnormalized : normalizeAll [source.value] = ⟨[], [block], [block.hash]⟩ := by
    rw [normalizeAll, List.zipIdx_singleton, List.foldl_cons, List.foldl_nil, normalizeStep, hblock]
    rfl
  have hlinked : block.prevHash = genesisPrevHash := by
    rw [hkept.prevHash, hprev]
    rfl
  have hfresh : freshBlocks [source.value] = [block] := by
    rw [freshBlocks, List.zipIdx_singleton, candidateBlocks_ok hblock]
    rfl
  have hstep : reconcileBlock 0 genesisPrevHash ⟨[], [], 0, 0⟩ block =
      ⟨[], [{ block with index := .ofNat 0 }], 1, 0⟩ := by
    simp [reconcileBlock, hmoved, hlinked]
  have hrun : reconcileFrom 0 ⟨[], [], 0, 0⟩ [block] =
      .ok ⟨[], [{ block with index := .ofNat 0 }], 1, 0⟩ := by
    rw [reconcileFrom, if_pos rfl]
    dsimp only
    rw [if_pos (by rw [hnumber hfinite]; exact hfinite), hstep]
    rfl
  rw [runImportJsonPayload_eq rfl, hnormalized, hfresh, hrun]
  exact ⟨_, _, rfl, rfl, rfl, hkept.hash, rfl⟩

theorem sha256_sampleHost_ne_nil (t : Text) : Chain.sampleHost.sha256 t ≠ [] := by
  change Chain.sampleSha256 t ≠ []
  unfold Chain.sampleSha256
  split
  · decide
  · exact List.cons_ne_nil _ _

theorem sampleBlock_hash_ne_nil : Chain.sampleBlock.image.hash ≠ [] := by
  rw [Chain.ChainBlock.image_hash, Chain.sampleBlock_continues.hash, Chain.hashBlock, ne_eq,
    ofText_eq_nil]
  exact sha256_sampleHost_ne_nil _

/-- A chain with one block. -/
theorem valid_import_keeps_sample :
    ∃ result, readAndValidateChainBlocks Chain.sampleHost Chain.sampleState.dir =
        .ok [Chain.sampleBlock.image] ∧
      runImportJsonPayload (.arr ([Chain.sampleBlock.image].map ChainBlock.value)) = .ok result ∧
      result.valid = true ∧
      List.Forall₂ (fun source returned => Kept source returned ∧ (source.prevHash ≠ [] →
          ∀ file, validateBlockHash Chain.sampleHost (putBack source returned) file = .ok ()))
        (firsts (·.hash) [] [Chain.sampleBlock.image]) result.blocks := by
  obtain ⟨result, returned, hrun, hvalid, -⟩ := import_genesis sampleBlock_hash_ne_nil
    Chain.sampleBlock_continues.prevHash Chain.sampleBlock_continues.index
  exact ⟨result, Chain.read_sampleState, hrun, hvalid,
    (valid_import_keeps Chain.read_sampleState (fun _ h => h) hrun hvalid).1⟩

/-- The block of an accepted chain comes back valid under another index. -/
theorem index_rewritten_valid :
    readAndValidateChainBlocks Chain.sampleHost Chain.sampleState.dir =
        .ok [Chain.sampleBlock.image] ∧
      ∃ result returned, runImportJsonPayload (.arr [Chain.sampleBlock.image.value]) = .ok result ∧
        result.valid = true ∧ result.blocks = [returned] ∧
        returned.hash = Chain.sampleBlock.image.hash ∧
        returned.index ≠ Chain.sampleBlock.image.index := by
  obtain ⟨result, returned, hrun, hvalid, hblocks, hhash, hindex⟩ :=
    import_genesis sampleBlock_hash_ne_nil Chain.sampleBlock_continues.prevHash
      Chain.sampleBlock_continues.index
  refine ⟨Chain.read_sampleState, result, returned, hrun, hvalid, hblocks, hhash, ?_⟩
  rw [hindex, Chain.ChainBlock.image_index, Chain.sampleBlock_continues.index]
  exact fun h => Nat.zero_ne_one ((JsNumber.ofNat_inj (by norm_num) (by norm_num)).mp h)

end MemphisOS.ChainImport
