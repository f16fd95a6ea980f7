import MemphisOS.Bridge.Store
import MemphisOS.Chain.Tamper
import MemphisOS.TaskExecutor.Execute

/-!
# Stored results

The results that executions have stored in a chain directory. They stay readable whatever else is
written there, and the scan for a run finds the one whose file name sorts last.
-/

namespace MemphisOS.TaskExecutor

open Ecma Bridge MemphisCore

instance (result : GenerateResult) : Decidable result.WellFormed :=
  decidable_of_iff (result.id ≠ [] ∧ result.providerUsed ∈ providerNames ∧
      result.timingMs.isFinite = true ∧ result.timingMs.lt (.ofNat 0) = false)
    ⟨fun ⟨hid, hprovider, hfinite, hnonneg⟩ => ⟨hid, hprovider, hfinite, hnonneg⟩,
      fun ⟨hid, hprovider, hfinite, hnonneg⟩ => ⟨hid, hprovider, hfinite, hnonneg⟩⟩

/-- A result an execution has stored. -/
structure StoredResult where
  runId : JsString
  /-- The digest of the input of the execution. -/
  inputDigest : JsString
  result : GenerateResult
  block : Chain.ChainBlock

/-- The result is well-formed and belongs to the run. -/
def StoredResult.BelongsTo (runId : JsString) (e : StoredResult) : Prop :=
  e.runId = runId ∧ e.result.WellFormed

instance (runId : JsString) (e : StoredResult) : Decidable (e.BelongsTo runId) :=
  inferInstanceAs (Decidable (_ ∧ _))

def StoredResult.file (e : StoredResult) : Text × List UInt8 :=
  (Chain.fileName e.block.index, e.block.payload)

/-- The well-formed results of a run, in the order they were stored in. -/
def resultsOf (runId : JsString) (results : List StoredResult) : List StoredResult :=
  results.filter fun e => e.BelongsTo runId

/-- What an event adds to the stored results. -/
def TaskEvent.stores (inputDigest : JsString) : TaskEvent → Chain.ChainBlock → List StoredResult
  | .toolResult correlation result, block => [⟨correlation.runId, inputDigest, result, block⟩]
  | .other _ _ _ _ _, _ => []

/-- A block file that holds a result of the run. -/
def HoldsResult (runId : JsString) (f : Text × List UInt8) : Prop :=
  Chain.isBlockFile f.1 = true ∧ (cachedResult runId (toolCallId runId) f.2).isSome = true

variable (host : BridgeHost) (fs : Chain.FileSystem) (runId : JsString)

/-- The files with results of the run are those executions have stored. -/
structure ResultsInv (results : List StoredResult) (dir : Chain.Dir) : Prop where
  names : (Chain.fileNames dir).Nodup
  room : dir.length ≤ fs.capacity
  numbered : ∀ e ∈ resultsOf runId results, ∃ n < 2 ^ 53, e.block.index = .ofNat n
  ordered : ∀ e ∈ resultsOf runId results, OwnOrdered (.obj e.block.data)
  cached : ∀ e ∈ resultsOf runId results,
    cachedResult runId (toolCallId runId) e.block.payload = some e.result.reused
  stored : ∀ e ∈ resultsOf runId results, e.file ∈ dir
  only : ∀ f ∈ dir, HoldsResult runId f → ∃ e ∈ resultsOf runId results, f = e.file

/-- The name of the file of a result does not sort before that of another result of the run. -/
def SortsLast (results : List StoredResult) (e : StoredResult) : Prop :=
  ∀ e' ∈ resultsOf runId results, NameAfter host e.file e'.file

/-- An answer the scan for the run may give. -/
def Reusable (results : List StoredResult) (result : GenerateResult) : Prop :=
  ∃ e ∈ resultsOf runId results, SortsLast host runId results e ∧ result = e.result.reused

/-- What `localeCompare` is for names: an order in which any two can be compared. -/
structure LocaleOrder : Prop where
  total : ∀ a b, host.localeLe a b = true ∨ host.localeLe b a = true
  trans : ∀ a b c, host.localeLe a b = true → host.localeLe b c = true → host.localeLe a c = true

variable {host fs runId} {results : List StoredResult} {dir dir' : Chain.Dir} {event : TaskEvent}

theorem holdsResult_nonempty {f : Text × List UInt8} (h : HoldsResult runId f) : f.2 ≠ [] := by
  intro hnil
  have hsome := h.2
  rw [hnil] at hsome
  cases hsome

/-! ## Scanning -/

theorem pairwise_scan (horder : LocaleOrder host) (entries : Chain.Dir) :
    ((Chain.blockFiles entries).insertionSort (NameAfter host)).Pairwise (NameAfter host) := by
  have htotal : Std.Total (NameAfter host) := ⟨fun a b => horder.total _ _⟩
  have htrans : IsTrans _ (NameAfter host) := ⟨fun a b c hab hbc => horder.trans _ _ _ hbc hab⟩
  exact List.pairwise_insertionSort _ _

/-- **The scan.** It finds a result of the run whose file name sorts last, if there is any. -/
theorem ResultsInv.findCachedResult (horder : LocaleOrder host)
    (h : ResultsInv fs runId results dir) {listing : Chain.Dir} (hlisting : listing.Perm dir) :
    match TaskExecutor.findCachedResult host listing runId (toolCallId runId) with
    | some result => Reusable host runId results result
    | none => resultsOf runId results = [] := by
  have hmem : ∀ f, f ∈ (Chain.blockFiles listing).insertionSort (NameAfter host) ↔
      f ∈ dir ∧ Chain.isBlockFile f.1 = true := by
    intro f
    rw [List.mem_insertionSort, Chain.blockFiles, List.mem_filter, hlisting.mem_iff]
  cases hfound : TaskExecutor.findCachedResult host listing runId (toolCallId runId) with
  | some result =>
    obtain ⟨before, f, after, hsplit, hf, hbefore⟩ := List.findSome?_eq_some_iff.mp hfound
    have hself := (hmem f).mp (by rw [hsplit]; simp)
    obtain ⟨e, he, rfl⟩ := h.only f hself.1 ⟨hself.2, by rw [hf]; rfl⟩
    refine ⟨e, he, fun e' he' => ?_, ?_⟩
    · have hfile : e'.file ∈ before ++ e.file :: after := by
        rw [← hsplit, hmem]
        exact ⟨h.stored e' he', Chain.isBlockFile_fileName _⟩
      have hsorted := pairwise_scan horder listing
      rw [hsplit] at hsorted
      rcases List.mem_append.mp hfile with hearlier | hlater
      · have hnone := hbefore _ hearlier
        rw [show e'.file.2 = e'.block.payload from rfl, h.cached e' he'] at hnone
        cases hnone
      · rcases List.mem_cons.mp hlater with hsame | hlater
        · rw [hsame]
          exact (horder.total _ _).elim id id
        · exact (List.pairwise_cons.mp (List.pairwise_append.mp hsorted).2.1).1 _ hlater
    · rw [show e.file.2 = e.block.payload from rfl, h.cached e he] at hf
      exact (Option.some.inj hf).symm
  | none =>
    rw [TaskExecutor.findCachedResult, List.findSome?_eq_none_iff] at hfound
    by_contra hne
    obtain ⟨e, he⟩ := List.exists_mem_of_ne_nil _ hne
    have hnone := hfound e.file ((hmem _).mpr ⟨h.stored e he, Chain.isBlockFile_fileName _⟩)
    rw [show e.file.2 = e.block.payload from rfl, h.cached e he] at hnone
    cases hnone

/-! ## Appending -/

theorem ResultsInv.holds (h : ResultsInv fs runId results dir) {e : StoredResult}
    (he : e ∈ resultsOf runId results) : HoldsResult runId e.file :=
  ⟨Chain.isBlockFile_fileName _, Option.isSome_of_eq_some (h.cached e he)⟩

/-- A change that leaves the files with results of the run. -/
theorem ResultsInv.of_same (h : ResultsInv fs runId results dir)
    (hnames : (Chain.fileNames dir').Nodup) (hroom : dir'.length ≤ fs.capacity)
    (hsame : ∀ f, HoldsResult runId f → (f ∈ dir' ↔ f ∈ dir)) :
    ResultsInv fs runId results dir' where
  names := hnames
  room := hroom
  numbered := h.numbered
  ordered := h.ordered
  cached := h.cached
  stored e he := (hsame _ (h.holds he)).mpr (h.stored e he)
  only f hf hholds := h.only f ((hsame f hholds).mp hf) hholds

theorem mem_iff_of_writtenFiles (h : writtenFiles dir' = writtenFiles dir) {f : Text × List UInt8}
    (hf : HoldsResult runId f) : f ∈ dir' ↔ f ∈ dir := by
  have hwritten : ∀ d : Chain.Dir, f ∈ writtenFiles d ↔ f ∈ d := by
    intro d
    rw [writtenFiles, List.mem_filter, Chain.blockFiles, List.mem_filter]
    exact ⟨fun hd => hd.1.1, fun hd => ⟨⟨hd, hf.1⟩, by simpa using holdsResult_nonempty hf⟩⟩
  rw [← hwritten dir', ← hwritten dir, h]

/-- Only empty files are pruned. -/
theorem eq_nil_of_mem_prunedNames {statFails unlinkFails : Text → Bool}
    {files : List Chain.IndexedFile} {name : Text}
    (h : name ∈ Chain.prunedNames statFails unlinkFails files) :
    ∃ f ∈ files, f.1 = (name, []) := by
  induction files with
  | nil => cases h
  | cons f files ih =>
    have hlater (hmem : name ∈ Chain.prunedNames statFails unlinkFails files) :
        ∃ g ∈ f :: files, g.1 = (name, []) := by
      obtain ⟨g, hg, hname⟩ := ih hmem
      exact ⟨g, List.mem_cons_of_mem _ hg, hname⟩
    rw [Chain.prunedNames] at h
    split at h
    · exact hlater h
    · split at h
      · cases h
      · next hempty =>
        split at h
        · exact hlater h
        · rcases List.mem_cons.mp h with hname | hmem
          · exact ⟨f, by simp, Prod.ext hname.symm (not_not.mp hempty)⟩
          · exact hlater hmem

theorem mem_foldl_unlink {f : Text × List UInt8} {names : List Text} :
    f ∈ names.foldl Chain.unlink dir ↔ f ∈ dir ∧ f.1 ∉ names := by
  induction names generalizing dir with
  | nil => simp
  | cons name names ih =>
    rw [List.foldl_cons, ih, Chain.unlink, List.mem_filter, List.mem_cons, not_or, and_assoc]
    simp

theorem nodup_foldl_unlink (h : (Chain.fileNames dir).Nodup) (names : List Text) :
    (Chain.fileNames (names.foldl Chain.unlink dir)).Nodup := by
  induction names generalizing dir with
  | nil => exact h
  | cons name names ih => exact ih (Chain.nodup_unlink h name)

theorem length_foldl_unlink_le (dir : Chain.Dir) (names : List Text) :
    (names.foldl Chain.unlink dir).length ≤ dir.length := by
  induction names generalizing dir with
  | nil => exact le_refl _
  | cons name names ih => exact (ih _).trans (Chain.length_unlink_le dir name)

/-- Pruning leaves the results. -/
theorem mem_pruned_iff (hnames : (Chain.fileNames dir).Nodup) {listing : Chain.Dir}
    (hlisting : listing.Perm dir) (statFails unlinkFails : Text → Bool) {f : Text × List UInt8}
    (hf : HoldsResult runId f) :
    f ∈ (Chain.pruneTrailingEmptyBlockFiles statFails unlinkFails listing).foldl
      Chain.unlink dir ↔ f ∈ dir := by
  rw [mem_foldl_unlink, and_iff_left_iff_imp]
  intro hmem hpruned
  obtain ⟨g, hg, hname⟩ := eq_nil_of_mem_prunedNames hpruned
  rw [List.mem_insertionSort, Chain.indexedFiles, List.mem_filter, List.mem_map] at hg
  obtain ⟨⟨e, he, rfl⟩, -⟩ := hg
  have he' : e ∈ dir := hlisting.mem_iff.mp (List.mem_filter.mp he).1
  obtain rfl : e = (f.1, []) := hname
  have hsame : (f.1, []) = f := List.inj_on_of_nodup_map hnames he' hmem rfl
  exact holdsResult_nonempty hf (congrArg Prod.snd hsame).symm

theorem nextIndex_of_accepted {chainHost : Chain.ChainHost} {blocks : List Chain.ChainBlock}
    (h : Chain.Accepted chainHost blocks) (hlength : blocks.length + 1 < 2 ^ 53) :
    Chain.nextIndex blocks = .ofNat (blocks.length + 1) := by
  rcases List.eq_nil_or_concat' blocks with rfl | ⟨init, previous, rfl⟩
  · rfl
  · rw [List.length_append, List.length_singleton] at hlength ⊢
    rw [Chain.nextIndex, List.getLast?_concat]
    simp only [h.of_concat.2.index]
    exact JsNumber.add_one (by omega)

/-- The blocks that are read hold every block file, so that the next index is new. -/
theorem nextIndex_new {chainHost : Chain.ChainHost} {listing : Chain.Dir}
    {blocks : List Chain.ChainBlock}
    (hread : Chain.readAndValidateChainBlocks chainHost listing = .ok blocks)
    (hlength : listing.length < 2 ^ 53 - 1) :
    Chain.nextIndex blocks = .ofNat (blocks.length + 1) ∧ blocks.length + 1 < 2 ^ 53 ∧
      ∀ (block : Chain.ChainBlock) (n : ℕ), n < 2 ^ 53 → block.index = .ofNat n →
        OwnOrdered (.obj block.data) → (Chain.fileName block.index, block.payload) ∈ listing →
          n ≤ blocks.length := by
  have hblocks : blocks.length ≤ listing.length := by
    rw [Chain.length_of_read hread, Chain.indexedFiles]
    refine (List.length_filter_le _ _).trans ?_
    rw [List.length_map]
    exact List.length_filter_le _ _
  have haccepted := Chain.accepted_of_read hread (by omega)
  refine ⟨nextIndex_of_accepted haccepted (by omega), by omega, ?_⟩
  intro block n hn hindex hordered hfile
  have hindexed : ((Chain.fileName block.index, block.payload), JsNumber.ofNat n) ∈
      Chain.indexedFiles listing := by
    rw [Chain.indexedFiles, List.mem_filter, List.mem_map]
    refine ⟨⟨_, List.mem_filter.mpr ⟨hfile, Chain.isBlockFile_fileName _⟩, ?_⟩,
      JsNumber.isFinite_ofNat hn⟩
    rw [hindex, Chain.fileIndex_fileName hn]
  obtain ⟨block', hmem, hblock⟩ := Chain.exists_of_read hread hindexed
  rw [Chain.readBlockFile_payload hn hindex hordered] at hblock
  obtain rfl := Except.ok.inj hblock
  obtain ⟨⟨i, hi, hplace⟩, -⟩ := haccepted.of_mem hmem
  rw [Chain.ChainBlock.image, hindex, JsNumber.ofNat_inj hn (by omega)] at hplace
  omega

theorem of_mem_stores {inputDigest : JsString} {block : Chain.ChainBlock} {e : StoredResult}
    (h : e ∈ resultsOf runId (event.stores inputDigest block)) :
    e.block = block ∧ event.cached runId = some e.result.reused := by
  cases event with
  | other => cases h
  | toolResult correlation result =>
    obtain ⟨hmem, hbelongs⟩ := List.mem_filter.mp h
    obtain rfl := List.mem_singleton.mp hmem
    obtain ⟨hrun, hvalid⟩ := of_decide_eq_true hbelongs
    refine ⟨rfl, ?_⟩
    rw [TaskEvent.cached, if_pos hrun, asGenerateResult_of_wellFormed hvalid]

/-- What the scan finds of an event is a well-formed result of the run. -/
theorem exists_mem_stores (inputDigest : JsString) (block : Chain.ChainBlock)
    (h : (event.cached runId).isSome = true) :
    ∃ e ∈ resultsOf runId (event.stores inputDigest block), e.block = block := by
  cases event with
  | other => cases h
  | toolResult correlation result =>
    rw [TaskEvent.cached] at h
    split at h
    · next hrun =>
      by_cases hvalid : result.WellFormed
      · exact ⟨_, List.mem_filter.mpr ⟨List.mem_singleton_self _, decide_eq_true ⟨hrun, hvalid⟩⟩, rfl⟩
      · rw [asGenerateResult_of_not_wellFormed hvalid] at h
        cases h
    · cases h

theorem resultsOf_append (results results' : List StoredResult) :
    resultsOf runId (results ++ results') = resultsOf runId results ++ resultsOf runId results' :=
  List.filter_append _ _

/-- What a stored event adds, and to which directory. -/
theorem ResultsInv.store (h : ResultsInv fs runId results dir) {chainHost : Chain.ChainHost}
    {listing : Chain.Dir} {blocks : List Chain.ChainBlock} {block : Chain.ChainBlock}
    {eventId timestamp inputDigest : JsString} (hlisting : listing.Perm dir)
    (hread : Chain.readAndValidateChainBlocks chainHost listing = .ok blocks)
    (hindex : block.index = Chain.nextIndex blocks)
    (hdata : block.data = event.record eventId timestamp)
    (hroom : (Chain.writeFile dir (Chain.fileName block.index) block.payload).length ≤
      fs.capacity) :
    ResultsInv fs runId (results ++ event.stores inputDigest block)
      (Chain.writeFile dir (Chain.fileName block.index) block.payload) := by
  have hcapacity := fs.capacity_lt
  obtain ⟨hnext, hlt, hnew⟩ := nextIndex_new hread
    (by rw [hlisting.length_eq]; exact h.room.trans_lt hcapacity)
  rw [hnext] at hindex
  have hfresh : ∀ e ∈ resultsOf runId results,
      Chain.fileName e.block.index ≠ Chain.fileName block.index := by
    intro e he hname
    obtain ⟨n, hn, hplace⟩ := h.numbered e he
    have hle := hnew e.block n hn hplace (h.ordered e he) (hlisting.mem_iff.mpr (h.stored e he))
    rw [hplace, hindex, fileName_inj hn hlt] at hname
    omega
  have hcached := cachedResult_payload hlt hindex hdata runId
  have hmem : ∀ e ∈ resultsOf runId (results ++ event.stores inputDigest block),
      e ∈ resultsOf runId results ∨ e ∈ resultsOf runId (event.stores inputDigest block) := by
    intro e he
    rwa [resultsOf_append, List.mem_append] at he
  constructor
  · exact Chain.nodup_writeFile h.names _ _
  · exact hroom
  · intro e he
    rcases hmem e he with he | he
    · exact h.numbered e he
    · exact ⟨_, hlt, (of_mem_stores he).1 ▸ hindex⟩
  · intro e he
    rcases hmem e he with he | he
    · exact h.ordered e he
    · rw [(of_mem_stores he).1, hdata]
      exact ownOrdered_record _ _ _
  · intro e he
    rcases hmem e he with he | he
    · exact h.cached e he
    · rw [(of_mem_stores he).1, hcached, (of_mem_stores he).2]
  · intro e he
    rw [Chain.writeFile, List.mem_append]
    rcases hmem e he with he | he
    · left
      rw [Chain.unlink, List.mem_filter]
      exact ⟨h.stored e he, decide_eq_true (hfresh e he)⟩
    · right
      rw [StoredResult.file, (of_mem_stores he).1, List.mem_singleton]
  · intro f hf hholds
    rw [resultsOf_append]
    rcases List.mem_append.mp hf with hf | hf
    · obtain ⟨e, he, rfl⟩ := h.only f (List.mem_filter.mp hf).1 hholds
      exact ⟨e, List.mem_append_left _ he, rfl⟩
    · obtain rfl := List.mem_singleton.mp hf
      have hsome := hholds.2
      rw [hcached] at hsome
      obtain ⟨e, he, hblock⟩ := exists_mem_stores inputDigest block hsome
      refine ⟨e, List.mem_append_right _ he, ?_⟩
      rw [StoredResult.file, hblock]

/-- **Storing.** The results stay readable when an event is emitted; the event is one of them if it
is a result that is stored. -/
theorem ResultsInv.emits (h : ResultsInv fs runId results dir) {stored : Option Chain.ChainBlock}
    (hemits : Emits host fs event dir stored dir') (inputDigest : JsString) :
    ResultsInv fs runId
      (results ++ (stored.map (event.stores inputDigest)).getD []) dir' := by
  cases hemits with
  | lost hwritten hnames hroom =>
    rw [Option.map_none, Option.getD_none, List.append_nil]
    exact h.of_same hnames hroom fun f hf => mem_iff_of_writtenFiles hwritten hf
  | @stored listing pruned listing' blocks call eventId timestamp date statFails unlinkFails hdata
      hlisting hpruned hlisting' hread hroom =>
    rw [Option.map_some, Option.getD_some]
    have hkept : ResultsInv fs runId results pruned := by
      rw [hpruned]
      exact h.of_same (nodup_foldl_unlink h.names _)
        ((length_foldl_unlink_le dir _).trans h.room)
        fun f hf => mem_pruned_iff h.names hlisting statFails unlinkFails hf
    exact hkept.store hlisting' hread rfl hdata hroom

end MemphisOS.TaskExecutor
