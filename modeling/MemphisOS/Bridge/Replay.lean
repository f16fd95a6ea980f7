import MemphisOS.Bridge.Adapter
import MemphisOS.Chain.Concurrency

/-!
# Replaying a stored chain

The blocks of a chain directory are normalised, sorted, renumbered and linked anew, and their
text is replayed by the native core. It reads no such block, so that a replay accepts everything
only where there is nothing to replay.
-/

namespace MemphisOS.Bridge

open Ecma MemphisCore

structure SoulReplayBlock where
  index : JsNumber
  timestamp : JsString
  chain : JsString
  data : NapiBlockData
  prevHash : JsString
  hash : JsString

def SoulReplayBlock.value (block : SoulReplayBlock) : Plain :=
  .obj [(js "index", .num block.index), (js "timestamp", .str block.timestamp),
    (js "chain", .str block.chain), (js "data", block.data.value),
    (js "prev_hash", .str block.prevHash), (js "hash", .str block.hash)]

/-! ## Normalising -/

/-- A property that is a string and not empty. -/
def nonEmptyString (value : Plain) (name : String) : Option JsString :=
  match property value name with
  | some (.str s) => if s = [] then none else some s
  | _ => none

/-- The properties of `raw.data`, if it is an object. -/
def rawData (raw : Plain) : List (JsString × Plain) :=
  match property raw "data" with
  | some (.obj data) => data
  | _ => []

/-- The data, whose type may be under either name. -/
def normalizeReplayData (data : List (JsString × Plain)) : NapiBlockData :=
  { normalizeData data with
    blockType := match data.lookup (js "block_type") with
      | some (.str blockType) => blockType
      | _ => (normalizeData data).blockType }

/-- The index of a block: a finite number without fraction or sign. -/
def normalizeIndex (raw : Plain) : JsNumber :=
  match property raw "index" with
  | some (.num n) => if n.isFinite then .max (.ofNat 0) n.trunc else .ofNat 0
  | _ => .ofNat 0

variable (host : BridgeHost)

def normalizeBlock (raw : Plain) (fallbackChain : JsString) : Option SoulReplayBlock :=
  match raw with
  | .obj _ =>
    some
      { index := normalizeIndex raw
        timestamp := (nonEmptyString raw "timestamp").getD (ofText (isoText 0))
        chain := (nonEmptyString raw "chain").getD fallbackChain
        data := normalizeReplayData (rawData raw)
        prevHash := (nonEmptyString raw "prev_hash").getD Chain.genesisPrevHash
        hash := (nonEmptyString raw "hash").getD (ofText (host.sha256 (jsonText [] raw))) }
  | _ => none

/-- The comparison `a.index - b.index || a.timestamp.localeCompare(b.timestamp)` is not positive. -/
def ReplayBefore (a b : SoulReplayBlock) : Prop :=
  a.index.lt b.index = true ∨
    (b.index.lt a.index = false ∧ host.localeLe a.timestamp b.timestamp = true)

instance : DecidableRel (ReplayBefore host) := fun _ _ => inferInstanceAs (Decidable (_ ∨ _))

/-- Number the blocks and link each to the one before it. -/
def relink : JsString → ℕ → List SoulReplayBlock → List SoulReplayBlock
  | _, _, [] => []
  | prevHash, idx, current :: rest =>
    { current with index := .ofNat idx, prevHash := prevHash } :: relink current.hash (idx + 1) rest

def normalizeReplayBlocks (rawBlocks : List Plain) (chain : JsString) : List SoulReplayBlock :=
  relink Chain.genesisPrevHash 0
    ((rawBlocks.filterMap fun raw => normalizeBlock host raw chain).insertionSort
      (ReplayBefore host))

/-! ## Loading and replaying -/

/-- The comparison of names by locale. -/
def NameBefore (a b : Text × List UInt8) : Prop := host.localeLe (ofText a.1) (ofText b.1) = true

instance : DecidableRel (NameBefore host) := fun _ _ => inferInstanceAs (Decidable (_ = true))

/-- The values of the files that can be read and parsed. -/
def readRawBlocks (readFails : Text → Bool) (entries : Chain.Dir) : List Plain :=
  ((Chain.blockFiles entries).insertionSort (NameBefore host)).filterMap fun e =>
    if readFails e.1 then none else parseJson (decodeUtf8 e.2)

/-- The first argument is what `readdir` lists; a directory that cannot be listed counts as
empty. -/
def loadReplayBlocksFromChain (entries : Chain.Dir) (readFails : Text → Bool) (chain : JsString) :
    List SoulReplayBlock :=
  normalizeReplayBlocks host (readRawBlocks host readFails entries) chain

variable (napi : Napi)

/-- `NapiChainAdapter.soulReplay`. -/
def soulReplay (chainName : JsString) (blocks : List SoulReplayBlock) : Except JsString Plain :=
  parseEnvelope host (napi.soulReplay (wellFormed chainName)
    (jsonText [] (.arr (blocks.map SoulReplayBlock.value)))) "soul_replay"

/-- The replay accepts all blocks. -/
def ReplayAcceptsAll (chainName : JsString) (blocks : List SoulReplayBlock) : Prop :=
  ∃ report, soulReplay host napi chainName blocks = .ok report ∧
    property report "accepted" = some (.num (.ofNat blocks.length)) ∧
    property report "rejected" = some (.num (.ofNat 0))

variable {host napi}

/-- A normalised block is no block of the native core. -/
theorem readBlock_replay (block : SoulReplayBlock) :
    readBlock ((jsonImage block.value).mapNumbers numberText) = none := by
  rw [SoulReplayBlock.value, jsonImage_obj, Json.mapNumbers_obj]
  exact readBlock_eq_none rfl (readBlockData_eq_none rfl)

/-- The native core reads the text of normalised blocks only when there are none. -/
theorem read_replayBlocks (blocks : List SoulReplayBlock) :
    (Serde.parse (jsonText [] (.arr (blocks.map SoulReplayBlock.value)))).bind
      (Serde.sequence readBlock) = if blocks = [] then some [] else none := by
  rw [Serde.parse_jsonText (by simp [Json.Blank]), Option.bind_some, jsonImage_arr,
    Json.mapNumbers_arr, Serde.sequence]
  cases blocks with
  | nil => rfl
  | cons block blocks =>
    rw [List.map_cons, List.map_cons, List.map_cons, List.mapM_cons, readBlock_replay]
    rfl

/-- The counts of a report, as an ECMAScript program reads them. -/
theorem property_report (report : ReplayReport) :
    let value := own (report.toValue.mapNumbers .ofNat)
    property value "accepted" = some (.num (.ofNat report.accepted)) ∧
      property value "rejected" = some (.num (.ofNat report.rejected)) := by
  intro value
  have hvalue : value = .obj [(js "accepted", .num (.ofNat report.accepted)),
      (js "rejected", .num (.ofNat report.rejected)),
      (js "errors", own ((Json.arr (report.errors.map jsonText)).mapNumbers .ofNat)),
      (js "snapshot", own ((Json.obj [(js "blocks", .num report.snapshot.blocks),
        (js "last_hash", optionValue report.snapshot.lastHash),
        (js "state_hash", jsonText report.snapshot.stateHash)]).mapNumbers .ofNat))] := by
    rw [show value = own (report.toValue.mapNumbers .ofNat) from rfl, ReplayReport.toValue,
      Json.mapNumbers_obj, own_obj_of_inOwnOrder]
    · rfl
    · exact show InOwnOrder [js "accepted", js "rejected", js "errors", js "snapshot"] from
        ⟨by decide, by decide⟩
  rw [hvalue]
  exact ⟨rfl, rfl⟩

/-- A replay accepts everything only where there is nothing. -/
theorem replayAcceptsAll_iff {chainName : JsString} {blocks : List SoulReplayBlock} :
    ReplayAcceptsAll host napi chainName blocks ↔ blocks = [] := by
  constructor
  · rintro ⟨report, hreport, -⟩
    by_contra hne
    rw [soulReplay, Napi.soulReplay, Napi.argument, read_replayBlocks, if_neg hne,
      parseEnvelope_err] at hreport
    cases hreport
  · rintro rfl
    have hanswer : soulReplay host napi chainName [] =
        .ok (own ((replay napi.crates (wellFormed chainName) []).toValue.mapNumbers .ofNat)) := by
      rw [soulReplay, Napi.soulReplay, Napi.argument, read_replayBlocks, if_pos rfl]
      exact parseEnvelope_ok _ _
    exact ⟨_, hanswer, property_report _⟩

/-! ## Stored chains -/

theorem length_relink (prevHash : JsString) (idx : ℕ) (blocks : List SoulReplayBlock) :
    (relink prevHash idx blocks).length = blocks.length := by
  induction blocks generalizing prevHash idx with
  | nil => rfl
  | cons block blocks ih => rw [relink, List.length_cons, List.length_cons, ih]

/-- Only objects are normalised. -/
theorem normalizeReplayBlocks_eq_nil {rawBlocks : List Plain} {chain : JsString} :
    normalizeReplayBlocks host rawBlocks chain = [] ↔
      ∀ raw ∈ rawBlocks, normalizeBlock host raw chain = none := by
  rw [normalizeReplayBlocks, ← List.length_eq_zero_iff, length_relink, List.length_insertionSort,
    List.length_eq_zero_iff, List.filterMap_eq_nil_iff]

/-- The payload of a block is an object. -/
theorem parseJson_payload {block : Chain.ChainBlock} (h : OwnOrdered (.obj block.data)) :
    parseJson (decodeUtf8 block.payload) = some (jsonImage block.value) := by
  rw [Chain.ChainBlock.payload, decodeUtf8_encodeUtf8]
  exact parseJson_jsonText (by simp [Json.Blank, Json.isSpace]) (Chain.ownOrdered_value h)

/-- The blocks loaded from a chain that `appendBlock` built are none only when it has none. -/
theorem load_eq_nil_iff {blocks : List Chain.ChainBlock}
    (h : Chain.Chained host.toChainHost blocks) {entries : Chain.Dir}
    (hentries : (Chain.blockFiles entries).Perm (Chain.storedFiles blocks)) (chain : JsString) :
    loadReplayBlocksFromChain host entries (fun _ => false) chain = [] ↔ blocks = [] := by
  rw [loadReplayBlocksFromChain, normalizeReplayBlocks_eq_nil]
  constructor
  · intro hnone
    by_contra hne
    obtain ⟨block, hblock⟩ := List.exists_mem_of_ne_nil blocks hne
    have hfile : (Chain.fileName block.index, block.payload) ∈ Chain.blockFiles entries :=
      hentries.mem_iff.mpr (List.mem_map_of_mem hblock)
    have hraw : jsonImage block.value ∈ readRawBlocks host (fun _ => false) entries :=
      List.mem_filterMap.mpr ⟨_, (List.mem_insertionSort _).mpr hfile,
        parseJson_payload (h.ownOrdered_of_mem hblock)⟩
    have hblockNone := hnone _ hraw
    rw [Chain.ChainBlock.value, jsonImage_obj] at hblockNone
    cases hblockNone
  · rintro rfl
    have hempty : Chain.blockFiles entries = [] := List.perm_nil.mp hentries
    simp [readRawBlocks, hempty]

/-- **Replay of stored chains.** The replay of a chain that `appendBlock` built accepts all blocks
only when there are none. Of any directory whatever, the replay accepts all blocks only when none is
left by the normalisation. -/
theorem replay_accepts_only_empty (host : BridgeHost) (napi : Napi) (chain : JsString) :
    (∀ blocks entries, Chain.Chained host.toChainHost blocks →
      (Chain.blockFiles entries).Perm (Chain.storedFiles blocks) →
        (ReplayAcceptsAll host napi chain
          (loadReplayBlocksFromChain host entries (fun _ => false) chain) ↔ blocks = [])) ∧
    ∀ entries readFails,
      (¬ReplayAcceptsAll host napi chain
        (loadReplayBlocksFromChain host entries readFails chain) ↔
          loadReplayBlocksFromChain host entries readFails chain ≠ []) := by
  refine ⟨fun blocks entries h hentries => ?_, fun entries readFails => ?_⟩
  · rw [replayAcceptsAll_iff, load_eq_nil_iff h hentries]
  · rw [replayAcceptsAll_iff]

/-- The block of the first append to an empty chain. -/
def sampleStored : Chain.ChainBlock :=
  Chain.sampleCall.block sampleHost.toChainHost [] (isoText 1000)

theorem chained_sampleStored : Chain.Chained sampleHost.toChainHost [sampleStored] :=
  Chain.Chained.nil.concat ⟨rfl, rfl, Chain.sampleCall.ordered, rfl⟩

/-- The chain of one block is not accepted. -/
theorem replay_accepts_only_empty_sample :
    ¬ReplayAcceptsAll sampleHost sampleNapi (js "journal")
      (loadReplayBlocksFromChain sampleHost (Chain.storedFiles [sampleStored]) (fun _ => false)
        (js "journal")) := by
  have hperm : (Chain.blockFiles (Chain.storedFiles [sampleStored])).Perm
      (Chain.storedFiles [sampleStored]) := .of_eq (Chain.blockFiles_storedFiles _)
  rw [(replay_accepts_only_empty sampleHost sampleNapi (js "journal")).1 [sampleStored] _
    chained_sampleStored hperm]
  simp

/-- A stored chain that is intact is not replayed. -/
theorem intact_chain_not_replayed :
    ¬∀ blocks entries, Chain.Chained sampleHost.toChainHost blocks →
      (Chain.blockFiles entries).Perm (Chain.storedFiles blocks) →
        ReplayAcceptsAll sampleHost sampleNapi (js "journal")
          (loadReplayBlocksFromChain sampleHost entries (fun _ => false) (js "journal")) := by
  intro hall
  have hperm : (Chain.blockFiles (Chain.storedFiles [sampleStored])).Perm
      (Chain.storedFiles [sampleStored]) := .of_eq (Chain.blockFiles_storedFiles _)
  have haccepts := hall [sampleStored] _ chained_sampleStored hperm
  rw [replayAcceptsAll_iff, load_eq_nil_iff chained_sampleStored hperm] at haccepts
  exact absurd haccepts (by simp)

end MemphisOS.Bridge
