import MemphisOS.Bridge.Envelope
import MemphisOS.Chain.Directory
import MemphisOS.Core.Napi
import MemphisOS.Ecma.Date

/-!
# Blocks of the native adapter

The block `NapiChainAdapter.appendBlock` builds from the blocks it has read and a record, the
texts it sends to the bridge, and what it takes from the answer. The native core knows the type
of a block under another name, so that it reads none of these blocks.
-/

namespace MemphisOS.Bridge

open Ecma MemphisCore

/-- The normalised data of a block. -/
structure NapiBlockData where
  blockType : JsString
  content : JsString
  tags : List JsString

/-- A block that is sent; index and previous hash come from whatever the last file holds. -/
structure NapiBlock where
  index : Plain
  timestamp : JsString
  chain : JsString
  data : NapiBlockData
  prevHash : Plain
  hash : JsString

def NapiBlockData.value (data : NapiBlockData) : Plain :=
  .obj [(js "block_type", .str data.blockType), (js "content", .str data.content),
    (js "tags", .arr (data.tags.map .str))]

def NapiBlock.value (block : NapiBlock) : Plain :=
  .obj [(js "index", block.index), (js "timestamp", .str block.timestamp),
    (js "chain", .str block.chain), (js "data", block.data.value),
    (js "prev_hash", block.prevHash), (js "hash", .str block.hash)]

/-- The items of an array that are strings. -/
def strings (items : List Plain) : List JsString :=
  items.filterMap fun
    | .str s => some s
    | _ => none

def normalizeData (data : List (JsString × Plain)) : NapiBlockData where
  blockType := match data.lookup (js "type") with
    | some (.str type) => type
    | _ => js "journal"
  content := match data.lookup (js "content") with
    | some (.str content) => content
    | _ => ofText (jsonText [] (.obj data))
  tags := match data.lookup (js "tags") with
    | some (.arr items) => strings items
    | _ => []

variable (host : BridgeHost)

/-- A value in a template literal. -/
def display : Plain → JsString
  | .num n => ofText (numberText n)
  | .str s => s
  | v => host.stringOf v

/-- The texts one after another with a separator between them. -/
def joinUnits (separator : JsString) : List JsString → JsString
  | [] => []
  | [s] => s
  | s :: t :: rest => s ++ separator ++ joinUnits separator (t :: rest)

/-- The text whose digest is the hash of a block. -/
def hashInput (index : Plain) (timestamp chain : JsString) (data : NapiBlockData)
    (prevHash : Plain) : JsString :=
  joinUnits (js "|") [display host index, timestamp, chain, data.blockType, data.content,
    joinUnits (js ",") data.tags, display host prevHash]

def toNapiBlock (chain : JsString) (index : Plain) (data : List (JsString × Plain))
    (prevHash : Plain) (timestamp : Text) : NapiBlock where
  index := index
  timestamp := ofText timestamp
  chain := chain
  data := normalizeData data
  prevHash := prevHash
  hash := ofText (host.sha256
    (wellFormed (hashInput host index (ofText timestamp) chain (normalizeData data) prevHash)))

/-- The value, unless it is missing or `null`. -/
def orElse (value : Option Plain) (default : Plain) : Plain :=
  match value with
  | none => default
  | some .null => default
  | some v => v

/-- `value + 1`. -/
def plusOne : Plain → Plain
  | .num n => .num (n.add (.ofNat 1))
  | v => host.plusOneOf v

/-- The index after the blocks read. -/
def nextIndex (chainBlocks : List Plain) : Plain :=
  match chainBlocks.getLast? with
  | none => .num (.ofNat 0)
  | some last => plusOne host (orElse (property last "index") (.num (.ofNat 0)))

/-- The hash of the last block read. -/
def lastHash (chainBlocks : List Plain) : Plain :=
  orElse (chainBlocks.getLast?.bind fun last => property last "hash")
    (.str Chain.genesisPrevHash)

/-- The block that is appended to the blocks read. -/
def nextBlock (chain : JsString) (data : List (JsString × Plain)) (timestamp : Text)
    (chainBlocks : List Plain) : NapiBlock :=
  toNapiBlock host chain (nextIndex host chainBlocks) data (lastHash chainBlocks) timestamp

/-! ## The answer -/

/-- `values.join(separator)`. -/
def joinValues (separator : JsString) (values : List Plain) : JsString :=
  joinUnits separator (values.map fun
    | .null => []
    | v => display host v)

/-- The message of a rejection. -/
def rejection (out : Plain) : JsString :=
  match orElse (property out "errors") (.arr []) with
  | .arr errors =>
    let joined := joinValues host (js ", ") errors
    js "chain_append rejected block: " ++ if joined = [] then js "unknown error" else joined
  | _ => js "(out.errors ?? []).join is not a function"

/-- The appended block of the data of an answer. -/
def takeAppended (out : Plain) : Except JsString Plain :=
  match out with
  | .null => .error (js "Cannot read properties of null (reading 'appended')")
  | out =>
    if truthy (property out "appended") then
      match property out "chain" with
      | some (.arr chain) =>
        if truthy chain.getLast? then .ok (chain.getLast?.getD .null)
        else .error (js "chain_append returned empty chain")
      | _ => .error (js "out.chain.at is not a function")
    else .error (rejection host out)

/-- What the bridge function makes of the texts of a chain and of a block. -/
def sendBlock (chainAppend : Text → Text → Text) (chainBlocks : List Plain) (block : NapiBlock) :
    Except JsString Plain := do
  takeAppended host (← parseEnvelope host
    (chainAppend (jsonText [] (.arr chainBlocks)) (jsonText [] block.value)) "chain_append")

/-! ## What the native core reads -/

variable (napi : Napi)

/-- A block whose data have no `type` is no block of the native core. -/
theorem readBlock_sent (block : NapiBlock) :
    (Serde.parse (jsonText [] block.value)).bind readBlock = none := by
  rw [Serde.parse_jsonText (by simp [Json.Blank]), Option.bind_some, NapiBlock.value, jsonImage_obj,
    Json.mapNumbers_obj]
  exact readBlock_eq_none rfl (readBlockData_eq_none rfl)

theorem exists_failed (chainJson : Text) (block : NapiBlock) :
    ∃ e, napi.appendAnswer chainJson (jsonText [] block.value) = .failed e := by
  rw [Napi.appendAnswer]
  split
  · next e _ => exact ⟨e, rfl⟩
  · rw [Napi.argument, readBlock_sent]
    exact ⟨_, rfl⟩

/-- **The native core refuses.** It reads no block the adapter builds, whatever the blocks before it
and the record are, and so appends none. -/
theorem chainAppend_refuses (chainBlocks : List Plain) (chain : JsString)
    (data : List (JsString × Plain)) (timestamp : Text) :
    let block := nextBlock host chain data timestamp chainBlocks
    (Serde.parse (jsonText [] block.value)).bind readBlock = none ∧
      (∀ blocks, napi.appendAnswer (jsonText [] (.arr chainBlocks)) (jsonText [] block.value) ≠
        .appended blocks) ∧
      ∃ message, sendBlock host napi.chainAppend chainBlocks block = .error message := by
  intro block
  obtain ⟨e, he⟩ := exists_failed napi (jsonText [] (.arr chainBlocks)) block
  refine ⟨readBlock_sent block, fun blocks => by simp [he], ?_⟩
  rw [sendBlock, Napi.chainAppend, he, AppendAnswer.text, parseEnvelope_err]
  exact ⟨_, rfl⟩

/-- A record with a type and a content. -/
def sampleRecord : List (JsString × Plain) :=
  [(js "type", .str (js "journal")), (js "content", .str (js "hello"))]

/-- The first block of a chain is not appended. -/
theorem first_block_refused :
    ¬∃ blocks, sampleNapi.appendAnswer (jsonText [] (.arr [])) (jsonText []
      (nextBlock sampleHost (js "journal") sampleRecord "2026-03-08T21:00:00.000Z".toList []).value) =
        .appended blocks := by
  rintro ⟨blocks, hblocks⟩
  obtain ⟨e, he⟩ := exists_failed sampleNapi (jsonText [] (.arr []))
    (nextBlock sampleHost (js "journal") sampleRecord "2026-03-08T21:00:00.000Z".toList [])
  rw [he] at hblocks
  cases hblocks

end MemphisOS.Bridge
