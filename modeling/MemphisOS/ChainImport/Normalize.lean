import MemphisOS.Bridge.Envelope
import MemphisOS.Ecma.Documents

/-!
# Candidates of an import

A candidate is any JSON value. Its members are looked up under several names and become a block,
which is a candidate for itself.
-/

namespace MemphisOS.ChainImport

open Ecma
open Bridge (optionalMember)

structure BlockData where
  type : Option JsString
  content : Option JsString
  tags : Option (List JsString)

/-- `NormalizedChainBlock`. -/
structure Block where
  index : JsNumber
  prevHash : JsString
  hash : JsString
  timestamp : Option JsString
  chain : Option JsString
  data : Option BlockData

inductive IssueReason where
  | notAnObject
  | missingHash
  | invalidHashType
  | duplicateHash
  | invalidIndex
  | missingGenesisPrevHash
  | prevHashMismatch
  | invalidPrevHashType
  deriving DecidableEq

def IssueReason.text : IssueReason → String
  | notAnObject => "not_an_object"
  | missingHash => "missing_hash"
  | invalidHashType => "invalid_hash_type"
  | duplicateHash => "duplicate_hash"
  | invalidIndex => "invalid_index"
  | missingGenesisPrevHash => "missing_genesis_prev_hash"
  | prevHashMismatch => "prev_hash_mismatch"
  | invalidPrevHashType => "invalid_prev_hash_type"

structure ImportIssue where
  blockRef : JsString
  reason : IssueReason
  detail : Option JsString

/-- `GENESIS_PREV_HASH`. -/
def genesisPrevHash : JsString := ofText (List.replicate 64 '0')

/-- The members of an object. -/
abbrev UnknownRecord := List (JsString × Plain)

def asRecord : Plain → Option UnknownRecord
  | .obj members => some members
  | _ => none

/-! ## Picking members -/

def stringValue : Option Plain → Option JsString
  | some (.str (u :: s)) => some (u :: s)
  | _ => none

def pickString (source : UnknownRecord) (keys : List String) : Option JsString :=
  keys.findSome? fun key => stringValue (source.lookup (js key))

/-- `/^\d+$/.test`. -/
def isDigits (s : JsString) : Bool := s ≠ [] && (s.map charOfUnit).all Char.isDigit

/-- A finite number, or the number a string of digits stands for, which may be infinite. -/
def numberValue : Option Plain → Option JsNumber
  | some (.num n) => if n.isFinite then some n else none
  | some (.str s) =>
    if isDigits s then some (.ofRat (digitsValue (s.map charOfUnit)) false) else none
  | _ => none

def pickNumber (source : UnknownRecord) (keys : List String) : Option JsNumber :=
  keys.findSome? fun key => numberValue (source.lookup (js key))

def stringItem : Plain → Option JsString
  | .str s => some s
  | _ => none

def stringArrayValue : Option Plain → Option (List JsString)
  | some (.arr items) => items.mapM stringItem
  | _ => none

def pickStringArray (source : UnknownRecord) (keys : List String) : Option (List JsString) :=
  keys.findSome? fun key => stringArrayValue (source.lookup (js key))

/-! ## Normalising -/

/-- `candidate[${indexHint}]`. -/
def candidateRef (indexHint : ℕ) : JsString :=
  js "candidate[" ++ ofText (digits indexHint) ++ js "]"

/-- The data of a block, when any of its members is there. -/
def blockData (type content : Option JsString) (tags : Option (List JsString)) : Option BlockData :=
  if content.isSome || tags.isSome || type.isSome then some ⟨type, content, tags⟩ else none

def normalizeCandidate (raw : Plain) (indexHint : ℕ) : Except ImportIssue Block :=
  match asRecord raw with
  | none => .error ⟨candidateRef indexHint, .notAnObject, none⟩
  | some obj =>
    match pickString obj ["hash", "block_hash"] with
    | none => .error ⟨candidateRef indexHint, .missingHash,
        some (js "required key: hash | block_hash")⟩
    | some hash =>
      let dataObj := (obj.lookup (js "data")).bind asRecord
      let content := (pickString obj ["content"]).or
        (dataObj.bind fun data => pickString data ["content", "text"])
      let tags := (pickStringArray obj ["tags"]).or
        (dataObj.bind fun data => pickStringArray data ["tags"])
      let dataType := (pickString obj ["type", "block_type"]).or
        (dataObj.bind fun data => pickString data ["type", "block_type"])
      .ok
        { index := (pickNumber obj ["index", "idx", "height"]).getD (.ofNat indexHint)
          prevHash := (pickString obj ["prev_hash", "prevHash", "previous_hash",
            "previousHash"]).getD genesisPrevHash
          hash
          timestamp := pickString obj ["timestamp", "ts", "created_at"]
          chain := pickString obj ["chain", "chain_name"]
          data := blockData dataType content tags }

/-! ## Blocks as candidates -/

def BlockData.members (data : BlockData) : UnknownRecord :=
  optionalMember "type" (data.type.map .str) ++
    optionalMember "content" (data.content.map .str) ++
    optionalMember "tags" (data.tags.map fun tags => .arr (tags.map .str))

/-- The members of a block, without those that are undefined. -/
def Block.members (block : Block) : UnknownRecord :=
  [(js "index", .num block.index), (js "hash", .str block.hash),
    (js "prev_hash", .str block.prevHash)] ++
    optionalMember "timestamp" (block.timestamp.map .str) ++
    optionalMember "chain" (block.chain.map .str) ++
    optionalMember "data" (block.data.map fun data => .obj data.members)

/-- The block as a JSON value. -/
def Block.value (block : Block) : Plain := .obj block.members

/-- What the strings and the data of a normalised block are like. -/
structure Block.Normal (block : Block) : Prop where
  hash : block.hash ≠ []
  prevHash : block.prevHash ≠ []
  timestamp : block.timestamp ≠ some []
  chain : block.chain ≠ some []
  data : ∀ data, block.data = some data → data.type ≠ some [] ∧ data.content ≠ some [] ∧
    blockData data.type data.content data.tags = some data

theorem genesisPrevHash_ne_nil : genesisPrevHash ≠ [] := by decide

theorem stringValue_ne_nil (value : Option Plain) : stringValue value ≠ some [] := by
  unfold stringValue
  split
  · exact fun h => List.cons_ne_nil _ _ (Option.some.inj h)
  · exact nofun

theorem pickString_ne_nil (source : UnknownRecord) (keys : List String) :
    pickString source keys ≠ some [] := by
  intro h
  obtain ⟨key, -, hkey⟩ := List.exists_of_findSome?_eq_some h
  exact stringValue_ne_nil _ hkey

/-- A member from either of two places is not empty when neither is. -/
theorem or_ne_nil {a b : Option JsString} (ha : a ≠ some []) (hb : b ≠ some []) :
    a.or b ≠ some [] := by
  cases a with
  | none => exact hb
  | some s => exact ha

theorem bind_pickString_ne_nil (source : Option UnknownRecord) (keys : List String) :
    (source.bind fun data => pickString data keys) ≠ some [] := by
  cases source with
  | none => exact nofun
  | some data => exact pickString_ne_nil data keys

theorem blockData_eq_some {type content : Option JsString} {tags : Option (List JsString)}
    {data : BlockData} (h : blockData type content tags = some data) :
    data = ⟨type, content, tags⟩ := by
  unfold blockData at h
  split at h
  · exact (Option.some.inj h).symm
  · cases h

/-- Normalised candidates are normal. -/
theorem normal_of_normalizeCandidate {raw : Plain} {indexHint : ℕ} {block : Block}
    (h : normalizeCandidate raw indexHint = .ok block) : block.Normal := by
  unfold normalizeCandidate at h
  split at h
  · cases h
  · next obj _ =>
    split at h
    · cases h
    · next hash hhash =>
      obtain rfl := Except.ok.inj h
      refine ⟨fun hnil => pickString_ne_nil obj _ (hhash.trans (congrArg some hnil)), ?_,
        pickString_ne_nil _ _, pickString_ne_nil _ _, fun data hdata => ?_⟩
      · dsimp only
        cases hprev : pickString obj ["prev_hash", "prevHash", "previous_hash", "previousHash"] with
        | none => exact genesisPrevHash_ne_nil
        | some prevHash =>
          exact fun hnil => pickString_ne_nil obj _ (hprev.trans (congrArg some hnil))
      · obtain rfl := blockData_eq_some hdata
        exact ⟨or_ne_nil (pickString_ne_nil _ _) (bind_pickString_ne_nil _ _),
          or_ne_nil (pickString_ne_nil _ _) (bind_pickString_ne_nil _ _), hdata⟩

/-! ## Normalising a block again -/

theorem lookup_js_cons (name key : String) (a : Plain) (members : UnknownRecord) :
    ((js name, a) :: members).lookup (js key) =
      if key = name then some a else members.lookup (js key) := by
  rw [List.lookup_cons]
  by_cases h : key = name
  · rw [if_pos h, h, beq_self_eq_true]
  · rw [if_neg h, beq_false_of_ne fun hjs => h (js_inj.mp hjs)]

theorem lookup_optionalMember (name key : String) (value : Option Plain) :
    (optionalMember name value).lookup (js key) = if key = name then value else none := by
  cases value with
  | none => exact (ite_self none).symm
  | some a => exact lookup_js_cons name key a []

theorem BlockData.lookup_members (data : BlockData) (key : String) :
    data.members.lookup (js key) =
      ((if key = "type" then data.type.map .str else none).or
        (if key = "content" then data.content.map .str else none)).or
        (if key = "tags" then data.tags.map fun tags => .arr (tags.map .str) else none) := by
  rw [members, List.lookup_append, List.lookup_append, lookup_optionalMember,
    lookup_optionalMember, lookup_optionalMember]

theorem Block.lookup_members (block : Block) (key : String) :
    block.members.lookup (js key) =
      if key = "index" then some (.num block.index)
      else if key = "hash" then some (.str block.hash)
      else if key = "prev_hash" then some (.str block.prevHash)
      else ((if key = "timestamp" then block.timestamp.map .str else none).or
        (if key = "chain" then block.chain.map .str else none)).or
        (if key = "data" then block.data.map fun data => .obj data.members else none) := by
  rw [members, List.append_assoc, List.append_assoc, List.cons_append, List.cons_append,
    List.cons_append, List.nil_append, lookup_js_cons, lookup_js_cons, lookup_js_cons,
    List.lookup_append, List.lookup_append, lookup_optionalMember, lookup_optionalMember,
    lookup_optionalMember, Option.or_assoc]

theorem pickString_nil (source : UnknownRecord) : pickString source [] = none := rfl

theorem pickString_cons (source : UnknownRecord) (key : String) (keys : List String) :
    pickString source (key :: keys) =
      (stringValue (source.lookup (js key))).or (pickString source keys) := by
  rw [pickString, List.findSome?_cons]
  cases stringValue (source.lookup (js key)) <;> rfl

theorem stringValue_none : stringValue none = none := rfl

theorem stringArrayValue_none : stringArrayValue none = none := rfl

theorem stringValue_str {s : JsString} (h : s ≠ []) : stringValue (some (.str s)) = some s := by
  cases s with
  | nil => exact absurd rfl h
  | cons u s => rfl

theorem stringValue_map_str {s : Option JsString} (h : s ≠ some []) :
    stringValue (s.map .str) = s := by
  cases s with
  | none => rfl
  | some s => exact stringValue_str fun hnil => h (congrArg some hnil)

theorem stringArrayValue_map (tags : Option (List JsString)) :
    stringArrayValue (tags.map fun tags => .arr (tags.map .str)) = tags := by
  cases tags with
  | none => rfl
  | some tags =>
    have hitems := @mapM_eq_some_map _ _ _ (Json.str : JsString → Plain) stringItem id tags
      fun _ _ => rfl
    rw [List.map_id] at hitems
    exact hitems

/-- The members of the data are picked from where they have been written. -/
theorem BlockData.pick_members (data : BlockData) (htype : data.type ≠ some [])
    (hcontent : data.content ≠ some []) :
    pickString data.members ["content", "text"] = data.content ∧
      pickStringArray data.members ["tags"] = data.tags ∧
      pickString data.members ["type", "block_type"] = data.type := by
  have hcontent' := stringValue_map_str hcontent
  have htype' := stringValue_map_str htype
  have htags := stringArrayValue_map data.tags
  refine ⟨?_, ?_, ?_⟩
  · simp [pickString_cons, pickString_nil, BlockData.lookup_members, hcontent', stringValue_none]
  · simp [pickStringArray, BlockData.lookup_members, htags]
  · simp [pickString_cons, pickString_nil, BlockData.lookup_members, htype', stringValue_none]

/-- **A normal block with a finite index is normalised to itself.** -/
theorem normalizeCandidate_value {block : Block} (h : block.Normal)
    (hindex : block.index.isFinite = true) (indexHint : ℕ) :
    normalizeCandidate block.value indexHint = .ok block := by
  have hhash : pickString block.members ["hash", "block_hash"] = some block.hash := by
    simp [pickString_cons, pickString_nil, Block.lookup_members, stringValue_str h.hash]
  have hprev : pickString block.members ["prev_hash", "prevHash", "previous_hash",
      "previousHash"] = some block.prevHash := by
    simp [pickString_cons, pickString_nil, Block.lookup_members, stringValue_str h.prevHash]
  have hnumber : pickNumber block.members ["index", "idx", "height"] = some block.index := by
    simp [pickNumber, Block.lookup_members, numberValue, hindex]
  have htimestamp : pickString block.members ["timestamp", "ts", "created_at"] =
      block.timestamp := by
    simp [pickString_cons, pickString_nil, Block.lookup_members, stringValue_map_str h.timestamp,
      stringValue_none]
  have hchain : pickString block.members ["chain", "chain_name"] = block.chain := by
    simp [pickString_cons, pickString_nil, Block.lookup_members, stringValue_map_str h.chain,
      stringValue_none]
  have hnone : pickString block.members ["content"] = none ∧
      pickStringArray block.members ["tags"] = none ∧
      pickString block.members ["type", "block_type"] = none := by
    simp [pickString_cons, pickString_nil, pickStringArray, Block.lookup_members, stringValue_none,
      stringArrayValue_none]
  have hdata : block.members.lookup (js "data") = block.data.map fun data => .obj data.members := by
    simp [Block.lookup_members]
  have hrecord : asRecord block.value = some block.members := rfl
  unfold normalizeCandidate
  rw [hrecord]
  dsimp only
  rw [hhash]
  dsimp only
  rw [hprev, hnumber, htimestamp, hchain, hnone.1, hnone.2.1, hnone.2.2, hdata]
  cases hblock : block.data with
  | none =>
    have heta : block = { block with data := none } := by rw [← hblock]
    rw [heta]
    rfl
  | some data =>
    obtain ⟨htype, hcontent, hsome⟩ := h.data data hblock
    obtain ⟨hpickContent, hpickTags, hpickType⟩ := data.pick_members htype hcontent
    have heta : block = { block with data := some data } := by rw [← hblock]
    rw [heta]
    simp [asRecord, hpickContent, hpickTags, hpickType, hsome]

end MemphisOS.ChainImport
