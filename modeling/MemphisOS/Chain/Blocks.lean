import MemphisOS.Admin.Identity
import MemphisOS.Ecma.Utf8
import MemphisOS.Ecma.Value

/-!
# Blocks of the file chain

A block file holds the JSON text of a block. Reading one recovers the last JSON object of a
noisy file, checks its shape and accepts two hash formulas: that of the whole block and
the legacy one of its data alone.
-/

namespace MemphisOS.Chain

open Ecma

/-- What the chain store uses of the platform. -/
structure ChainHost extends Host where
  /-- `a.localeCompare(b) <= 0`. -/
  localeLe : JsString → JsString → Bool
  /-- The message of the error `JSON.parse` throws on a text. -/
  parseMessage : Text → Text

/-- The hashed part of a block. -/
structure BlockContent where
  index : JsNumber
  timestamp : JsString
  chain : JsString
  /-- The properties of the data. -/
  data : List (JsString × Plain)
  prevHash : JsString

structure ChainBlock extends BlockContent where
  hash : JsString

/-- `'0'.repeat(64)`. -/
def genesisPrevHash : JsString := ofText (List.replicate 64 '0')

/-- The object that is hashed. -/
def BlockContent.value (content : BlockContent) : Plain :=
  .obj [(js "index", .num content.index), (js "timestamp", .str content.timestamp),
    (js "chain", .str content.chain), (js "data", .obj content.data),
    (js "prev_hash", .str content.prevHash)]

/-- The object that is stored. -/
def ChainBlock.value (block : ChainBlock) : Plain :=
  .obj [(js "index", .num block.index), (js "timestamp", .str block.timestamp),
    (js "chain", .str block.chain), (js "data", .obj block.data),
    (js "prev_hash", .str block.prevHash), (js "hash", .str block.hash)]

variable (host : ChainHost)

/-! ## Hashing -/

/-- The order of entries `sortValue` uses. -/
def LocaleBefore (a b : JsString × Plain) : Prop := host.localeLe a.1 b.1 = true

instance : DecidableRel (LocaleBefore host) := fun _ _ => inferInstanceAs (Decidable (_ = true))

/-- Every object with its entries sorted by `localeCompare`. -/
def sortValue : Plain → Plain :=
  .fold .null .bool .num .str .arr fun ms =>
    .obj (orderMembers (ms.insertionSort (LocaleBefore host)))

def stableStringify (value : Plain) : Text := jsonText [] (sortValue host value)

def hashBlock (content : BlockContent) : Text := host.sha256 (stableStringify host content.value)

/-- The hash of the data alone. -/
def legacyHash (data : List (JsString × Plain)) : Text := host.sha256 (jsonText [] (.obj data))

/-- The error of an integrity check. -/
def integrityError (file problem : Text) : Text :=
  "chain integrity check failed for ".toList ++ file ++ ": ".toList ++ problem

/-- The index is the number given. -/
def BlockContent.hasIndex (content : BlockContent) (n : JsNumber) : Bool := content.index.strictEq n

def validateBlockHash (block : ChainBlock) (file : Text) : Except Text Unit :=
  if block.hash ≠ ofText (hashBlock host block.toBlockContent) ∧
      block.hash ≠ ofText (legacyHash host block.data) then
    .error (integrityError file "hash mismatch".toList)
  else if block.hasIndex (.ofNat 1) ∧ block.prevHash ≠ [] ∧ block.prevHash ≠ genesisPrevHash then
    .error (integrityError file "prev_hash mismatch".toList)
  else .ok ()

/-! ## Reading -/

/-- The loop variables of `extractJsonObjects`; the chunk since `start` is in reverse. -/
structure ExtractState where
  depth : ℕ
  chunk : Option Text
  inString : Bool
  escaped : Bool
  out : List Plain

/-- One round of the loop of `extractJsonObjects`. -/
def extractStep (state : ExtractState) (ch : Char) : ExtractState :=
  let chunk := state.chunk.map fun chunk => ch :: chunk
  if state.inString then
    if state.escaped then { state with chunk, escaped := false }
    else if ch = '\\' then { state with chunk, escaped := true }
    else if ch = '"' then { state with chunk, inString := false }
    else { state with chunk }
  else if ch = '"' then { state with chunk, inString := true }
  else if ch = '{' then
    { state with
      depth := state.depth + 1
      chunk := if state.depth = 0 then some [ch] else chunk }
  else if ch = '}' ∧ 0 < state.depth then
    if state.depth = 1 then
      { state with
        depth := 0
        chunk := none
        out := state.out ++ (chunk.bind fun chunk => parseJson chunk.reverse).toList }
    else { state with depth := state.depth - 1, chunk }
  else { state with chunk }

def extractJsonObjects (raw : Text) : List Plain :=
  (raw.foldl extractStep ⟨0, none, false, false, []⟩).out

def parseJsonObject (raw file : Text) : Except Text Plain :=
  let source := trim raw
  if source = [] then .error (integrityError file "invalid json (empty file)".toList)
  else
    match parseJson source with
    | some value => .ok value
    | none =>
      match (extractJsonObjects raw).getLast? with
      | some value => .ok value
      | none => .error (integrityError file
          ("invalid json (".toList ++ host.parseMessage source ++ [')']))

/-- The properties of the object that are used. -/
def toChainBlock (value : Plain) (file : Text) : Except Text ChainBlock :=
  match value with
  | .null => .error "Cannot read properties of null (reading 'index')".toList
  | .obj ms =>
    match ms.lookup (js "index"), ms.lookup (js "timestamp"), ms.lookup (js "chain"),
      ms.lookup (js "prev_hash"), ms.lookup (js "hash"), ms.lookup (js "data") with
    | some (.num index), some (.str timestamp), some (.str chain), some (.str prevHash),
        some (.str hash), some (.obj data) => .ok ⟨⟨index, timestamp, chain, data, prevHash⟩, hash⟩
    | _, _, _, _, _, _ => .error (integrityError file "invalid block shape".toList)
  | _ => .error (integrityError file "invalid block shape".toList)

def readBlockFile (bytes : List UInt8) (file : Text) : Except Text ChainBlock := do
  toChainBlock (← parseJsonObject host (decodeUtf8 bytes) file) file

/-! ## Writing -/

/-- The bytes a block is stored as. -/
def ChainBlock.payload (block : ChainBlock) : List UInt8 :=
  encodeUtf8 (jsonText [' ', ' '] block.value)

/-- The data as it is read back. -/
def imageData (data : List (JsString × Plain)) : List (JsString × Plain) :=
  data.map fun m => (m.1, jsonImage m.2)

/-- The block as it is read back. -/
def ChainBlock.image (block : ChainBlock) : ChainBlock :=
  { block with data := imageData block.data }

variable {host} {block : ChainBlock}

@[simp] theorem ChainBlock.image_index : block.image.index = block.index := rfl

@[simp] theorem ChainBlock.image_prevHash : block.image.prevHash = block.prevHash := rfl

@[simp] theorem ChainBlock.image_hash : block.image.hash = block.hash := rfl

/-- A text that neither starts nor ends with white space. -/
theorem trim_eq_self {c d : Char} {t : Text} (hc : isJsSpace c = false) (hd : isJsSpace d = false) :
    trim (c :: t ++ [d]) = c :: t ++ [d] := by
  rw [trim, List.cons_append, List.dropWhile_cons_of_neg (by simp [hc]), ← List.cons_append,
    List.reverse_append, List.reverse_singleton, List.singleton_append,
    List.dropWhile_cons_of_neg (by simp [hd])]
  simp

/-- The text of an object is not trimmed. -/
theorem trim_jsonText_obj (gap : Text) (ms : List (JsString × Plain)) :
    trim (jsonText gap (.obj ms)) = jsonText gap (.obj ms) := by
  rw [jsonText, jsonImage_obj, Json.write_obj, Json.bracket]
  split
  · exact trim_eq_self (t := []) (by decide) (by decide)
  · exact trim_eq_self (by decide) (by decide)

theorem jsonText_obj_ne_nil (gap : Text) (ms : List (JsString × Plain)) :
    jsonText gap (.obj ms) ≠ [] := by
  rw [jsonText, jsonImage_obj, Json.write_obj, Json.bracket]
  split <;> simp

theorem jsonNumber_ofNat {n : ℕ} (h : n < 2 ^ 53) : jsonNumber (.ofNat n) = .num (.ofNat n) := by
  rw [JsNumber.ofNat_eq h]
  rfl

/-- The stored object has its properties in order. -/
theorem ownOrdered_value (h : OwnOrdered (.obj block.data)) : OwnOrdered block.value := by
  rw [ChainBlock.value, ownOrdered_obj]
  simp only [List.map_cons, List.map_nil]
  refine ⟨⟨by decide, by decide⟩, ?_⟩
  simp only [List.mem_cons, List.not_mem_nil, or_false]
  rintro m (rfl | rfl | rfl | rfl | rfl | rfl)
  · trivial
  · trivial
  · trivial
  · exact h
  · trivial
  · trivial

/-- The payload of a block is the text of its JSON image. -/
theorem parseJson_payload {n : ℕ} (hn : n < 2 ^ 53) (hindex : block.index = .ofNat n)
    (hdata : OwnOrdered (.obj block.data)) :
    parseJson (jsonText [' ', ' '] block.value) = some block.image.value := by
  rw [parseJson_jsonText (by simp [Json.Blank, Json.isSpace]) (ownOrdered_value hdata),
    ChainBlock.value, jsonImage_obj, ChainBlock.value]
  simp only [List.map_cons, List.map_nil, jsonImage_obj, ChainBlock.image, imageData]
  rw [hindex, show jsonImage (.num (.ofNat n) : Plain) = .num (.ofNat n) from jsonNumber_ofNat hn]
  rfl

/-- **Reading back.** The payload of a block reads as the JSON image of the block. -/
theorem readBlockFile_payload {n : ℕ} (hn : n < 2 ^ 53) (hindex : block.index = .ofNat n)
    (hdata : OwnOrdered (.obj block.data)) (file : Text) :
    readBlockFile host block.payload file = .ok block.image := by
  have hne : jsonText [' ', ' '] block.value ≠ [] := jsonText_obj_ne_nil _ _
  have htrim : trim (jsonText [' ', ' '] block.value) = jsonText [' ', ' '] block.value :=
    trim_jsonText_obj _ _
  rw [readBlockFile, ChainBlock.payload, decodeUtf8_encodeUtf8, parseJsonObject, htrim, if_neg hne,
    parseJson_payload hn hindex hdata]
  rfl

/-! ## The hash of what is read back -/

theorem sortValue_obj (ms : List (JsString × Plain)) :
    sortValue host (.obj ms) = .obj (orderMembers
      ((ms.map fun m => (m.1, sortValue host m.2)).insertionSort (LocaleBefore host))) :=
  Json.fold_obj ms

theorem sortValue_arr (vs : List Plain) :
    sortValue host (.arr vs) = .arr (vs.map (sortValue host)) :=
  Json.fold_arr vs

/-- Sorting does not look at numbers. -/
theorem sortValue_jsonImage (v : Plain) :
    sortValue host (jsonImage v) = jsonImage (sortValue host v) := by
  induction v using Json.induct with
  | null => rfl
  | bool b => rfl
  | num n => cases n <;> rfl
  | str s => rfl
  | arr vs ih =>
    rw [jsonImage_arr, sortValue_arr, sortValue_arr, jsonImage_arr, List.map_map, List.map_map]
    exact congrArg Json.arr (List.map_congr_left ih)
  | obj ms ih =>
    rw [jsonImage_obj, sortValue_obj, sortValue_obj, jsonImage_obj, ← orderMembers_map,
      List.map_insertionSort (LocaleBefore host) (LocaleBefore host) _ _ (by intros; rfl),
      List.map_map, List.map_map]
    have hmembers : ms.map (((fun m => (m.1, sortValue host m.2)) : JsString × Plain → _) ∘
        fun m => (m.1, jsonImage m.2)) =
        ms.map ((fun m => (m.1, jsonImage m.2)) ∘ fun m => (m.1, sortValue host m.2)) :=
      List.map_congr_left fun m hm => by simp [ih m hm]
    rw [hmembers]

theorem jsonImage_jsonImage (v : Plain) : jsonImage (jsonImage v) = jsonImage v :=
  jsonImage_eq_self (jsonNumbers_jsonImage v)

/-- The content of a block that is read back. -/
theorem value_image {n : ℕ} (hn : n < 2 ^ 53) (hindex : block.index = .ofNat n) :
    block.image.toBlockContent.value = jsonImage block.toBlockContent.value := by
  rw [BlockContent.value, BlockContent.value, jsonImage_obj]
  simp only [List.map_cons, List.map_nil, jsonImage_obj, ChainBlock.image, imageData]
  rw [hindex, show jsonImage (.num (.ofNat n) : Plain) = .num (.ofNat n) from jsonNumber_ofNat hn]
  rfl

/-- **Hashes read back.** A block that is read back has the hash of the block. -/
theorem hashBlock_image {n : ℕ} (hn : n < 2 ^ 53) (hindex : block.index = .ofNat n) :
    hashBlock host block.image.toBlockContent = hashBlock host block.toBlockContent := by
  rw [hashBlock, hashBlock, stableStringify, stableStringify, value_image hn hindex,
    sortValue_jsonImage, jsonText, jsonText, jsonImage_jsonImage]

end MemphisOS.Chain
