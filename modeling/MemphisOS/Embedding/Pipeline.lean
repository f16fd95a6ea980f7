import Mathlib.Data.List.AList
import MemphisOS.Core.Block
import MemphisOS.Ecma.Exceptions
import MemphisOS.Ecma.Utf8
import MemphisOS.Serde.Value

/-!
# The native embedding pipeline

The documents of `memphis-embed`, their vectors, and the index file they are kept in. Single
precision arithmetic and the order of a hash map are those of the platform.
-/

namespace MemphisEmbed

open Ecma Serde

/-- The arithmetic of `f32`, and the literals `serde_json` writes and reads. -/
structure SingleFloats (F : Type) where
  zero : F
  ofU32 : UInt32 → F
  add : F → F → F
  mul : F → F → F
  div : F → F → F
  sqrt : F → F
  /-- `v > 0.0`. -/
  isPositive : F → Bool
  /-- The literal of a finite number; others are written as `null`. -/
  write : F → Option Text
  read : Text → Option F
  isToken : ∀ x token, write x = some token → Json.WritesBack id readToken token

variable {F : Type}

inductive EmbedError where
  | emptyInput
  | textTooLarge (size max : ℕ)
  | invalidDimension (dim : ℕ)
  | providerUnavailable (reason : Text)

/-! ## Vectors -/

section Vectors

variable (floats : SingleFloats F)

/-- What a byte adds to its lane. -/
def signal (idx : ℕ) (byte : UInt8) : UInt32 := byte.toUInt32 ^^^ (UInt32.ofNat idx * 31)

/-- The lanes after the bytes of a text. -/
def lanes (text : Text) (dim : ℕ) : List F :=
  (encodeUtf8 text).zipIdx.foldl
    (fun out entry => out.modify (entry.2 % dim) fun lane =>
      floats.add lane (floats.ofU32 (signal entry.2 entry.1)))
    (List.replicate dim floats.zero)

def deterministicEmbed (text : Text) (dim : ℕ) : Except EmbedError (List F) :=
  if MemphisCore.trim text = [] then .error .emptyInput
  else if dim = 0 then .error (.invalidDimension dim)
  else
    let out := lanes floats text dim
    let norm := floats.sqrt ((out.map fun v => floats.mul v v).foldl floats.add floats.zero)
    .ok (if floats.isPositive norm then out.map fun v => floats.div v norm else out)

end Vectors

/-! ## Documents -/

structure EmbeddedDocument (F : Type) where
  id : Text
  text : Text
  vector : List F

abbrev Docs (F : Type) := AList fun _ : Text => EmbeddedDocument F

/-- What the pipeline uses of the platform. -/
structure EmbedHost (F : Type) extends SingleFloats F where
  /-- The order in which a hash map is iterated. -/
  iterate : List (EmbeddedDocument F) → List (EmbeddedDocument F)
  iterate_perm : ∀ docs, (iterate docs).Perm docs

/-! ## The index file -/

structure EmbedDiskDocV1 (F : Type) where
  id : Text
  text : Text
  vector : Option (List F)

structure EmbedDiskIndexV1 (F : Type) where
  version : UInt32
  dim : UInt64
  docs : List (EmbedDiskDocV1 F)

section Index

variable (floats : SingleFloats F)

def serializeF32 (x : F) : Document := (floats.write x).elim .null .num

def EmbedDiskDocV1.serialize (doc : EmbedDiskDocV1 F) : Document :=
  .obj [(js "id", .str (ofText doc.id)), (js "text", .str (ofText doc.text)),
    (js "vector", doc.vector.elim .null fun v => .arr (v.map (serializeF32 floats)))]

def EmbedDiskIndexV1.serialize (index : EmbedDiskIndexV1 F) : Document :=
  .obj [(js "version", .num (digits index.version.toNat)),
    (js "dim", .num (digits index.dim.toNat)),
    (js "docs", .arr (index.docs.map (·.serialize floats)))]

/-- `serde_json::to_string_pretty`. -/
def EmbedDiskIndexV1.toStringPretty (index : EmbedDiskIndexV1 F) : Text :=
  (index.serialize floats).write id [' ', ' '] []

def readF32 : Decoder F
  | .num token => floats.read token
  | _ => none

def readDiskDoc (v : Document) : Option (EmbedDiskDocV1 F) := do
  let [id, text, vector] ← fields ["id", "text", "vector"] 1 v | none
  return ⟨← id.bind string, ← text.bind string,
    ← optionField (Serde.sequence (readF32 floats)) vector⟩

def readDiskIndex (v : Document) : Option (EmbedDiskIndexV1 F) := do
  let [version, dim, docs] ← fields ["version", "dim", "docs"] 0 v | none
  return ⟨← version.bind u32, ← dim.bind u64, ← docs.bind (Serde.sequence (readDiskDoc floats))⟩

end Index

/-! ## Files -/

/-- The texts of the files, by their paths. -/
abbrev Disk := Text → Option Text

/-- `Path::parent` is there: the path has a component besides the root. -/
def hasParent (path : Text) : Bool :=
  if path.head? = some '/' then (path.splitOn '/').any fun name => name ≠ [] && name ≠ ['.']
  else path ≠ []

/-- `Path::with_extension("tmp")`, from the end of the path. -/
def tmpPath (path : Text) : Text :=
  let bare := path.reverse.dropWhile (· = '/')
  let name := bare.takeWhile (· ≠ '/')
  if name ∈ ["".toList, ".".toList, "..".toList] then path
  else
    let stem := (name.dropWhile (· ≠ '.')).drop 1
    (bare.drop name.length).reverse ++ (if stem = [] then name else stem).reverse ++ ".tmp".toList

def Disk.write (disk : Disk) (path content : Text) : Disk :=
  fun p => if p = path then some content else disk p

def Disk.rename (disk : Disk) (source target : Text) : Disk :=
  fun p => if p = target then disk source else if p = source then none else disk p

/-! ## The pipeline -/

inductive EmbedMode where
  | localDeterministic
  | provider (name : Text)

structure EmbedConfig where
  mode : EmbedMode
  dim : UInt64
  maxTextBytes : UInt64

structure EmbedPersistenceConfig where
  enabled : Bool
  indexPath : Text

inductive EmbedPersistenceLoadState where
  | disabled
  | missing
  | empty
  | loaded
  | corrupt

structure EmbedPersistenceState where
  indexPath : Text
  lastLoad : EmbedPersistenceLoadState

structure EmbedPipeline (F : Type) where
  config : EmbedConfig
  embed : Text → ℕ → Except EmbedError (List F)
  docs : Docs F
  persistence : Option EmbedPersistenceState

namespace EmbedPipeline

variable (host : EmbedHost F) (self : EmbedPipeline F)

def persistenceLoadState : EmbedPersistenceLoadState :=
  (self.persistence.map (·.lastLoad)).getD .disabled

def validateText (text : Text) : Except EmbedError Unit :=
  let size := (encodeUtf8 text).length
  if MemphisCore.trim text = [] then .error .emptyInput
  else if self.config.maxTextBytes.toNat < size then
    .error (.textTooLarge size self.config.maxTextBytes.toNat)
  else .ok ()

/-- The vector of a document that is loaded. -/
def loadedVector (doc : EmbedDiskDocV1 F) : Except EmbedError (List F) :=
  match doc.vector with
  | some existing =>
    if existing.length = self.config.dim.toNat then .ok existing
    else self.embed doc.text self.config.dim.toNat
  | none => self.embed doc.text self.config.dim.toNat

/-- The body of the loop of `load_docs_from_disk`. -/
def loadDoc (docs : Docs F) (doc : EmbedDiskDocV1 F) : Docs F :=
  if MemphisCore.trim doc.id = [] ∨ MemphisCore.trim doc.text = [] then docs
  else
    match self.validateText doc.text with
    | .error _ => docs
    | .ok _ =>
      match self.loadedVector doc with
      | .error _ => docs
      | .ok vector => docs.insert doc.id ⟨doc.id, doc.text, vector⟩

def loadDocsFromDisk (disk : Disk) (indexPath : Text) : Docs F × EmbedPersistenceLoadState :=
  match disk indexPath with
  | none => (∅, .missing)
  | some raw =>
    if MemphisCore.trim raw = [] then (∅, .empty)
    else
      match (Serde.parse raw).bind (readDiskIndex host.toSingleFloats) with
      | none => (∅, .corrupt)
      | some parsed =>
        if parsed.version ≠ 1 then (∅, .corrupt)
        else (parsed.docs.foldl self.loadDoc ∅, .loaded)

def withPersistence (config : EmbedConfig) (persistence : EmbedPersistenceConfig) (disk : Disk) :
    Except EmbedError (EmbedPipeline F) :=
  if config.dim = 0 then .error (.invalidDimension 0)
  else
    match config.mode with
    | .provider name => .error (.providerUnavailable
        (name ++ " (network providers must be executed in TypeScript boundary)".toList))
    | .localDeterministic =>
      let pipeline : EmbedPipeline F :=
        { config, embed := deterministicEmbed host.toSingleFloats, docs := ∅, persistence := none }
      if persistence.enabled then
        let loaded := pipeline.loadDocsFromDisk host disk persistence.indexPath
        .ok { pipeline with
          docs := loaded.1
          persistence := some { indexPath := persistence.indexPath, lastLoad := loaded.2 } }
      else .ok pipeline

/-- The index that is written. -/
def diskIndex : EmbedDiskIndexV1 F where
  version := 1
  dim := self.config.dim
  docs := (host.iterate (self.docs.entries.map Sigma.snd)).map fun doc =>
    ⟨doc.id, doc.text, some doc.vector⟩

/-- The files after `persist_best_effort`, when directories are made and files written. -/
def persistBestEffort (disk : Disk) : Disk :=
  match self.persistence with
  | none => disk
  | some state =>
    if hasParent state.indexPath then
      let serialized := (self.diskIndex host).toStringPretty host.toSingleFloats
      (disk.write (tmpPath state.indexPath) serialized).rename (tmpPath state.indexPath)
        state.indexPath
    else disk

/-- A call that may fail, and the pipeline and the files it leaves. -/
def upsert (disk : Disk) (id text : Text) : Except EmbedError ℕ × EmbedPipeline F × Disk :=
  match self.validateText text with
  | .error e => (.error e, self, disk)
  | .ok _ =>
    match self.embed text self.config.dim.toNat with
    | .error e => (.error e, self, disk)
    | .ok vector =>
      let stored := { self with docs := self.docs.insert id ⟨id, text, vector⟩ }
      (.ok stored.docs.keys.length, stored, stored.persistBestEffort host disk)

def clear (disk : Disk) : EmbedPipeline F × Disk :=
  let cleared := { self with docs := ∅ }
  (cleared, cleared.persistBestEffort host disk)

end EmbedPipeline

end MemphisEmbed
