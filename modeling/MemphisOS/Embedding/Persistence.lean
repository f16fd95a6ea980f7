import MemphisOS.Embedding.Pipeline

/-!
# The index file

A pipeline writes its documents after every change, and a fresh pipeline reads them. What is read
is what was written, except for the documents whose ids are blank: these are stored, written, and
then passed over.
-/

namespace MemphisEmbed

open Ecma Serde

variable {F : Type}

/-- Items that are all read are read one by one. -/
theorem forall₂_of_mapM {α β : Type} {f : α → Option β} {l : List α} {l' : List β}
    (h : l.mapM f = some l') : List.Forall₂ (fun a b => f a = some b) l l' := by
  induction l generalizing l' with
  | nil =>
    rw [List.mapM_nil] at h
    cases h
    exact .nil
  | cons a l ih =>
    rw [List.mapM_cons, Option.bind_eq_bind, Option.bind_eq_some_iff] at h
    obtain ⟨b, hb, h⟩ := h
    obtain ⟨bs, hbs, h⟩ := Option.bind_eq_some_iff.mp h
    cases h
    exact .cons hb (ih hbs)

/-- Items that are read as they are. -/
theorem mapM_eq_some_self {α : Type} {f : α → Option α} {l : List α} (h : ∀ a ∈ l, f a = some a) :
    l.mapM f = some l := by
  have hmap := mapM_eq_some_map (e := id) (g := id) h
  rwa [List.map_id] at hmap

/-! ## Vectors -/

section Vectors

variable {floats : SingleFloats F} {text : Text} {dim : ℕ} {vector : List F}

theorem length_lanes (floats : SingleFloats F) (text : Text) (dim : ℕ) :
    (lanes floats text dim).length = dim := by
  have hfold : ∀ (entries : List (UInt8 × ℕ)) (out : List F),
      (entries.foldl (fun out entry => out.modify (entry.2 % dim) fun lane =>
        floats.add lane (floats.ofU32 (signal entry.2 entry.1))) out).length = out.length := by
    intro entries
    induction entries with
    | nil => exact fun _ => rfl
    | cons entry entries ih => exact fun out => (ih _).trans (List.length_modify ..)
  rw [lanes, hfold, List.length_replicate]

theorem length_deterministicEmbed (h : deterministicEmbed floats text dim = .ok vector) :
    vector.length = dim := by
  rw [deterministicEmbed] at h
  split at h
  · cases h
  · split at h
    · cases h
    · have hlanes := length_lanes floats text dim
      rw [← Except.ok.inj h]
      split
      · rw [List.length_map, hlanes]
      · exact hlanes

theorem deterministicEmbed_ok (floats : SingleFloats F) (htext : MemphisCore.trim text ≠ [])
    (hdim : dim ≠ 0) : ∃ vector, deterministicEmbed floats text dim = .ok vector := by
  rw [deterministicEmbed, if_neg htext, if_neg hdim]
  exact ⟨_, rfl⟩

end Vectors

/-! ## Reading what was written -/

section Index

variable (floats : SingleFloats F)

/-- A number as it is read from its literal. -/
def rereadF32 (x : F) : Option F := (floats.write x).bind floats.read

/-- A document as it is read from the index. -/
def reread (doc : EmbeddedDocument F) : Option (EmbeddedDocument F) :=
  (doc.vector.mapM (rereadF32 floats)).map fun vector => { doc with vector }

def diskDoc (doc : EmbeddedDocument F) : EmbedDiskDocV1 F := ⟨doc.id, doc.text, some doc.vector⟩

theorem readF32_serializeF32 (x : F) :
    readF32 floats (serializeF32 floats x) = rereadF32 floats x := by
  rw [serializeF32, rereadF32]
  cases floats.write x <;> rfl

theorem readDiskDoc_serialize (doc : EmbeddedDocument F) :
    readDiskDoc floats ((diskDoc doc).serialize floats) = (reread floats doc).map diskDoc := by
  have hvector : Serde.sequence (readF32 floats) (.arr (doc.vector.map (serializeF32 floats))) =
      doc.vector.mapM (rereadF32 floats) := by
    rw [Serde.sequence, List.mapM_map]
    exact congrArg (List.mapM · doc.vector) (funext (readF32_serializeF32 floats))
  rw [readDiskDoc, EmbedDiskDocV1.serialize, fields_obj 1 rfl (by decide), reread]
  simp only [diskDoc, Option.elim_some, List.map_cons, List.map_nil, optionField, option,
    Option.bind_some, Option.bind_eq_bind, Option.pure_def, string_str, decodeString_ofText,
    hvector]
  cases doc.vector.mapM (rereadF32 floats) <;> rfl

/-- The documents of an index are read one by one. -/
theorem readDocs_serialize (docs : List (EmbeddedDocument F)) :
    Serde.sequence (readDiskDoc floats)
        (.arr ((docs.map diskDoc).map (·.serialize floats))) =
      (docs.mapM (reread floats)).map (·.map diskDoc) := by
  rw [Serde.sequence, List.map_map]
  induction docs with
  | nil => rfl
  | cons doc docs ih =>
    rw [List.map_cons, List.mapM_cons, ih, Function.comp_apply, readDiskDoc_serialize,
      List.mapM_cons]
    cases reread floats doc with
    | none => rfl
    | some read => cases docs.mapM (reread floats) <;> rfl

theorem readDiskIndex_serialize (dim : UInt64) (docs : List (EmbeddedDocument F)) :
    readDiskIndex floats (EmbedDiskIndexV1.serialize floats ⟨1, dim, docs.map diskDoc⟩) =
      (docs.mapM (reread floats)).map fun docs => ⟨1, dim, docs.map diskDoc⟩ := by
  have hdocs := readDocs_serialize floats docs
  have hversion := u32_digits 1
  rw [readDiskIndex, EmbedDiskIndexV1.serialize, fields_obj 0 rfl (by decide)]
  simp only [List.map_cons, List.map_nil, Option.bind_some, Option.bind_eq_bind, hdocs, hversion,
    u64_digits, Option.pure_def]
  cases docs.mapM (reread floats) <;> rfl

/-- All literals of an index are literals. -/
theorem allNumbers_serialize (index : EmbedDiskIndexV1 F) :
    (index.serialize floats).AllNumbers (Json.WritesBack id readToken) := by
  have hdigits : ∀ n : ℕ, Json.WritesBack id readToken (digits n) := by
    intro n
    refine writesBack_token (digits_ne_nil n) (fun _ => isNumberChar_digits) ?_
    rw [show readLiteral (digits n) = some (false, (n : ℚ)) from readLiteral_integer false n]
    rfl
  have hfloat : ∀ x, (serializeF32 floats x).AllNumbers (Json.WritesBack id readToken) := by
    intro x
    rw [serializeF32]
    cases htoken : floats.write x with
    | none => trivial
    | some token => exact floats.isToken x token htoken
  have hdoc : ∀ doc : EmbedDiskDocV1 F,
      (doc.serialize floats).AllNumbers (Json.WritesBack id readToken) := by
    intro doc
    rw [EmbedDiskDocV1.serialize, Json.allNumbers_obj]
    simp only [List.forall_mem_cons, List.not_mem_nil, false_imp_iff, implies_true, and_true]
    refine ⟨trivial, trivial, ?_⟩
    cases doc.vector with
    | none => trivial
    | some vector =>
      rw [Option.elim_some, Json.allNumbers_arr, List.forall_mem_map]
      exact fun x _ => hfloat x
  rw [EmbedDiskIndexV1.serialize, Json.allNumbers_obj]
  simp only [List.forall_mem_cons, List.not_mem_nil, false_imp_iff, implies_true, and_true]
  refine ⟨hdigits _, hdigits _, ?_⟩
  rw [Json.allNumbers_arr, List.forall_mem_map]
  exact fun doc _ => hdoc doc

theorem parse_toStringPretty (index : EmbedDiskIndexV1 F) :
    Serde.parse (index.toStringPretty floats) = some (index.serialize floats) :=
  Json.parse_write (by simp [Json.Blank, Json.isSpace]) (allNumbers_serialize floats index)

theorem toStringPretty_ne_blank (index : EmbedDiskIndexV1 F) :
    MemphisCore.trim (index.toStringPretty floats) ≠ [] := by
  obtain ⟨rest, hrest⟩ : ∃ rest, index.toStringPretty floats = '{' :: rest := by
    rw [EmbedDiskIndexV1.toStringPretty, EmbedDiskIndexV1.serialize, Json.write_obj]
    exact ⟨_, rfl⟩
  rw [hrest]
  exact MemphisCore.trim_cons_ne_nil (by decide) rest

end Index

/-! ## Loading -/

/-- A document is kept under its id, unless the id is blank. -/
def keep (docs : Docs F) (doc : EmbeddedDocument F) : Docs F :=
  if MemphisCore.trim doc.id = [] then docs else docs.insert doc.id doc

theorem lookup_keep (docs : Docs F) (doc : EmbeddedDocument F) (id : Text) :
    (keep docs doc).lookup id =
      if doc.id = id ∧ MemphisCore.trim id ≠ [] then some doc else docs.lookup id := by
  rw [keep]
  by_cases hid : doc.id = id
  · subst hid
    by_cases hblank : MemphisCore.trim doc.id = []
    · rw [if_pos hblank, if_neg (fun h => h.2 hblank)]
    · rw [if_neg hblank, if_pos ⟨rfl, hblank⟩, AList.lookup_insert]
  · have hnot : ¬ (doc.id = id ∧ MemphisCore.trim id ≠ []) := fun h => hid h.1
    rw [if_neg hnot]
    split
    · rfl
    · rw [AList.lookup_insert_ne (Ne.symm hid)]

/-- Of documents with different ids, those with ids that are not blank are kept. -/
theorem lookup_foldl_keep {docs : List (EmbeddedDocument F)}
    (hnodup : (docs.map EmbeddedDocument.id).Nodup) (id : Text) (doc : EmbeddedDocument F) :
    (docs.foldl keep ∅).lookup id = some doc ↔
      doc ∈ docs ∧ doc.id = id ∧ MemphisCore.trim id ≠ [] := by
  induction docs using List.reverseRecOn with
  | nil => simp
  | append_singleton docs last ih =>
    rw [List.map_append, List.nodup_append] at hnodup
    obtain ⟨hnodup, -, hdisjoint⟩ := hnodup
    rw [List.foldl_append, List.foldl_cons, List.foldl_nil, lookup_keep, List.mem_append,
      List.mem_singleton]
    split
    · next h =>
      obtain ⟨rfl, hblank⟩ := h
      constructor
      · intro heq
        cases heq
        exact ⟨Or.inr rfl, rfl, hblank⟩
      · rintro ⟨hmem | rfl, hid, -⟩
        · exact absurd hid (hdisjoint _ (List.mem_map_of_mem hmem) _ (List.mem_singleton.mpr rfl))
        · rfl
    · next h =>
      rw [ih hnodup]
      constructor
      · exact fun ⟨hmem, hid, hblank⟩ => ⟨Or.inl hmem, hid, hblank⟩
      · rintro ⟨hmem | rfl, hid, hblank⟩
        · exact ⟨hmem, hid, hblank⟩
        · exact absurd ⟨hid, hblank⟩ h

namespace EmbedPipeline

variable {host : EmbedHost F} {self : EmbedPipeline F} {disk : Disk}

/-- The documents are kept under their ids, have texts that are accepted, and vectors of the
configured dimension. -/
def WellKept (self : EmbedPipeline F) (docs : Docs F) : Prop :=
  ∀ id doc, docs.lookup id = some doc → doc.id = id ∧ self.validateText doc.text = .ok () ∧
    doc.vector.length = self.config.dim.toNat

theorem trim_of_validateText {text : Text} (h : self.validateText text = .ok ()) :
    MemphisCore.trim text ≠ [] := by
  intro hblank
  rw [validateText, if_pos hblank] at h
  cases h

theorem WellKept.insert {docs : Docs F} (h : self.WellKept docs) {id text : Text}
    {vector : List F} (htext : self.validateText text = .ok ())
    (hvector : vector.length = self.config.dim.toNat) :
    self.WellKept (docs.insert id ⟨id, text, vector⟩) := by
  intro id' doc hdoc
  by_cases hid : id' = id
  · subst hid
    rw [AList.lookup_insert] at hdoc
    cases hdoc
    exact ⟨rfl, htext, hvector⟩
  · rw [AList.lookup_insert_ne hid] at hdoc
    exact h id' doc hdoc

/-- What a local pipeline embeds has the configured dimension. -/
structure IsLocal (host : EmbedHost F) (pipeline : EmbedPipeline F) : Prop where
  dim : pipeline.config.dim ≠ 0
  embed : pipeline.embed = deterministicEmbed host.toSingleFloats

theorem length_loadedVector (hlocal : IsLocal host self) {doc : EmbedDiskDocV1 F}
    {vector : List F} (h : self.loadedVector doc = .ok vector) :
    vector.length = self.config.dim.toNat := by
  rw [loadedVector] at h
  cases hstored : doc.vector with
  | none =>
    rw [hstored] at h
    exact length_deterministicEmbed (hlocal.embed ▸ h)
  | some existing =>
    rw [hstored] at h
    dsimp only at h
    split at h
    · next hlength => exact Except.ok.inj h ▸ hlength
    · exact length_deterministicEmbed (hlocal.embed ▸ h)

theorem WellKept.loadDoc (hlocal : IsLocal host self) {docs : Docs F} (h : self.WellKept docs)
    (doc : EmbedDiskDocV1 F) : self.WellKept (self.loadDoc docs doc) := by
  rw [EmbedPipeline.loadDoc]
  split
  · exact h
  · cases htext : self.validateText doc.text with
    | error e => exact h
    | ok u =>
      cases hvector : self.loadedVector doc with
      | error e => exact h
      | ok vector => exact h.insert htext (length_loadedVector hlocal hvector)

/-- A document with a text that is accepted and a vector of the right dimension is kept. -/
theorem loadDoc_diskDoc {docs : Docs F} {doc : EmbeddedDocument F}
    (htext : self.validateText doc.text = .ok ())
    (hvector : doc.vector.length = self.config.dim.toNat) :
    self.loadDoc docs (diskDoc doc) = keep docs doc := by
  have hstored : self.validateText (diskDoc doc).text = .ok () := htext
  have hloaded : self.loadedVector (diskDoc doc) = .ok doc.vector := if_pos hvector
  rw [loadDoc, keep, hstored, hloaded]
  by_cases hblank : MemphisCore.trim doc.id = []
  · rw [if_pos hblank]
    exact if_pos (Or.inl hblank)
  · rw [if_neg hblank]
    exact if_neg (not_or.mpr ⟨hblank, trim_of_validateText htext⟩)

theorem wellKept_empty (self : EmbedPipeline F) : self.WellKept ∅ := by
  intro id doc hdoc
  rw [AList.lookup_empty] at hdoc
  cases hdoc

theorem wellKept_loadDocsFromDisk (self : EmbedPipeline F) (hlocal : IsLocal host self)
    (disk : Disk) (path : Text) :
    self.WellKept (self.loadDocsFromDisk host disk path).1 := by
  have hfold : ∀ (parsed : List (EmbedDiskDocV1 F)) (docs : Docs F), self.WellKept docs →
      self.WellKept (parsed.foldl self.loadDoc docs) := by
    intro parsed
    induction parsed with
    | nil => exact fun _ h => h
    | cons doc parsed ih => exact fun docs h => ih _ (h.loadDoc hlocal doc)
  rw [loadDocsFromDisk]
  cases disk path with
  | none => exact wellKept_empty self
  | some raw =>
    dsimp only
    split
    · exact wellKept_empty self
    · cases (Serde.parse raw).bind (readDiskIndex host.toSingleFloats) with
      | none => exact wellKept_empty self
      | some parsed =>
        dsimp only
        split
        · exact wellKept_empty self
        · exact hfold parsed.docs ∅ (wellKept_empty self)

/-! ## Loading what was written -/

/-- The documents in the order in which they are written. -/
def values (host : EmbedHost F) (self : EmbedPipeline F) : List (EmbeddedDocument F) :=
  host.iterate (self.docs.entries.map Sigma.snd)

theorem mem_values (h : self.WellKept self.docs) {doc : EmbeddedDocument F} :
    doc ∈ self.values host ↔ self.docs.lookup doc.id = some doc := by
  rw [values, (host.iterate_perm _).mem_iff, List.mem_map]
  constructor
  · rintro ⟨entry, hmem, rfl⟩
    have hlookup := AList.mem_lookup_iff.mpr hmem
    rw [(h _ _ hlookup).1]
    exact hlookup
  · exact fun hlookup => ⟨⟨doc.id, doc⟩, AList.mem_lookup_iff.mp hlookup, rfl⟩

theorem nodup_values (h : self.WellKept self.docs) :
    ((self.values host).map EmbeddedDocument.id).Nodup := by
  rw [values, ((host.iterate_perm _).map EmbeddedDocument.id).nodup_iff, List.map_map]
  have hkeys : self.docs.entries.map (EmbeddedDocument.id ∘ Sigma.snd) = self.docs.keys :=
    List.map_congr_left fun entry hmem => (h _ _ (AList.mem_lookup_iff.mpr hmem)).1
  rw [hkeys]
  exact self.docs.keys_nodup

/-- What a pipeline finds in an index is read document by document, or not at all. -/
theorem loadDocsFromDisk_written {path : Text} {docs : List (EmbeddedDocument F)} {dim : UInt64}
    (hfile : disk path =
      some (EmbedDiskIndexV1.toStringPretty host.toSingleFloats ⟨1, dim, docs.map diskDoc⟩)) :
    (self.loadDocsFromDisk host disk path).1 =
      ((docs.mapM (reread host.toSingleFloats)).map
        fun docs => (docs.map diskDoc).foldl self.loadDoc ∅).getD ∅ := by
  rw [loadDocsFromDisk, hfile]
  dsimp only
  rw [if_neg (toStringPretty_ne_blank _ _), parse_toStringPretty, Option.bind_some,
    readDiskIndex_serialize]
  cases docs.mapM (reread host.toSingleFloats) <;> rfl

/-- Reading a document keeps its id, its text and the length of its vector. -/
theorem reread_spec {floats : SingleFloats F} {doc doc' : EmbeddedDocument F}
    (h : reread floats doc = some doc') :
    doc'.id = doc.id ∧ doc'.text = doc.text ∧ doc'.vector.length = doc.vector.length ∧
      doc.vector.mapM (rereadF32 floats) = some doc'.vector := by
  obtain ⟨vector, hvector, rfl⟩ := Option.map_eq_some_iff.mp h
  exact ⟨rfl, rfl, (forall₂_of_mapM hvector).length_eq.symm, hvector⟩

/-- The documents that are loaded are those that were read, with ids that are not blank. -/
theorem lookup_written (h : self.WellKept self.docs) {docs : List (EmbeddedDocument F)}
    (hread : (self.values host).mapM (reread host.toSingleFloats) = some docs) (id : Text)
    (doc : EmbeddedDocument F) :
    ((docs.map diskDoc).foldl self.loadDoc ∅).lookup id = some doc ↔
      doc ∈ docs ∧ doc.id = id ∧ MemphisCore.trim id ≠ [] := by
  have hall := forall₂_of_mapM hread
  have hids : docs.map EmbeddedDocument.id = (self.values host).map EmbeddedDocument.id := by
    rw [eq_comm, ← List.forall₂_eq_eq_eq, List.forall₂_map_left_iff, List.forall₂_map_right_iff]
    exact hall.imp fun _ _ hdoc => (reread_spec hdoc).1.symm
  have hfold : (docs.map diskDoc).foldl self.loadDoc ∅ = docs.foldl keep ∅ := by
    rw [List.foldl_map]
    refine List.foldl_ext _ _ _ fun kept doc hdoc => ?_
    obtain ⟨written, hwritten, hdoc⟩ := exists_of_mem_mapM hread hdoc
    obtain ⟨hid, htext, hlength, -⟩ := reread_spec hdoc
    obtain ⟨-, hvalid, hvector⟩ := h _ _ ((mem_values h).mp hwritten)
    exact loadDoc_diskDoc (htext ▸ hvalid) (hlength.trans hvector)
  rw [hfold, lookup_foldl_keep (hids ▸ nodup_values h)]

/-- The document comes back: its id is not blank, and the numbers of its vector are read back
from their literals. -/
def Survives (floats : SingleFloats F) (doc : EmbeddedDocument F) : Prop :=
  MemphisCore.trim doc.id ≠ [] ∧ ∀ x ∈ doc.vector, rereadF32 floats x = some x

theorem reread_of_survives {floats : SingleFloats F} {doc : EmbeddedDocument F}
    (h : Survives floats doc) : reread floats doc = some doc := by
  rw [reread, mapM_eq_some_self h.2]
  rfl

theorem survives_of_reread {floats : SingleFloats F} {doc : EmbeddedDocument F}
    (hid : MemphisCore.trim doc.id ≠ []) (h : reread floats doc = some doc) :
    Survives floats doc := by
  have hall := forall₂_of_mapM (reread_spec h).2.2.2
  rw [List.forall₂_same] at hall
  exact ⟨hid, hall⟩

/-- **Reloading.** The documents that are loaded from the index of a pipeline are its documents
exactly when all of them come back. -/
theorem reloaded_iff (h : self.WellKept self.docs) {path : Text}
    (hfile : disk path = some ((self.diskIndex host).toStringPretty host.toSingleFloats)) :
    (∀ id, (self.loadDocsFromDisk host disk path).1.lookup id = self.docs.lookup id) ↔
      ∀ id doc, self.docs.lookup id = some doc → Survives host.toSingleFloats doc := by
  have hloaded : (self.loadDocsFromDisk host disk path).1 =
      (((self.values host).mapM (reread host.toSingleFloats)).map
        fun docs => (docs.map diskDoc).foldl self.loadDoc ∅).getD ∅ :=
    loadDocsFromDisk_written hfile
  rw [hloaded]
  constructor
  · intro heq id doc hdoc
    have hid := (h id doc hdoc).1
    subst hid
    have hkept := (heq doc.id).trans hdoc
    cases hread : (self.values host).mapM (reread host.toSingleFloats) with
    | none =>
      rw [hread] at hkept
      exact absurd hkept (by simp [AList.lookup_empty])
    | some docs =>
      rw [hread] at hkept
      obtain ⟨hmem, -, hblank⟩ := (lookup_written h hread doc.id doc).mp hkept
      obtain ⟨written, hwritten, hdoc'⟩ := exists_of_mem_mapM hread hmem
      have hsame : written = doc := by
        have hlookup := (mem_values h).mp hwritten
        rw [← (reread_spec hdoc').1, hdoc] at hlookup
        exact (Option.some.inj hlookup).symm
      exact survives_of_reread hblank (hsame ▸ hdoc')
  · intro hall id
    have hread : (self.values host).mapM (reread host.toSingleFloats) =
        some (self.values host) :=
      mapM_eq_some_self fun doc hdoc => reread_of_survives (hall _ _ ((mem_values h).mp hdoc))
    rw [hread]
    refine Option.ext fun doc => (lookup_written h hread id doc).trans ?_
    rw [mem_values h]
    constructor
    · rintro ⟨hdoc, rfl, -⟩
      exact hdoc
    · intro hdoc
      have hid := (h id doc hdoc).1
      subst hid
      exact ⟨hdoc, rfl, (hall _ _ hdoc).1⟩

end EmbedPipeline

/-! ## Runs -/

inductive EmbedOp where
  | upsert (id text : Text)
  | clear

namespace EmbedPipeline

variable {host : EmbedHost F} {config : EmbedConfig} {path : Text} {start self : EmbedPipeline F}
  {disk : Disk}

/-- Whether a pipeline accepts a call. -/
def accepts (self : EmbedPipeline F) : EmbedOp → Bool
  | .upsert _ text => (self.validateText text).isOk
  | .clear => true

def next (host : EmbedHost F) (s : EmbedPipeline F × Disk) : EmbedOp → EmbedPipeline F × Disk
  | .upsert id text => (s.1.upsert host s.2 id text).2
  | .clear => s.1.clear host s.2

def after (host : EmbedHost F) (s : EmbedPipeline F × Disk) (ops : List EmbedOp) :
    EmbedPipeline F × Disk :=
  ops.foldl (next host) s

/-- A pipeline that was opened with an index, and its documents since. -/
structure Opened (host : EmbedHost F) (config : EmbedConfig) (path : Text)
    (pipeline : EmbedPipeline F) : Prop where
  config_eq : pipeline.config = config
  isLocal : IsLocal host pipeline
  persistence : ∃ lastLoad, pipeline.persistence = some ⟨path, lastLoad⟩
  kept : pipeline.WellKept pipeline.docs

/-- What is loaded depends on the configuration only. -/
theorem loadDocsFromDisk_congr {self other : EmbedPipeline F} (hconfig : self.config = other.config)
    (hembed : self.embed = other.embed) (disk : Disk) (path : Text) :
    self.loadDocsFromDisk host disk path = other.loadDocsFromDisk host disk path := by
  cases self
  cases other
  subst hconfig hembed
  rfl

/-- A pipeline of a configuration, without documents. -/
def blank (host : EmbedHost F) (config : EmbedConfig) : EmbedPipeline F :=
  { config, embed := deterministicEmbed host.toSingleFloats, docs := ∅, persistence := none }

/-- What is opened with an index. -/
def opened (host : EmbedHost F) (config : EmbedConfig) (path : Text) (disk : Disk) :
    EmbedPipeline F :=
  let loaded := (blank host config).loadDocsFromDisk host disk path
  { blank host config with docs := loaded.1, persistence := some ⟨path, loaded.2⟩ }

/-- A configuration that opens one index opens every index. -/
theorem withPersistence_eq (hopen : withPersistence host config ⟨true, path⟩ disk = .ok start)
    (disk' : Disk) :
    config.dim ≠ 0 ∧
      withPersistence host config ⟨true, path⟩ disk' = .ok (opened host config path disk') := by
  rw [withPersistence] at hopen ⊢
  split at hopen
  · cases hopen
  · next hdim =>
    rw [if_neg hdim]
    cases hmode : config.mode with
    | provider name =>
      rw [hmode] at hopen
      cases hopen
    | localDeterministic => exact ⟨hdim, rfl⟩

theorem opened_spec (hdim : config.dim ≠ 0) (disk : Disk) :
    (opened host config path disk).Opened host config path where
  config_eq := rfl
  isLocal := ⟨hdim, rfl⟩
  persistence := ⟨_, rfl⟩
  kept := (blank host config).wellKept_loadDocsFromDisk ⟨hdim, rfl⟩ disk path

/-- The files hold the index of the pipeline. -/
def Written (host : EmbedHost F) (path : Text) (s : EmbedPipeline F × Disk) : Prop :=
  s.2 path = some ((s.1.diskIndex host).toStringPretty host.toSingleFloats)

theorem written_persist (h : self.Opened host config path) (hparent : hasParent path = true)
    (disk : Disk) : Written host path (self, self.persistBestEffort host disk) := by
  obtain ⟨lastLoad, hstate⟩ := h.persistence
  rw [Written, persistBestEffort, hstate]
  dsimp only
  rw [if_pos hparent, Disk.rename, if_pos rfl, Disk.write, if_pos rfl]

/-- A pipeline with one more document. -/
def stored (self : EmbedPipeline F) (id text : Text) (vector : List F) : EmbedPipeline F :=
  { self with docs := self.docs.insert id ⟨id, text, vector⟩ }

theorem next_upsert (h : self.Opened host config path) {text : Text}
    (htext : self.validateText text = .ok ()) (id : Text) :
    ∃ vector, (self.stored id text vector).Opened host config path ∧
      next host (self, disk) (.upsert id text) =
        (self.stored id text vector, (self.stored id text vector).persistBestEffort host disk) := by
  have hdim : self.config.dim.toNat ≠ 0 := fun hzero =>
    h.isLocal.dim (UInt64.toNat_inj.mp hzero)
  obtain ⟨vector, hvector⟩ :=
    deterministicEmbed_ok host.toSingleFloats (trim_of_validateText htext) hdim
  have hembed : self.embed text self.config.dim.toNat = .ok vector := by
    rw [h.isLocal.embed, hvector]
  refine ⟨vector, ⟨h.config_eq, ⟨h.isLocal.dim, h.isLocal.embed⟩, h.persistence,
    h.kept.insert htext (length_deterministicEmbed hvector)⟩, ?_⟩
  rw [next, upsert, htext]
  dsimp only
  rw [hembed]
  rfl

/-- A call that is accepted writes the index. -/
theorem next_accepted (h : self.Opened host config path) (hparent : hasParent path = true)
    {op : EmbedOp} (hop : self.accepts op = true) :
    (next host (self, disk) op).1.Opened host config path ∧
      Written host path (next host (self, disk) op) := by
  cases op with
  | clear =>
    have hcleared : Opened host config path { self with docs := ∅ } :=
      ⟨h.config_eq, ⟨h.isLocal.dim, h.isLocal.embed⟩, h.persistence, wellKept_empty self⟩
    exact ⟨hcleared, written_persist hcleared hparent disk⟩
  | upsert id text =>
    rw [accepts] at hop
    cases htext : self.validateText text with
    | error e =>
      rw [htext] at hop
      cases hop
    | ok u =>
      obtain ⟨vector, hstored, hnext⟩ := next_upsert h htext id
      rw [hnext]
      exact ⟨hstored, written_persist hstored hparent disk⟩

/-- A call that is not accepted changes nothing. -/
theorem next_rejected {op : EmbedOp} (hop : self.accepts op = false) :
    next host (self, disk) op = (self, disk) := by
  cases op with
  | clear => cases hop
  | upsert id text =>
    rw [accepts] at hop
    cases htext : self.validateText text with
    | error e => rw [next, upsert, htext]
    | ok u =>
      rw [htext] at hop
      cases hop

theorem accepts_congr {self other : EmbedPipeline F} (hconfig : self.config = other.config)
    (op : EmbedOp) : self.accepts op = other.accepts op := by
  cases op with
  | clear => rfl
  | upsert id text => rw [accepts, accepts, validateText, validateText, hconfig]

/-- **Runs.** After any calls the index is as it was before the first that is accepted, or it is
the index of the documents. -/
theorem after_spec (h : start.Opened host config path) (hparent : hasParent path = true)
    (disk : Disk) (ops : List EmbedOp) :
    (after host (start, disk) ops).1.Opened host config path ∧
      ((∀ op ∈ ops, start.accepts op = false) ∧ after host (start, disk) ops = (start, disk) ∨
        (∃ op ∈ ops, start.accepts op = true) ∧
          Written host path (after host (start, disk) ops)) := by
  induction ops using List.reverseRecOn with
  | nil => exact ⟨h, Or.inl ⟨fun _ hop => absurd hop List.not_mem_nil, rfl⟩⟩
  | append_singleton ops op ih =>
    obtain ⟨hopened, hbefore⟩ := ih
    have hstep : after host (start, disk) (ops ++ [op]) =
        next host (after host (start, disk) ops) op := List.foldl_concat ..
    have hsame : (after host (start, disk) ops).1.accepts op = start.accepts op :=
      accepts_congr (hopened.config_eq.trans h.config_eq.symm) op
    rw [hstep]
    cases hop : start.accepts op with
    | true =>
      obtain ⟨hnext, hwritten⟩ :=
        @next_accepted _ _ _ _ _ (after host (start, disk) ops).2 hopened hparent op
          (hsame.trans hop)
      exact ⟨hnext, Or.inr ⟨⟨op, by simp, hop⟩, hwritten⟩⟩
    | false =>
      have hunchanged : next host (after host (start, disk) ops) op =
          after host (start, disk) ops := next_rejected (hsame.trans hop)
      rw [hunchanged]
      refine ⟨hopened, ?_⟩
      rcases hbefore with ⟨hrejected, hsame⟩ | ⟨⟨accepted, hmem, haccepted⟩, hwritten⟩
      · refine Or.inl ⟨fun op' hop' => ?_, hsame⟩
        rcases List.mem_append.mp hop' with hop' | hop'
        · exact hrejected op' hop'
        · exact List.mem_singleton.mp hop' ▸ hop
      · exact Or.inr ⟨⟨accepted, List.mem_append_left _ hmem, haccepted⟩, hwritten⟩

/-- What is found in the files, while they hold the index of a pipeline. -/
theorem opened_written {s : EmbedPipeline F × Disk} (h : s.1.Opened host config path)
    (hwritten : Written host path s) :
    (∀ id, (opened host config path s.2).docs.lookup id = s.1.docs.lookup id) ↔
      ∀ id doc, s.1.docs.lookup id = some doc → Survives host.toSingleFloats doc := by
  have hdocs : (opened host config path s.2).docs = (s.1.loadDocsFromDisk host s.2 path).1 :=
    congrArg Prod.fst (loadDocsFromDisk_congr h.config_eq.symm h.isLocal.embed.symm _ _)
  rw [hdocs]
  exact reloaded_iff h.kept hwritten

/-- **The index.** After any calls to a pipeline that was opened with an index, a fresh pipeline
of the same configuration finds the same documents exactly when no call was accepted, or when
every document comes back: its id is not blank, and the numbers of its vector are read back from
their literals. -/
theorem reopened_iff (hparent : hasParent path = true)
    (hopen : withPersistence host config ⟨true, path⟩ disk = .ok start) (ops : List EmbedOp) :
    ∃ fresh, withPersistence host config ⟨true, path⟩ (after host (start, disk) ops).2 =
        .ok fresh ∧
      ((∀ id, fresh.docs.lookup id = (after host (start, disk) ops).1.docs.lookup id) ↔
        (∀ op ∈ ops, start.accepts op = false) ∨
          ∀ id doc, (after host (start, disk) ops).1.docs.lookup id = some doc →
            Survives host.toSingleFloats doc) := by
  obtain ⟨hdim, hstart⟩ := withPersistence_eq hopen disk
  have hsame : start = opened host config path disk := Except.ok.inj (hopen.symm.trans hstart)
  have hopened : start.Opened host config path := hsame ▸ opened_spec hdim disk
  obtain ⟨hafter, hruns⟩ := after_spec hopened hparent disk ops
  refine ⟨_, (withPersistence_eq hopen _).2, ?_⟩
  rcases hruns with ⟨hrejected, hunchanged⟩ | ⟨⟨op, hmem, hop⟩, hwritten⟩
  · refine iff_of_true (fun id => ?_) (Or.inl hrejected)
    rw [hunchanged, hsame]
  · rw [opened_written hafter hwritten]
    constructor
    · exact Or.inr
    · rintro (hrejected | hall)
      · rw [hrejected op hmem] at hop
        cases hop
      · exact hall

end EmbedPipeline

/-! ## A document with a blank id -/

/-- Natural numbers for those of the samples: the only component of a vector is one. -/
def sampleFloats : SingleFloats ℕ where
  zero := 0
  ofU32 := UInt32.toNat
  add := (· + ·)
  mul := (· * ·)
  div := (· / ·)
  sqrt := Nat.sqrt
  isPositive n := 0 < n
  write n := if n = 1 then some "1.0".toList else none
  read token := if token = "1.0".toList then some 1 else none
  isToken := by
    intro x token h
    split at h
    · cases h
      exact writesBack_token (by decide) (List.all_eq_true.mp (by decide)) (by decide)
    · cases h

def sampleHost : EmbedHost ℕ where
  toSingleFloats := sampleFloats
  iterate := id
  iterate_perm := List.Perm.refl

def sampleConfig : EmbedConfig := ⟨.localDeterministic, 1, 4096⟩

def samplePath : Text := "index.json".toList

def samplePipeline : EmbedPipeline ℕ :=
  EmbedPipeline.opened sampleHost sampleConfig samplePath fun _ => none

theorem samplePipeline_opened (disk : Disk) :
    (EmbedPipeline.opened sampleHost sampleConfig samplePath disk).Opened sampleHost sampleConfig
      samplePath :=
  EmbedPipeline.opened_spec (by decide) disk

/-- A document is found again. -/
theorem reopened_iff_sample :
    ∃ fresh, EmbedPipeline.withPersistence sampleHost sampleConfig ⟨true, samplePath⟩
        (EmbedPipeline.after sampleHost (samplePipeline, fun _ => none)
          [.upsert "doc".toList "a".toList]).2 = .ok fresh ∧
      ((∀ id, fresh.docs.lookup id = (EmbedPipeline.after sampleHost
          (samplePipeline, fun _ => none) [.upsert "doc".toList "a".toList]).1.docs.lookup id) ↔
        (∀ op ∈ [EmbedOp.upsert "doc".toList "a".toList], samplePipeline.accepts op = false) ∨
          ∀ id doc, (EmbedPipeline.after sampleHost (samplePipeline, fun _ => none)
              [.upsert "doc".toList "a".toList]).1.docs.lookup id = some doc →
            EmbedPipeline.Survives sampleFloats doc) :=
  EmbedPipeline.reopened_iff (by decide) rfl _

/-- A document with a blank id is stored and written, and not found again. -/
theorem blank_id_lost :
    ¬ ∀ fresh, EmbedPipeline.withPersistence sampleHost sampleConfig ⟨true, samplePath⟩
        (EmbedPipeline.after sampleHost (samplePipeline, fun _ => none)
          [.upsert " ".toList "a".toList]).2 = .ok fresh →
      ∀ id, fresh.docs.lookup id = (EmbedPipeline.after sampleHost
        (samplePipeline, fun _ => none) [.upsert " ".toList "a".toList]).1.docs.lookup id := by
  intro h
  have htext : samplePipeline.validateText "a".toList = .ok () := rfl
  have hblank : MemphisCore.trim " ".toList = [] := by decide
  obtain ⟨vector, hstored, hnext⟩ := EmbedPipeline.next_upsert (samplePipeline_opened _) htext
    " ".toList
  have hafter : EmbedPipeline.after sampleHost (samplePipeline, fun _ => none)
      [.upsert " ".toList "a".toList] = _ := hnext
  rw [hafter] at h
  have hall := (EmbedPipeline.opened_written hstored
    (EmbedPipeline.written_persist hstored (by decide) _)).mp (h _ rfl)
  exact (hall " ".toList _ (AList.lookup_insert _)).1 hblank

end MemphisEmbed
