import Mathlib
import MemphisOS.Chain.Tamper
import MemphisOS.Ecma.Documents
import MemphisOS.Ecma.Trees
import MemphisOS.Sequences.Sorting

/-!
# Records of any kind

`appendBlock` hashes the text of a sorted copy of the record and stores the text of the record
itself. A copy of an object with a `toJSON` method has lost the method, so the hash of what is read
back is another one.
-/

namespace MemphisOS.Chain

open Ecma

variable (host : ChainHost)

/-! ## Sorting -/

/-- The order of entries `sortValue` uses. -/
def LocaleOrder {α : Type} (a b : JsString × α) : Prop := host.localeLe a.1 b.1 = true

instance {α : Type} : DecidableRel (@LocaleOrder host α) :=
  fun _ _ => inferInstanceAs (Decidable (_ = true))

/-- `Object.fromEntries` of the entries in the order of their names. -/
def arrange {α : Type} (members : List (JsString × α)) : List (JsString × α) :=
  orderMembers (members.insertionSort (LocaleOrder host))

mutual

/-- `sortValue`. -/
def sortTree : JsTree → JsTree
  | .arr items => .arr (sortItems items)
  | .obj members => .obj (arrange host (sortMembers members))
  | .custom members _ none => .obj (arrange host (sortMembers members))
  | .custom members _ (some json) => .custom (arrange host (sortMembers members)) json none
  | t => t

def sortItems : List JsTree → List JsTree
  | [] => []
  | t :: ts => sortTree t :: sortItems ts

def sortMembers : List (JsString × JsTree) → List (JsString × JsTree)
  | [] => []
  | (k, t) :: ms => (k, sortTree t) :: sortMembers ms

end

/-! ## Appending -/

/-- A call of `appendBlock`, and what the process gives it. -/
structure RecordCall where
  chainName : JsString
  data : JsTree
  pid : ℕ
  /-- The moments of the block and of its temporary file. -/
  date : ℤ
  now : ℤ
  /-- The files whose size or removal fails while pruning. -/
  statFails : Text → Bool
  unlinkFails : Text → Bool

/-- The order in which a directory lists its entries. -/
structure Listing where
  le : Text → Text → Bool
  total : ∀ a b, le a b = true ∨ le b a = true
  trans : ∀ a b c, le a b = true → le b c = true → le a c = true
  antisymm : ∀ a b, le a b = true → le b a = true → a = b

def Listing.NameLe (listing : Listing) (a b : Text × List UInt8) : Prop :=
  listing.le a.1 b.1 = true

instance (listing : Listing) : DecidableRel listing.NameLe :=
  fun _ _ => inferInstanceAs (Decidable (_ = true))

/-- `readdir`. -/
def Listing.readdir (listing : Listing) (dir : Dir) : Dir := dir.insertionSort listing.NameLe

namespace RecordCall

variable (call : RecordCall) (blocks : List ChainBlock)

def prevHash : JsString := (blocks.getLast?.map ChainBlock.hash).getD genesisPrevHash

/-- The members of `blockWithoutHash`. -/
def content : List (JsString × JsTree) :=
  [(js "index", .num (nextIndex blocks)), (js "timestamp", .str (ofText (isoText call.date))),
    (js "chain", .str call.chainName), (js "data", call.data),
    (js "prev_hash", .str (prevHash blocks))]

/-- The text that is hashed. -/
def canonical : Option (Option Text) := (sortTree host (.obj (call.content blocks))).stringify []

/-- The text that is stored. -/
def payload (hash : JsString) : Option (Option Text) :=
  (JsTree.obj (call.content blocks ++ [(js "hash", .str hash)])).stringify [' ', ' ']

def tmpFilename : Text :=
  fileName (nextIndex blocks) ++ ".tmp-".toList ++ digits call.pid ++ '-' :: integerText call.now

end RecordCall

instance (name : Text) (dir : Dir) : Decidable (name ∈ fileNames dir) :=
  decidable_of_iff ((fileNames dir).contains name = true) List.contains_iff_mem

/-- The directory `appendBlock` leaves when it returns. -/
def appendBlock (listing : Listing) (call : RecordCall) (dir : Dir) : Option Dir :=
  if appendLockFile ∈ fileNames dir then none
  else
    let locked := dir ++ [(appendLockFile, [])]
    let pruned := (pruneTrailingEmptyBlockFiles call.statFails call.unlinkFails
      (listing.readdir locked)).foldl unlink locked
    match readAndValidateChainBlocks host (listing.readdir pruned) with
    | .error _ => none
    | .ok blocks =>
      match call.canonical host blocks with
      | some (some canonical) =>
        match call.payload blocks (ofText (host.sha256 canonical)) with
        | some (some text) =>
          let written := writeFile pruned (call.tmpFilename blocks) (encodeUtf8 text)
          some (unlink (rename written (call.tmpFilename blocks) (fileName (nextIndex blocks)))
            appendLockFile)
        | _ => none
      | _ => none

variable {host} {listing : Listing} {call : RecordCall} {blocks : List ChainBlock}

/-! ## Arranged members -/

section Arranged

variable {α β : Type} {members : List (JsString × α)}

theorem arrange_map (f : α → β) (members : List (JsString × α)) :
    arrange host (members.map fun m => (m.1, f m.2)) =
      (arrange host members).map fun m => (m.1, f m.2) := by
  have hsort := List.map_insertionSort (@LocaleOrder host α) (@LocaleOrder host β)
    (fun m => (m.1, f m.2)) members fun _ _ _ _ => Iff.rfl
  rw [arrange, arrange, ← hsort, orderMembers_map]

theorem arrange_perm (members : List (JsString × α)) : (arrange host members).Perm members :=
  (orderMembers_perm _).trans (List.perm_insertionSort _ _)

theorem sortValue_obj_eq (members : List (JsString × Plain)) : sortValue host (.obj members) =
    .obj ((arrange host members).map fun m => (m.1, sortValue host m.2)) := by
  rw [sortValue_obj, ← arrange_map]
  rfl

theorem sortMembers_eq_map (members : List (JsString × JsTree)) :
    sortMembers host members = members.map fun m => (m.1, sortTree host m.2) := by
  induction members with
  | nil => rw [sortMembers]; rfl
  | cons m members ih => rw [sortMembers, ih]; rfl

/-- Members of different names are written as given values exactly if each is. -/
theorem writtenMembers_eq_some_map {trees : α → JsTree} {values : α → Plain}
    (hkeys : (members.map Prod.fst).Nodup) :
    writtenMembers (members.map fun m => (m.1, trees m.2)) =
        some (members.map fun m => (m.1, values m.2)) ↔
      ∀ m ∈ members, (trees m.2).written = some (some (values m.2)) := by
  induction members with
  | nil => simp [writtenMembers]
  | cons m members ih =>
    obtain ⟨k, a⟩ := m
    rw [List.map_cons, List.nodup_cons] at hkeys
    rw [List.forall_mem_cons, ← ih hkeys.2, List.map_cons, List.map_cons, writtenMembers]
    constructor
    · intro h
      obtain ⟨v, hv, h⟩ := Option.bind_eq_some_iff.mp h
      obtain ⟨rest, hrest, heq⟩ := Option.map_eq_some_iff.mp h
      cases v with
      | none =>
        -- the name of a member that is dropped would be that of a later one
        have hrest' : rest = (k, values a) :: members.map fun m => (m.1, values m.2) := heq
        have hkey : k ∈ rest.map Prod.fst := by
          rw [hrest']
          exact List.mem_cons_self
        have hmem := (keys_writtenMembers hrest).subset hkey
        rw [List.map_map] at hmem
        exact absurd hmem hkeys.1
      | some v =>
        obtain ⟨hv', rfl⟩ := List.cons.inj heq
        obtain ⟨-, rfl⟩ := Prod.mk.inj hv'
        exact ⟨hv, hrest⟩
    · rintro ⟨hv, hrest⟩
      rw [hv, hrest]
      rfl

end Arranged

/-! ## What is read back -/

/-- The block as it is stored, with the data that is read back. -/
def RecordCall.block (call : RecordCall) (blocks : List ChainBlock) (hash : JsString)
    (data : List (JsString × Plain)) : ChainBlock :=
  ⟨⟨nextIndex blocks, ofText (isoText call.date), call.chainName, data,
    RecordCall.prevHash blocks⟩, hash⟩

/-- The members of a stored block in the order of their names. -/
theorem inOwnOrder_of_sublist {keys : List JsString}
    (h : keys.Sublist (["index", "timestamp", "chain", "data", "prev_hash", "hash"].map js)) :
    InOwnOrder keys := by
  have horder := @inOwnOrder_of_names ["index", "timestamp", "chain", "data", "prev_hash", "hash"]
    (by decide) (by decide)
  exact ⟨horder.1.sublist h, horder.2.sublist h⟩

/-- A stored text is that of the members of the block, without its data if nothing is written of
them. -/
theorem RecordCall.payload_eq_some {hash : JsString} {text : Text} {n : ℕ} (hn : n < 2 ^ 53)
    (hindex : nextIndex blocks = .ofNat n) (h : call.payload blocks hash = some (some text)) :
    ∃ ms data, text = jsonText [' ', ' '] (.obj ms) ∧ call.data.written = some data ∧
      parseJson text = some (.obj
        ([(js "index", .num (.ofNat n)), (js "timestamp", .str (ofText (isoText call.date))),
          (js "chain", .str call.chainName)] ++ (data.map fun v => (js "data", own v)).toList ++
          [(js "prev_hash", .str (RecordCall.prevHash blocks)), (js "hash", .str hash)])) := by
  obtain ⟨v, hv, hnumbers, rfl⟩ := JsTree.stringify_eq_some h
  rw [JsTree.written] at hv
  obtain ⟨ms, hms, heq⟩ := Option.map_eq_some_iff.mp hv
  obtain rfl := Option.some.inj heq
  have hkeys := inOwnOrder_of_sublist (keys_writtenMembers hms)
  have hparse := @parseJson_write [' ', ' '] (by simp [Json.Blank, Json.isSpace]) _ hnumbers
  have htext : jsonText [' ', ' '] (.obj ms) = Json.write numberText [' ', ' '] (.obj ms) [] := by
    rw [jsonText, jsonImage_eq_self hnumbers]
  simp only [RecordCall.content, List.cons_append, List.nil_append, writtenMembers, JsTree.written,
    hindex, jsonNumber_ofNat hn, Option.bind_some, Option.map_some, Option.map_bind] at hms
  cases hdata : call.data.written with
  | none =>
    rw [hdata] at hms
    cases hms
  | some data =>
    rw [hdata] at hms
    refine ⟨ms, data, htext.symm, rfl, ?_⟩
    rw [hparse, own_obj_of_inOwnOrder hkeys]
    obtain rfl := Option.some.inj hms
    cases data with
    | none => rfl
    | some v => rfl

end MemphisOS.Chain
