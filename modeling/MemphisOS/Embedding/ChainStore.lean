import Mathlib.Data.List.AList
import MemphisOS.Core.Memory
import MemphisOS.Core.SignedRuns
import MemphisOS.Embedding.Pipeline
import MemphisOS.Sequences.Sorting

/-!
# Vectors of chain blocks

A store of vectors, each of which may refer to a block of a chain, and the search that gives the
content of the blocks with what it finds. Chains grow while vectors are stored.
-/

namespace MemphisEmbed

open Ecma MemphisCore

structure ChainRef where
  chain : Text
  index : UInt64
  hash : Text
  deriving DecidableEq

structure VectorEntry (F : Type) where
  id : Text
  vector : List F
  metadata : List (Text × Text)
  createdAt : ℤ
  chainRef : Option ChainRef

/-- What a store uses of the platform. -/
structure StoreHost (F : Type) extends SingleFloats F where
  /-- `v == 0.0`. -/
  isZero : F → Bool
  /-- `total_cmp` gives `Less` or `Equal`. -/
  totalLe : F → F → Prop
  decidable : DecidableRel totalLe
  total : ∀ x y, totalLe x y ∨ totalLe y x
  trans : ∀ x y z, totalLe x y → totalLe y z → totalLe x z
  /-- The order in which a hash map is iterated. -/
  iterate : List (VectorEntry F) → List (VectorEntry F)
  iterate_perm : ∀ entries, (iterate entries).Perm entries

inductive StoreError where
  /-- `InvalidVector`. -/
  | invalidVector (message : Text)
  /-- `NotFound`. -/
  | notFound (message : Text)

variable {F : Type}

section Similarity

variable (host : StoreHost F)

def cosineSimilarity (a b : List F) : F :=
  if a.length ≠ b.length ∨ a = [] then host.zero
  else
    let sum := fun products : List F => products.foldl host.add host.zero
    let dot := sum (List.zipWith host.mul a b)
    let normA := sum (a.map fun v => host.mul v v)
    let normB := sum (b.map fun v => host.mul v v)
    if host.isZero normA ∨ host.isZero normB then host.zero
    else host.div dot (host.mul (host.sqrt normA) (host.sqrt normB))

/-- The comparison of `search`: a higher score goes first. -/
def ScoresBefore (a b : F × VectorEntry F) : Prop := host.totalLe b.1 a.1

instance : DecidableRel (ScoresBefore host) := fun a b => host.decidable b.1 a.1

instance : Std.Total (ScoresBefore host) := ⟨fun a b => host.total b.1 a.1⟩

instance : IsTrans _ (ScoresBefore host) := ⟨fun a b c hab hbc => host.trans c.1 b.1 a.1 hbc hab⟩

end Similarity

/-- `VectorStore` without a directory on disk. -/
structure VectorStore (F : Type) where
  vectors : AList fun _ : Text => VectorEntry F

namespace VectorStore

variable (host : StoreHost F) (self : VectorStore F)

def new : VectorStore F := ⟨∅⟩

def upsertEntry (entry : VectorEntry F) : Except StoreError (VectorStore F) :=
  if entry.vector = [] then .error (.invalidVector "vector cannot be empty".toList)
  else .ok ⟨self.vectors.insert entry.id entry⟩

/-- The entries in the order of the hash map. -/
def values : List (VectorEntry F) := host.iterate (self.vectors.entries.map fun entry => entry.2)

def search (query : List F) (topK : ℕ) : Except StoreError (List (F × VectorEntry F)) :=
  if query = [] then .error (.invalidVector "query cannot be empty".toList)
  else
    .ok ((((self.values host).map fun entry =>
      (cosineSimilarity host query entry.vector, entry)).insertionSort (ScoresBefore host)).take
        topK)

end VectorStore

structure ChainAwareEmbedStore (F : Type) where
  vectorStore : VectorStore F

namespace ChainAwareEmbedStore

variable (host : StoreHost F) (self : ChainAwareEmbedStore F)

/-- The block that an index stands for. -/
def findBlock (chain : MemoryChain) (index : UInt64) : Option Block :=
  chain.blocks.find? fun b => b.index = index

def entryId (chain : Text) (index : UInt64) : Text := chain ++ ':' :: digits index.toNat

def storeFromChain (chain : MemoryChain) (blockIndex : UInt64) (vector : List F)
    (metadata : List (Text × Text)) (now : ℤ) : Except StoreError (Text × ChainAwareEmbedStore F) :=
  match findBlock chain blockIndex with
  | none => .error (.notFound ("Block ".toList ++ digits blockIndex.toNat ++ " not found".toList))
  | some block => do
    let id := entryId chain.name blockIndex
    let stored ← self.vectorStore.upsertEntry
      ⟨id, vector, metadata, now, some ⟨chain.name, blockIndex, block.hash⟩⟩
    return (id, ⟨stored⟩)

/-- The content of the block that an entry refers to. -/
def content (chain : Option MemoryChain) (entry : VectorEntry F) : Option Text := do
  let chainRef ← entry.chainRef
  let c ← chain
  if c.name = chainRef.chain then (findBlock c chainRef.index).map fun b => b.data.content
  else none

def searchWithContext (query : List F) (topK : ℕ) (chain : Option MemoryChain) :
    Except StoreError (List (F × VectorEntry F × Option Text)) := do
  let results ← self.vectorStore.search host query topK
  return results.map fun result => (result.1, result.2, content chain result.2)

end ChainAwareEmbedStore

/-! ## Runs -/

/-- Chains by their names, and a store that refers to them. -/
structure EmbedChains (F : Type) where
  chains : Text → MemoryChain
  store : ChainAwareEmbedStore F

inductive EmbedChainsOp (F : Type) where
  /-- A block is appended, in strict mode or not, unless it is rejected. -/
  | append (strict : Bool) (chain : Text) (block : Block)
  /-- A vector is stored for a block, unless that fails. -/
  | store (chain : Text) (blockIndex : UInt64) (vector : List F) (metadata : List (Text × Text))
      (now : ℤ)

namespace EmbedChains

variable (crates : Crates) (self : EmbedChains F)

def new : EmbedChains F := ⟨.new, ⟨.new⟩⟩

def next : EmbedChainsOp F → EmbedChains F
  | .append strict chain block =>
    let appended := if strict then (self.chains chain).appendStrict crates block
      else (self.chains chain).append crates block
    ⟨Function.update self.chains chain (appended.toOption.getD (self.chains chain)), self.store⟩
  | .store chain blockIndex vector metadata now =>
    match self.store.storeFromChain (self.chains chain) blockIndex vector metadata now with
    | .ok stored => { self with store := stored.2 }
    | .error _ => self

end EmbedChains

/-- Chains and a store that start empty. -/
def embedChains (crates : Crates) : TransitionSystem (EmbedChains F) (EmbedChainsOp F) :=
  .ofFunction .new (EmbedChains.next crates)

variable {crates : Crates} {host : StoreHost F} {s t : EmbedChains F} {chain name : Text}
  {index : UInt64} {block : Block} {entry : VectorEntry F} {ops : List (EmbedChainsOp F)}
  {op : EmbedChainsOp F} {query : List F} {topK : ℕ}

/-! ## References -/

open ChainAwareEmbedStore

/-- An identifier tells the chain and the index. -/
theorem entryId_inj {chain' : Text} {index' : UInt64} :
    entryId chain index = entryId chain' index' ↔ chain = chain' ∧ index = index' := by
  refine ⟨fun h => ?_, fun h => by rw [h.1, h.2]⟩
  have hcolon : ∀ n, ':' ∉ (digits n).reverse := by
    intro n hmem
    have hdigit := digits_isDigit (List.mem_reverse.mp hmem)
    cases hdigit
  have hreverse := congrArg List.reverse h
  simp only [entryId, List.reverse_append, List.reverse_cons, List.append_assoc,
    List.singleton_append] at hreverse
  -- the last colon ends the name of the chain
  have htake := congrArg (List.takeWhile (· ≠ ':')) hreverse
  have hpass : ∀ n, ∀ c ∈ (digits n).reverse, decide (c ≠ ':') = true := fun n c hc =>
    decide_eq_true fun heq => hcolon n (heq ▸ hc)
  rw [List.takeWhile_append_of_pos (hpass _), List.takeWhile_append_of_pos (hpass _)] at htake
  simp only [List.takeWhile_cons, ne_eq, not_true_eq_false, decide_false, Bool.false_eq_true,
    if_false, List.append_nil, List.reverse_inj] at htake
  have hindex : index = index' := UInt64.toNat_inj.mp (digits_inj.mp htake)
  rw [hindex] at hreverse
  have hchain := List.append_cancel_left hreverse
  exact ⟨List.reverse_inj.mp (List.cons.inj hchain).2, hindex⟩

/-- A block that is found stays the one that is found. -/
theorem findBlock_append {blocks : List Block} (h : findBlock ⟨name, blocks⟩ index = some block)
    (more : List Block) : findBlock ⟨name, blocks ++ more⟩ index = some block := by
  rw [findBlock, List.find?_append, show blocks.find? (fun b => b.index = index) = some block from h]
  rfl

variable (crates) in
/-- What holds of a chain under a name. -/
structure SoundChain (name : Text) (chain : MemoryChain) : Prop where
  name_eq : chain.name = name
  hash_eq : ∀ block ∈ chain.blocks, block.hash = computeHash crates block

/-- An entry refers to a block of a chain. -/
structure RefersTo (chains : Text → MemoryChain) (entry : VectorEntry F) (ref : ChainRef)
    (block : Block) : Prop where
  chainRef : entry.chainRef = some ref
  id : entry.id = entryId ref.chain ref.index
  found : findBlock (chains ref.chain) ref.index = some block
  hash : block.hash = ref.hash

variable (crates) in
structure EmbedChains.Sound (s : EmbedChains F) : Prop where
  chains : ∀ name, SoundChain crates name (s.chains name)
  refers : ∀ id entry, s.store.vectorStore.vectors.lookup id = some entry →
    entry.id = id ∧ ∃ ref block, RefersTo s.chains entry ref block

/-- A block that is not rejected is pushed, and then its hash is right. -/
theorem appended_cases (crates : Crates) (strict : Bool) (chain : MemoryChain) (block : Block) :
    let appended := if strict then chain.appendStrict crates block else chain.append crates block
    appended.toOption.getD chain = chain ∨
      appended.toOption.getD chain = { chain with blocks := chain.blocks ++ [block] } ∧
        block.hash = computeHash crates block := by
  have happended : (if strict then chain.appendStrict crates block else chain.append crates block) =
      do validateBlockInternal crates block chain.blocks.getLast? strict
         return { chain with blocks := chain.blocks ++ [block] } := by
    cases strict with
    | true => rfl
    | false => rfl
  intro appended
  rw [show appended = _ from happended]
  cases hvalid : validateBlockInternal crates block chain.blocks.getLast? strict with
  | error errors => exact .inl rfl
  | ok u =>
    exact .inr ⟨rfl, hash_eq_of_fieldErrors (validateBlockInternal_eq_ok.mp hvalid).1.1⟩

theorem SoundChain.push {chain : MemoryChain} (h : SoundChain crates name chain)
    (hhash : block.hash = computeHash crates block) :
    SoundChain crates name { chain with blocks := chain.blocks ++ [block] } where
  name_eq := h.name_eq
  hash_eq := by
    intro b hb
    rcases List.mem_append.mp hb with hb | hb
    · exact h.hash_eq b hb
    · rw [List.mem_singleton.mp hb]
      exact hhash

/-- References stay right while a chain grows. -/
theorem RefersTo.push {chains : Text → MemoryChain} {ref : ChainRef} {more : Block}
    (h : RefersTo chains entry ref block) (name : Text) :
    RefersTo (Function.update chains name
      { chains name with blocks := (chains name).blocks ++ [more] }) entry ref block where
  chainRef := h.chainRef
  id := h.id
  hash := h.hash
  found := by
    by_cases hname : ref.chain = name
    · rw [hname, Function.update_self]
      exact findBlock_append (hname ▸ h.found) [more]
    · rw [Function.update_of_ne hname]
      exact h.found

theorem EmbedChains.Sound.next (h : s.Sound crates) (op : EmbedChainsOp F) :
    (s.next crates op).Sound crates := by
  cases op with
  | append strict name block =>
    rw [EmbedChains.next]
    rcases appended_cases crates strict (s.chains name) block with hsame | ⟨hpush, hhash⟩
    · rw [hsame, Function.update_eq_self]
      exact h
    · rw [hpush]
      refine ⟨fun other => ?_, fun id entry hlookup => ?_⟩
      · by_cases hother : other = name
        · rw [hother]
          dsimp only
          rw [Function.update_self]
          exact (h.chains name).push hhash
        · dsimp only
          rw [Function.update_of_ne hother]
          exact h.chains other
      · obtain ⟨hid, ref, found, hrefers⟩ := h.refers id entry hlookup
        exact ⟨hid, ref, found, hrefers.push name⟩
  | store name blockIndex vector metadata now =>
    rw [EmbedChains.next]
    split
    · next stored hstored =>
      rw [storeFromChain] at hstored
      split at hstored
      · cases hstored
      · next block hfound =>
        simp only [VectorStore.upsertEntry] at hstored
        by_cases hvector : vector = []
        · rw [if_pos hvector] at hstored
          cases hstored
        · rw [if_neg hvector] at hstored
          obtain rfl := Except.ok.inj hstored
          refine ⟨h.chains, fun id entry hlookup => ?_⟩
          dsimp only at hlookup
          by_cases hid : id = entryId (s.chains name).name blockIndex
          · rw [hid, AList.lookup_insert] at hlookup
            obtain rfl := Option.some.inj hlookup
            refine ⟨hid.symm, _, block, rfl, rfl, ?_, rfl⟩
            rw [(h.chains name).name_eq]
            exact hfound
          · rw [AList.lookup_insert_ne hid] at hlookup
            exact h.refers id entry hlookup
    · exact h

theorem sound_of_run (hrun : (embedChains crates).Run ops s) : s.Sound crates := by
  refine TransitionSystem.Reachable.invariant (I := EmbedChains.Sound crates) ⟨ops, hrun⟩ ?_ ?_
  · rintro s rfl
    refine ⟨fun name => ⟨rfl, fun block hblock => absurd hblock List.not_mem_nil⟩, ?_⟩
    intro id entry hlookup
    cases hlookup
  · rintro s op t h rfl
    exact h.next op

/-! ## Results -/

/-- The entries of a store with their scores. -/
def EmbedChains.scored (host : StoreHost F) (s : EmbedChains F) (query : List F) :
    List (F × VectorEntry F) :=
  s.store.vectorStore.vectors.entries.map fun entry =>
    (cosineSimilarity host query entry.2.vector, entry.2)

/-- The content of the block an entry refers to. -/
theorem content_of_refersTo {ref : ChainRef} (h : s.Sound crates)
    (hrefers : RefersTo s.chains entry ref block) (name : Text) :
    content (some (s.chains name)) entry =
      if ref.chain = name then some block.data.content else none := by
  rw [content, hrefers.chainRef]
  dsimp only [bind, Option.bind]
  rw [(h.chains name).name_eq]
  by_cases hname : ref.chain = name
  · rw [if_pos hname, if_pos hname.symm, ← hname, hrefers.found]
    rfl
  · rw [if_neg hname, if_neg (Ne.symm hname)]

/-- **Search with context.** However chains grow and vectors are stored, a search gives the best
entries in the order of their scores, each refers to a block that its chain has under the hash of
its fields, and the content given with it is that of the block, if the chain at hand is the one. -/
theorem search_recalls_content (hrun : (embedChains crates).Run ops s) (host : StoreHost F)
    (hquery : query ≠ []) (topK : ℕ) (name : Text) :
    ∃ results, s.store.searchWithContext host query topK (some (s.chains name)) = .ok results ∧
      Sequences.IsTop (ScoresBefore host) topK (s.scored host query)
        (results.map fun result => (result.1, result.2.1)) ∧
      ∀ result ∈ results, ∃ ref block, RefersTo s.chains result.2.1 ref block ∧
        computeHash crates block = ref.hash ∧
        result.2.2 = if ref.chain = name then some block.data.content else none := by
  have hsound := sound_of_run hrun
  have hvalues : ((s.store.vectorStore.values host).map fun entry =>
      (cosineSimilarity host query entry.vector, entry)).Perm (s.scored host query) := by
    refine ((host.iterate_perm _).map _).trans ?_
    rw [List.map_map]
    exact .refl _
  have htop := (Sequences.isTop_take_insertionSort (r := ScoresBefore host) topK _).of_perm hvalues
  have hsearch : s.store.vectorStore.search host query topK = .ok _ := if_neg hquery
  refine ⟨_, by rw [searchWithContext, hsearch]; rfl, ?_, fun result hresult => ?_⟩
  · rw [List.map_map]
    convert htop using 1
    exact List.map_id' _
  · obtain ⟨scored, hscored, rfl⟩ := List.mem_map.mp hresult
    have hmem := hvalues.subset ((List.mem_insertionSort _).mp (List.mem_of_mem_take hscored))
    obtain ⟨⟨id, entry⟩, hentry, rfl⟩ := List.mem_map.mp hmem
    obtain ⟨-, ref, block, hrefers⟩ := hsound.refers id entry
      (AList.mem_lookup_iff.mpr hentry)
    refine ⟨ref, block, hrefers, ?_, content_of_refersTo hsound hrefers name⟩
    rw [← hrefers.hash, (hsound.chains ref.chain).hash_eq block]
    exact List.mem_of_find?_eq_some hrefers.found

/-! ## Stored entries -/

/-- The block that a vector is stored for. -/
def EmbedChainsOp.target : EmbedChainsOp F → Option (Text × UInt64)
  | .append _ _ _ => none
  | .store chain blockIndex _ _ _ => some (chain, blockIndex)

/-- The entry of a block is not changed by what is stored for other blocks. -/
theorem lookup_next (h : s.Sound crates) (hop : op.target ≠ some (name, index)) :
    (s.next crates op).store.vectorStore.vectors.lookup (entryId name index) =
      s.store.vectorStore.vectors.lookup (entryId name index) := by
  cases op with
  | append strict other block => rfl
  | store other blockIndex vector metadata now =>
    rw [EmbedChains.next, storeFromChain]
    cases findBlock (s.chains other) blockIndex with
    | none => rfl
    | some block =>
      simp only [VectorStore.upsertEntry]
      by_cases hvector : vector = []
      · rw [if_pos hvector]
        rfl
      · rw [if_neg hvector]
        refine AList.lookup_insert_ne fun heq => hop ?_
        rw [(h.chains other).name_eq] at heq
        obtain ⟨rfl, rfl⟩ := entryId_inj.mp heq
        rfl

theorem lookup_foldl (h : s.Sound crates) (hops : ∀ op ∈ ops, op.target ≠ some (name, index)) :
    (ops.foldl (EmbedChains.next crates) s).store.vectorStore.vectors.lookup (entryId name index) =
      s.store.vectorStore.vectors.lookup (entryId name index) := by
  induction ops generalizing s with
  | nil => rfl
  | cons op ops ih =>
    rw [List.foldl_cons, ih (h.next op) fun op hmem => hops op (List.mem_cons_of_mem _ hmem),
      lookup_next h (hops op List.mem_cons_self)]

/-- What a call that succeeds stores. -/
theorem lookup_stored {vector : List F} {metadata : List (Text × Text)} {now : ℤ} {id : Text}
    {stored : ChainAwareEmbedStore F} (h : s.Sound crates)
    (hstore : s.store.storeFromChain (s.chains name) index vector metadata now =
      .ok (id, stored)) :
    ∃ block, findBlock (s.chains name) index = some block ∧ id = entryId name index ∧
      stored.vectorStore.vectors.lookup id =
        some ⟨id, vector, metadata, now, some ⟨name, index, block.hash⟩⟩ := by
  rw [storeFromChain] at hstore
  split at hstore
  · cases hstore
  · next block hfound =>
    simp only [VectorStore.upsertEntry] at hstore
    by_cases hvector : vector = []
    · rw [if_pos hvector] at hstore
      cases hstore
    · rw [if_neg hvector, (h.chains name).name_eq] at hstore
      obtain ⟨rfl, rfl⟩ := Prod.mk.inj (Except.ok.inj hstore)
      exact ⟨block, hfound, rfl, AList.lookup_insert _⟩

/-- **Stored vectors.** A vector that is stored for a block stays in the store with the hash of the
block, until a vector is stored for the same block of the same chain. -/
theorem stored_kept {vector : List F} {metadata : List (Text × Text)} {now : ℤ} {id : Text}
    {stored : ChainAwareEmbedStore F} (hrun : (embedChains crates).Run ops s)
    (hstore : s.store.storeFromChain (s.chains name) index vector metadata now =
      .ok (id, stored)) (later : List (EmbedChainsOp F))
    (hlater : ∀ op ∈ later, op.target ≠ some (name, index)) :
    ∃ block, findBlock (s.chains name) index = some block ∧
      (later.foldl (EmbedChains.next crates)
        (s.next crates (.store name index vector metadata now))).store.vectorStore.vectors.lookup id =
          some ⟨id, vector, metadata, now, some ⟨name, index, block.hash⟩⟩ := by
  have hsound := sound_of_run hrun
  obtain ⟨block, hfound, rfl, hlookup⟩ := lookup_stored hsound hstore
  refine ⟨block, hfound, ?_⟩
  have hnext : s.next crates (.store name index vector metadata now) =
      { s with store := stored } := by
    rw [EmbedChains.next, hstore]
  rw [lookup_foldl (hsound.next _) hlater, hnext]
  exact hlookup

/-! ## A run -/

/-- A platform whose vectors have natural numbers. -/
def sampleStoreHost : StoreHost ℕ where
  zero := 0
  ofU32 := UInt32.toNat
  add := Nat.add
  mul := Nat.mul
  div := Nat.div
  sqrt := Nat.sqrt
  isPositive := fun v => 0 < v
  write := fun _ => none
  read := fun _ => none
  isToken := fun _ _ h => by cases h
  isZero := fun v => v = 0
  totalLe := Nat.le
  decidable := Nat.decLe
  total := Nat.le_total
  trans := fun _ _ _ => Nat.le_trans
  iterate := id
  iterate_perm := fun _ => .refl _

/-- A chain with a block, and a vector for it. -/
def sampleOps : List (EmbedChainsOp ℕ) :=
  MemoryStore.sampleStore.chain.blocks.map (.append false "journal".toList) ++
    [.store "journal".toList 0 [1] [] 0]

def sampleEmbedChains : EmbedChains ℕ := sampleOps.foldl (EmbedChains.next sampleCrates) .new

theorem search_recalls_content_sample : ∃ results, sampleEmbedChains.store.searchWithContext
    sampleStoreHost [1] 3 (some (sampleEmbedChains.chains "journal".toList)) = .ok results ∧
      results.length = 1 := by
  have hrun : (embedChains sampleCrates).Run sampleOps sampleEmbedChains :=
    TransitionSystem.run_foldl _ _ _
  obtain ⟨results, hresults, htop, -⟩ := search_recalls_content hrun sampleStoreHost
    (List.cons_ne_nil 1 []) 3 "journal".toList
  refine ⟨results, hresults, ?_⟩
  rw [← List.length_map, htop.length_eq]
  decide

theorem stored_kept_sample : ∃ block, findBlock (sampleEmbedChains.chains "journal".toList) 0 =
    some block ∧ (sampleEmbedChains.next sampleCrates
      (.store "journal".toList 0 [2] [] 0)).store.vectorStore.vectors.lookup
        (entryId "journal".toList 0) = some ⟨entryId "journal".toList 0, [2], [], 0,
          some ⟨"journal".toList, 0, block.hash⟩⟩ := by
  have hrun : (embedChains sampleCrates).Run sampleOps sampleEmbedChains :=
    TransitionSystem.run_foldl _ _ _
  have hstore : ∃ stored, sampleEmbedChains.store.storeFromChain
      (sampleEmbedChains.chains "journal".toList) 0 [2] [] 0 =
        .ok (entryId "journal".toList 0, stored) := ⟨_, rfl⟩
  obtain ⟨stored, hstore⟩ := hstore
  exact stored_kept hrun hstore [] (List.forall_mem_nil _)

end MemphisEmbed
