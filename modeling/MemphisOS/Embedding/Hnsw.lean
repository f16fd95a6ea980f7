import Mathlib.Data.List.Sort
import Mathlib.Order.Basic

/-!
# The index of neighbours

Vectors are linked to those nearest to them, and a search follows the links from an entry point.
Vectors and scores are those of the caller; scores are compared by a preorder.
-/

namespace MemphisOS.Embedding

/-- What the index uses of vectors. -/
structure Scoring (V S : Type) where
  length : V → ℕ
  normalize : V → V
  cosine : V → V → S
  /-- The score of a vector that is missing, `-1`. -/
  missing : S

structure SearchResult (S : Type) where
  id : String
  score : S

/-- A vector and the ids it is linked to, in the order in which the set holds them. -/
structure NodeEntry (V : Type) where
  id : String
  vector : V
  neighbors : List String

structure HnswIndex (V : Type) where
  dimensions : ℕ
  maxNeighbors : ℕ
  efSearch : ℕ
  nodes : List (NodeEntry V) := []
  entryPointId : Option String := none

/-- `Set.prototype.add`. -/
def addToSet (set : List String) (id : String) : List String :=
  if id ∈ set then set else set ++ [id]

/-! ## Lists of results -/

section Results

variable {S : Type} [Preorder S] [DecidableLT S]

/-- The loop of `findInsertIndexDesc`. -/
def findInsertIndex (items : List (SearchResult S)) (score : S) : ℕ → ℕ → ℕ → ℕ
  | 0, lo, _ => lo
  | fuel + 1, lo, hi =>
    if lo < hi then
      let mid := (lo + hi) / 2
      match items[mid]? with
      | some item =>
        if item.score < score then findInsertIndex items score fuel lo mid
        else findInsertIndex items score fuel (mid + 1) hi
      | none => lo
    else lo

def findInsertIndexDesc (items : List (SearchResult S)) (score : S) : ℕ :=
  findInsertIndex items score items.length 0 items.length

/-- `pushCandidate`. -/
def pushCandidate (items : List (SearchResult S)) (candidate : SearchResult S) :
    List (SearchResult S) :=
  let idx := findInsertIndexDesc items candidate.score
  items.take idx ++ candidate :: items.drop idx

def pushBest (ef : ℕ) (best : List (SearchResult S)) (candidate : SearchResult S) :
    List (SearchResult S) :=
  let best := pushCandidate best candidate
  if ef < best.length then best.dropLast else best

end Results

structure SearchState (S : Type) where
  visited : List String
  candidates : List (SearchResult S)
  best : List (SearchResult S)

namespace HnswIndex

variable {V S : Type} [Preorder S] [DecidableLT S] (scoring : Scoring V S) (self : HnswIndex V)

def new (dimensions : ℕ) (maxNeighbors efSearch : Option ℕ) : HnswIndex V where
  dimensions := dimensions
  maxNeighbors := max 2 (maxNeighbors.getD 16)
  efSearch := max 4 (efSearch.getD 32)

def ids : List String := self.nodes.map NodeEntry.id

/-- `this.nodes.get(id)`. -/
def get (id : String) : Option (NodeEntry V) := self.nodes.find? fun node => node.id = id

/-- The entry of an id is changed in place. -/
def modify (id : String) (change : NodeEntry V → NodeEntry V) : HnswIndex V :=
  { self with nodes := self.nodes.map fun node => if node.id = id then change node else node }

/-- The entry of the id that is pinned, unless the id is empty. -/
def pinned : Option (NodeEntry V) :=
  match self.entryPointId with
  | none => none
  | some id => if id = "" then none else self.get id

def pickEntryPoint : Option (NodeEntry V) × HnswIndex V :=
  match self.pinned with
  | some node => (some node, self)
  | none =>
    match self.nodes.head? with
    | some first => (some first, { self with entryPointId := some first.id })
    | none => (none, self)

/-! ## Searching -/

/-- The body of the loop over the neighbours. -/
def visit (query : V) (ef : ℕ) (worstBest : Option S) (state : SearchState S)
    (neighborId : String) : SearchState S :=
  if neighborId ∈ state.visited then state
  else
    let seen := { state with visited := state.visited ++ [neighborId] }
    match self.get neighborId with
    | none => seen
    | some neighbor =>
      let score := scoring.cosine query neighbor.vector
      if state.best.length < ef ∨ ∀ worst ∈ worstBest, worst < score then
        { seen with
          candidates := pushCandidate state.candidates ⟨neighborId, score⟩
          best := pushBest ef state.best ⟨neighborId, score⟩ }
      else seen

/-- The main loop. Every turn takes a candidate, and an id is a candidate once. -/
def searchLoop (query : V) (ef : ℕ) : ℕ → SearchState S → SearchState S
  | 0, state => state
  | fuel + 1, state =>
    match state.candidates with
    | [] => state
    | current :: candidates =>
      if state.visited.length < self.nodes.length then
        let worstBest := state.best.getLast?.map SearchResult.score
        let state := { state with candidates }
        if ef ≤ state.best.length ∧ ∃ worst ∈ worstBest, current.score < worst then state
        else
          match self.get current.id with
          | none => searchLoop query ef fuel state
          | some node =>
            searchLoop query ef fuel
              (node.neighbors.foldl (self.visit scoring query ef worstBest) state)
      else state

def searchInternal (query : V) (k : ℕ) : List (SearchResult S) × HnswIndex V :=
  if self.nodes = [] then ([], self)
  else
    let ef := max k self.efSearch
    match self.pickEntryPoint with
    | (none, self) => ([], self)
    | (some entry, self) =>
      let seed : SearchResult S := ⟨entry.id, scoring.cosine query entry.vector⟩
      let state := self.searchLoop scoring query ef self.nodes.length
        { visited := [entry.id], candidates := [seed], best := pushBest ef [] seed }
      (state.best.take k, self)

def assertVector (vector : V) : Except String Unit :=
  if scoring.length vector = self.dimensions then .ok ()
  else .error s!"invalid vector size: expected {self.dimensions}, got {scoring.length vector}"

def search (query : V) (k : ℕ) : Except String (List (SearchResult S) × HnswIndex V) :=
  (self.assertVector scoring query).map fun _ =>
    self.searchInternal scoring (scoring.normalize query) k

/-! ## Linking -/

variable [DecidableLE S]

/-- The ids are ranked by their scores, and the best stay. -/
def trimNeighbors (node : NodeEntry V) : NodeEntry V :=
  if node.neighbors.length ≤ self.maxNeighbors then node
  else
    let ranked := node.neighbors.map fun id =>
      SearchResult.mk id (((self.get id).map fun target =>
        scoring.cosine node.vector target.vector).getD scoring.missing)
    let sorted := ranked.insertionSort fun a b => b.score ≤ a.score
    { node with neighbors := (sorted.take self.maxNeighbors).map SearchResult.id }

/-- The body of the loop that links the neighbours back. -/
def linkBack (id : String) (self : HnswIndex V) (neighborId : String) : HnswIndex V :=
  match self.get neighborId with
  | none => self
  | some neighbor => self.modify neighborId fun _ =>
      self.trimNeighbors scoring { neighbor with neighbors := addToSet neighbor.neighbors id }

/-- `add` for an id that is new. -/
def insert (id : String) (vector : V) : HnswIndex V :=
  let vector := scoring.normalize vector
  let (nearest, self) := self.searchInternal scoring vector self.maxNeighbors
  let neighbors := (nearest.map SearchResult.id).foldl addToSet []
  let entryPointId :=
    if self.entryPointId = none ∨ self.entryPointId = some "" then some id else self.entryPointId
  let self := { self with nodes := self.nodes ++ [⟨id, vector, neighbors⟩], entryPointId }
  let self := neighbors.foldl (linkBack scoring id) self
  self.modify id (self.trimNeighbors scoring)

/-- `update` for an id that is stored. -/
def relink (id : String) (vector : V) : HnswIndex V :=
  let vector := scoring.normalize vector
  let self := self.modify id fun node => { node with vector }
  let (nearest, self) := self.searchInternal scoring vector (self.maxNeighbors + 1)
  let nearest := nearest.filter fun item => item.id ≠ id
  let neighbors := ((nearest.take self.maxNeighbors).map SearchResult.id).foldl addToSet []
  self.modify id fun node => { node with neighbors }

def add (id : String) (vector : V) : Except String (HnswIndex V) :=
  (self.assertVector scoring vector).map fun _ =>
    if (self.get id).isSome then self.relink scoring id vector
    else self.insert scoring id vector

/-- An id that is not stored is added. -/
def update (id : String) (vector : V) : Except String (HnswIndex V) :=
  (self.assertVector scoring vector).bind fun _ =>
    if (self.get id).isSome then .ok (self.relink scoring id vector)
    else self.add scoring id vector

end HnswIndex

end MemphisOS.Embedding
