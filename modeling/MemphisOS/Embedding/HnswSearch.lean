import Mathlib.Data.List.Perm.Subperm
import Mathlib.Logic.Relation
import MemphisOS.Embedding.Hnsw

/-!
# What a search of the index finds

With room for all results a search finds the vectors that the links lead to from the entry point,
whatever the scores are.
-/

namespace MemphisOS.Embedding

variable {V S : Type}

/-! ## Lists of results -/

section Results

variable [Preorder S] [DecidableLT S]

theorem perm_pushCandidate (items : List (SearchResult S)) (candidate : SearchResult S) :
    (pushCandidate items candidate).Perm (candidate :: items) := by
  rw [pushCandidate]
  refine List.perm_middle.trans ?_
  rw [List.take_append_drop]

theorem length_pushCandidate (items : List (SearchResult S)) (candidate : SearchResult S) :
    (pushCandidate items candidate).length = items.length + 1 :=
  (perm_pushCandidate items candidate).length_eq

/-- While there is room nothing is popped. -/
theorem perm_pushBest {ef : ℕ} {best : List (SearchResult S)} (hroom : best.length < ef)
    (candidate : SearchResult S) : (pushBest ef best candidate).Perm (candidate :: best) := by
  rw [pushBest, length_pushCandidate, if_neg (by omega)]
  exact perm_pushCandidate best candidate

/-- What is kept was there before, or is the candidate. -/
theorem pushBest_subperm (ef : ℕ) (best : List (SearchResult S)) (candidate : SearchResult S) :
    (pushBest ef best candidate).Subperm (candidate :: best) := by
  refine List.Subperm.trans ?_ (perm_pushCandidate best candidate).subperm
  rw [pushBest]
  split
  · exact (List.dropLast_sublist _).subperm
  · exact .refl _

end Results

namespace HnswIndex

variable {self : HnswIndex V} {id : String} {node : NodeEntry V}

/-! ## Links -/

/-- The first vector is linked to the second. -/
def Links (self : HnswIndex V) (a b : String) : Prop :=
  ∃ node, self.get a = some node ∧ b ∈ node.neighbors

/-- The links lead from the entry point to the vector. -/
def Reached (self : HnswIndex V) (id : String) : Prop :=
  ∃ entry, self.pickEntryPoint.1 = some entry ∧ Relation.ReflTransGen self.Links entry.id id

/-- Ids are stored once, and links lead to vectors that are stored. -/
structure Closed (index : HnswIndex V) : Prop where
  nodup : index.ids.Nodup
  neighbors : ∀ node ∈ index.nodes, ∀ id ∈ node.neighbors, id ∈ index.ids

theorem get_mem (h : self.get id = some node) : node ∈ self.nodes ∧ node.id = id :=
  ⟨List.mem_of_find?_eq_some h, by simpa using List.find?_some h⟩

theorem exists_get (h : id ∈ self.ids) : ∃ node, self.get id = some node := by
  obtain ⟨node, hnode, rfl⟩ := List.mem_map.mp h
  cases hget : self.get node.id with
  | some found => exact ⟨found, rfl⟩
  | none =>
    have hnone := List.find?_eq_none.mp hget node hnode
    simp at hnone

theorem mem_ids_of_get (h : self.get id = some node) : id ∈ self.ids := by
  obtain ⟨hmem, rfl⟩ := get_mem h
  exact List.mem_map_of_mem hmem

theorem Closed.of_nodes {other : HnswIndex V} (hnodes : other.nodes = self.nodes)
    (h : self.Closed) : other.Closed :=
  ⟨by rw [ids, hnodes]; exact h.nodup, by rw [ids, hnodes]; exact h.neighbors⟩

theorem links_of_nodes {other : HnswIndex V} (hnodes : other.nodes = self.nodes) :
    other.Links = self.Links := by
  funext a b
  rw [Links, Links, get, get, hnodes]

/-! ## Entry points -/

/-- The id that is pinned, when it is one that counts and is stored, and the first id otherwise. -/
def entryOf (ids : List String) (pinned : Option String) : Option String :=
  match pinned with
  | none => ids.head?
  | some id => if id = "" ∨ id ∉ ids then ids.head? else some id

theorem get_eq_none (h : id ∉ self.ids) : self.get id = none := by
  cases hget : self.get id with
  | none => rfl
  | some node => exact absurd (mem_ids_of_get hget) h

/-- The entry point is picked by the ids alone. -/
theorem pickEntryPoint_id (self : HnswIndex V) :
    self.pickEntryPoint.1.map NodeEntry.id = entryOf self.ids self.entryPointId := by
  have hfirst (hpinned : self.pinned = none) :
      self.pickEntryPoint.1.map NodeEntry.id = self.ids.head? := by
    rw [pickEntryPoint, hpinned, ids, List.head?_map]
    cases self.nodes.head? <;> rfl
  cases hentry : self.entryPointId with
  | none =>
    rw [entryOf]
    exact hfirst (by rw [pinned, hentry])
  | some id =>
    rw [entryOf]
    by_cases hblank : id = ""
    · rw [if_pos (.inl hblank)]
      exact hfirst (by rw [pinned, hentry]; exact if_pos hblank)
    by_cases hmem : id ∈ self.ids
    · obtain ⟨node, hget⟩ := exists_get hmem
      have hpinned : self.pinned = some node := by
        rw [pinned, hentry, ← hget]
        exact if_neg hblank
      rw [if_neg (by simp [hblank, hmem]), pickEntryPoint, hpinned]
      exact congrArg some (get_mem hget).2
    · rw [if_pos (.inr hmem)]
      refine hfirst ?_
      rw [pinned, hentry, ← get_eq_none hmem]
      exact if_neg hblank

/-- Picking the entry point changes no vector and no link. -/
theorem nodes_pickEntryPoint (self : HnswIndex V) :
    self.pickEntryPoint.2.nodes = self.nodes := by
  rw [pickEntryPoint]
  cases self.pinned with
  | some node => rfl
  | none => cases self.nodes.head? <;> rfl

theorem entryOf_mem {ids : List String} {pinned : Option String}
    (h : entryOf ids pinned = some id) : id ∈ ids := by
  cases pinned with
  | none => exact List.mem_of_mem_head? h
  | some other =>
    rw [entryOf] at h
    split at h
    · exact List.mem_of_mem_head? h
    · rename_i hcounts
      cases h
      by_contra hmem
      exact hcounts (.inr hmem)

theorem pickEntryPoint_mem {entry : NodeEntry V} (h : self.pickEntryPoint.1 = some entry) :
    entry.id ∈ self.ids := by
  have hid := pickEntryPoint_id self
  rw [h] at hid
  exact entryOf_mem hid.symm

/-- An index that is not empty has an entry point. -/
theorem exists_entry (h : self.nodes ≠ []) : ∃ entry, self.pickEntryPoint.1 = some entry := by
  rw [pickEntryPoint]
  cases self.pinned with
  | some node => exact ⟨node, rfl⟩
  | none =>
    cases hfirst : self.nodes.head? with
    | none => exact absurd (List.head?_eq_none_iff.mp hfirst) h
    | some first => exact ⟨first, rfl⟩

theorem reached_iff : self.Reached id ↔
    ∃ start, entryOf self.ids self.entryPointId = some start ∧
      Relation.ReflTransGen self.Links start id := by
  rw [← pickEntryPoint_id]
  constructor
  · rintro ⟨entry, hentry, hlinked⟩
    exact ⟨entry.id, by rw [hentry]; rfl, hlinked⟩
  · rintro ⟨start, hstart, hlinked⟩
    obtain ⟨entry, hentry, rfl⟩ := Option.map_eq_some_iff.mp hstart
    exact ⟨entry, hentry, hlinked⟩

/-! ## Exploring -/

/-- What a search has seen, from a starting point. -/
structure Explored (index : HnswIndex V) (start : String) (state : SearchState S) : Prop where
  nodup : state.visited.Nodup
  start_mem : start ∈ state.visited
  linked : ∀ id ∈ state.visited, Relation.ReflTransGen index.Links start id
  stored : ∀ id ∈ state.visited, id ∈ index.ids
  candidates : ∀ item ∈ state.candidates, item.id ∈ state.visited
  best_nodup : (state.best.map SearchResult.id).Nodup
  best : ∀ item ∈ state.best, item.id ∈ state.visited

/-- The number of turns that are left at most. -/
def turns (index : HnswIndex V) (state : SearchState S) : ℕ :=
  index.nodes.length - state.visited.length + state.candidates.length

section

variable {start : String} {state : SearchState S}

theorem Explored.length_le (h : Explored self start state) :
    state.visited.length ≤ self.nodes.length := by
  have hsub := (List.subperm_of_subset h.nodup h.stored).length_le
  rwa [ids, List.length_map] at hsub

/-- The links of a visited vector lead to vectors that are stored and linked. -/
theorem Explored.links (h : Explored self start state) (hclosed : self.Closed)
    (hid : id ∈ state.visited) (hget : self.get id = some node) :
    ∀ b ∈ node.neighbors, b ∈ self.ids ∧ Relation.ReflTransGen self.Links start b :=
  fun b hb => ⟨hclosed.neighbors node (get_mem hget).1 b hb,
    (h.linked id hid).tail ⟨node, hget, hb⟩⟩

/-- A candidate is taken. -/
theorem Explored.take {current : SearchResult S} {candidates : List (SearchResult S)}
    (h : Explored self start state) (hcandidates : state.candidates = current :: candidates) :
    current.id ∈ state.visited ∧ Explored self start { state with candidates } := by
  have hmem := h.candidates
  rw [hcandidates] at hmem
  exact ⟨hmem current List.mem_cons_self, ⟨h.nodup, h.start_mem, h.linked, h.stored,
    fun item hitem => hmem item (List.mem_cons_of_mem _ hitem), h.best_nodup, h.best⟩⟩

/-- An id that is stored and linked is marked as visited. -/
theorem Explored.see (h : Explored self start state) (hnew : id ∉ state.visited)
    (hstored : id ∈ self.ids) (hlinked : Relation.ReflTransGen self.Links start id) :
    Explored self start { state with visited := state.visited ++ [id] } := by
  have hall : ∀ other ∈ state.visited ++ [id],
      Relation.ReflTransGen self.Links start other ∧ other ∈ self.ids := by
    intro other hother
    rcases List.mem_append.mp hother with hother | hother
    · exact ⟨h.linked other hother, h.stored other hother⟩
    · obtain rfl := List.mem_singleton.mp hother
      exact ⟨hlinked, hstored⟩
  refine ⟨?_, List.mem_append_left _ h.start_mem, fun other hother => (hall other hother).1,
    fun other hother => (hall other hother).2,
    fun item hitem => List.mem_append_left _ (h.candidates item hitem), h.best_nodup,
    fun item hitem => List.mem_append_left _ (h.best item hitem)⟩
  rw [List.nodup_append]
  refine ⟨h.nodup, List.nodup_singleton _, fun other hother b hb => ?_⟩
  rintro rfl
  exact hnew (List.mem_singleton.mp hb ▸ hother)

theorem Explored.fresh (h : Explored self start state) (hnew : id ∉ state.visited) :
    id ∉ state.best.map SearchResult.id := by
  intro hmem
  obtain ⟨item, hitem, rfl⟩ := List.mem_map.mp hmem
  exact hnew (h.best item hitem)

theorem turns_take (index : HnswIndex V) {current : SearchResult S}
    {candidates : List (SearchResult S)} (hcandidates : state.candidates = current :: candidates) :
    turns index { state with candidates } + 1 = turns index state := by
  rw [turns, turns, hcandidates]
  rfl

theorem Explored.length_lt (h : Explored self start state) (hstored : id ∈ self.ids)
    (hnew : id ∉ state.visited) : state.visited.length < self.nodes.length := by
  have hlength := (List.subperm_of_subset (List.nodup_cons.mpr ⟨hnew, h.nodup⟩)
    (List.cons_subset.mpr ⟨hstored, h.stored⟩)).length_le
  rwa [ids, List.length_map] at hlength

/-- Every visited id is a result, and its links are followed or it is still to be taken. -/
structure Covered (index : HnswIndex V) (pending : List String) (state : SearchState S) :
    Prop where
  best : (state.best.map SearchResult.id).Perm state.visited
  followed : ∀ a ∈ state.visited, a ∈ pending ∨ a ∈ state.candidates.map SearchResult.id ∨
    ∀ b, index.Links a b → b ∈ state.visited

/-- A walk that ends with nothing left over has seen all that the links lead to. -/
theorem mem_visited_iff (h : Explored self start state) (hcovered : Covered self [] state)
    (hend : state.candidates = [] ∨ self.nodes.length ≤ state.visited.length) :
    id ∈ state.visited ↔ id ∈ self.ids ∧ Relation.ReflTransGen self.Links start id := by
  refine ⟨fun hid => ⟨h.stored id hid, h.linked id hid⟩, ?_⟩
  rintro ⟨hstored, hlinked⟩
  rcases hend with hnone | hfull
  · clear hstored
    induction hlinked with
    | refl => exact h.start_mem
    | tail _ hlink ih =>
      rcases hcovered.followed _ ih with hnil | hcandidate | hfollowed
      · cases hnil
      · rw [hnone] at hcandidate
        cases hcandidate
      · exact hfollowed _ hlink
  · have hperm := (List.subperm_of_subset h.nodup h.stored).perm_of_length_le
      (by rwa [ids, List.length_map])
    exact hperm.mem_iff.mpr hstored

variable [Preorder S] [DecidableLT S] {scoring : Scoring V S} {query : V} {ef k : ℕ}
  {worst : Option S} {neighborId : String}

theorem visit_seen (h : neighborId ∈ state.visited) :
    self.visit scoring query ef worst state neighborId = state := by
  rw [visit, if_pos h]

/-- An id that is new is visited, and it may become a candidate and a result. -/
theorem visit_new (scoring : Scoring V S) (query : V) (ef : ℕ) (worst : Option S)
    (hstored : neighborId ∈ self.ids) (hnew : neighborId ∉ state.visited) :
    ∃ item : SearchResult S, item.id = neighborId ∧
      self.visit scoring query ef worst state neighborId =
        if state.best.length < ef ∨ ∀ w ∈ worst, w < item.score then
          { visited := state.visited ++ [neighborId]
            candidates := pushCandidate state.candidates item
            best := pushBest ef state.best item }
        else { state with visited := state.visited ++ [neighborId] } := by
  obtain ⟨node, hget⟩ := exists_get hstored
  refine ⟨⟨neighborId, scoring.cosine query node.vector⟩, rfl, ?_⟩
  rw [visit, if_neg hnew, hget]

/-- A visited id that is no result becomes a candidate and a result. -/
theorem Explored.push {item : SearchResult S} (h : Explored self start state)
    (hvisited : item.id ∈ state.visited) (hfresh : item.id ∉ state.best.map SearchResult.id) :
    Explored self start { state with
      candidates := pushCandidate state.candidates item
      best := pushBest ef state.best item } := by
  have hbest := pushBest_subperm ef state.best item
  refine ⟨h.nodup, h.start_mem, h.linked, h.stored, fun other hother => ?_, ?_,
    fun other hother => ?_⟩
  · rcases List.mem_cons.mp ((perm_pushCandidate _ _).subset hother) with rfl | hother
    · exact hvisited
    · exact h.candidates other hother
  · obtain ⟨kept, hperm, hsub⟩ := hbest
    have hkept : (kept.map SearchResult.id).Nodup :=
      (hsub.map SearchResult.id).nodup (List.nodup_cons.mpr ⟨hfresh, h.best_nodup⟩)
    exact (hperm.map SearchResult.id).nodup_iff.mp hkept
  · rcases List.mem_cons.mp (hbest.subset hother) with rfl | hother
    · exact hvisited
    · exact h.best other hother

theorem Explored.visit (h : Explored self start state) (hstored : neighborId ∈ self.ids)
    (hlinked : Relation.ReflTransGen self.Links start neighborId) :
    Explored self start (self.visit scoring query ef worst state neighborId) := by
  by_cases hseen : neighborId ∈ state.visited
  · rw [visit_seen hseen]
    exact h
  obtain ⟨item, rfl, heq⟩ := visit_new scoring query ef worst hstored hseen
  have hsee := h.see hseen hstored hlinked
  rw [heq]
  split
  · exact hsee.push (List.mem_append_right _ (List.mem_singleton.mpr rfl)) (h.fresh hseen)
  · exact hsee

theorem Explored.foldl_visit {neighbors : List String}
    (hlinks : ∀ b ∈ neighbors, b ∈ self.ids ∧ Relation.ReflTransGen self.Links start b)
    (h : Explored self start state) :
    Explored self start (neighbors.foldl (self.visit scoring query ef worst) state) := by
  induction neighbors generalizing state with
  | nil => exact h
  | cons b neighbors ih =>
    obtain ⟨hstored, hlinked⟩ := hlinks b List.mem_cons_self
    exact ih (fun c hc => hlinks c (List.mem_cons_of_mem _ hc)) (h.visit hstored hlinked)

/-- A visited id takes the turn of its candidate from those of the ids that are not visited. -/
theorem turns_visit (scoring : Scoring V S) (query : V) (ef : ℕ) (worst : Option S)
    (h : Explored self start state) (hstored : neighborId ∈ self.ids) :
    turns self (self.visit scoring query ef worst state neighborId) ≤ turns self state := by
  by_cases hseen : neighborId ∈ state.visited
  · rw [visit_seen hseen]
  obtain ⟨item, rfl, heq⟩ := visit_new scoring query ef worst hstored hseen
  have hlength := h.length_lt hstored hseen
  rw [heq]
  split
  · simp only [turns, List.length_append, List.length_singleton, length_pushCandidate]
    omega
  · simp only [turns, List.length_append, List.length_singleton]
    omega

theorem turns_foldl_visit (scoring : Scoring V S) (query : V) (ef : ℕ) (worst : Option S)
    {neighbors : List String}
    (hlinks : ∀ b ∈ neighbors, b ∈ self.ids ∧ Relation.ReflTransGen self.Links start b)
    (h : Explored self start state) :
    turns self (neighbors.foldl (self.visit scoring query ef worst) state) ≤ turns self state := by
  induction neighbors generalizing state with
  | nil => exact le_rfl
  | cons b neighbors ih =>
    obtain ⟨hstored, hlinked⟩ := hlinks b List.mem_cons_self
    exact (ih (fun c hc => hlinks c (List.mem_cons_of_mem _ hc)) (h.visit hstored hlinked)).trans
      (turns_visit scoring query ef worst h hstored)

/-- A search only sees what the links lead to. -/
theorem Explored.searchLoop (hclosed : self.Closed) {fuel : ℕ} (h : Explored self start state) :
    Explored self start (self.searchLoop scoring query ef fuel state) := by
  induction fuel generalizing state with
  | zero => exact h
  | succ fuel ih =>
    rw [HnswIndex.searchLoop]
    cases hcandidates : state.candidates with
    | nil => exact h
    | cons current candidates =>
      obtain ⟨hcurrent, htaken⟩ := h.take hcandidates
      dsimp only
      split
      · split
        · exact htaken
        · cases hget : self.get current.id with
          | none => exact ih htaken
          | some node => exact ih (htaken.foldl_visit (h.links hclosed hcurrent hget))
      · exact h

/-- The loop ends before its turns run out. -/
theorem searchLoop_succ (hclosed : self.Closed) {fuel : ℕ} (h : Explored self start state)
    (hfuel : turns self state ≤ fuel) :
    self.searchLoop scoring query ef (fuel + 1) state =
      self.searchLoop scoring query ef fuel state := by
  induction fuel generalizing state with
  | zero =>
    have hnone : state.candidates = [] := by
      refine List.eq_nil_of_length_eq_zero ?_
      rw [turns] at hfuel
      exact Nat.eq_zero_of_le_zero ((Nat.le_add_left _ _).trans hfuel)
    rw [HnswIndex.searchLoop, HnswIndex.searchLoop, hnone]
  | succ fuel ih =>
    rw [HnswIndex.searchLoop, HnswIndex.searchLoop]
    cases hcandidates : state.candidates with
    | nil => rfl
    | cons current candidates =>
      obtain ⟨hcurrent, htaken⟩ := h.take hcandidates
      have htake := turns_take self hcandidates
      obtain ⟨node, hget⟩ := exists_get (h.stored _ hcurrent)
      have hlinks := h.links hclosed hcurrent hget
      have hturns := turns_foldl_visit scoring query ef
        (state.best.getLast?.map SearchResult.score) hlinks htaken
      dsimp only
      rw [hget]
      dsimp only
      rw [ih (htaken.foldl_visit hlinks) (by omega)]

/-! ## Searching with room for all -/

variable {pending : List String}

/-- A new id is pushed when there is room for all. -/
theorem visit_room (scoring : Scoring V S) (query : V) (worst : Option S)
    (hroom : self.nodes.length ≤ ef) (h : Explored self start state)
    (hcovered : Covered self pending state)
    (hstored : neighborId ∈ self.ids) (hnew : neighborId ∉ state.visited) :
    ∃ item : SearchResult S, item.id = neighborId ∧
      self.visit scoring query ef worst state neighborId =
        { visited := state.visited ++ [neighborId]
          candidates := pushCandidate state.candidates item
          best := pushBest ef state.best item } ∧
      state.best.length < ef := by
  have hless : state.best.length < ef := by
    have hlength := h.length_lt hstored hnew
    have hbest := hcovered.best.length_eq
    rw [List.length_map] at hbest
    omega
  obtain ⟨item, hid, heq⟩ := visit_new scoring query ef worst hstored hnew
  exact ⟨item, hid, by rw [heq, if_pos (.inl hless)], hless⟩

theorem Covered.visit (scoring : Scoring V S) (query : V) (worst : Option S)
    (hroom : self.nodes.length ≤ ef) (h : Explored self start state)
    (hcovered : Covered self pending state) (hstored : neighborId ∈ self.ids) :
    Covered self pending (self.visit scoring query ef worst state neighborId) ∧
      neighborId ∈ (self.visit scoring query ef worst state neighborId).visited ∧
      state.visited ⊆ (self.visit scoring query ef worst state neighborId).visited := by
  by_cases hseen : neighborId ∈ state.visited
  · rw [visit_seen hseen]
    exact ⟨hcovered, hseen, fun _ ha => ha⟩
  obtain ⟨item, rfl, heq, hless⟩ := visit_room scoring query worst hroom h hcovered hstored hseen
  rw [heq]
  refine ⟨⟨?_, fun a ha => ?_⟩, List.mem_append_right _ (List.mem_singleton.mpr rfl),
    List.subset_append_left _ _⟩
  · refine ((perm_pushBest hless item).map SearchResult.id).trans ?_
    exact (hcovered.best.cons item.id).trans (List.perm_append_singleton _ _).symm
  · have hpushed := (perm_pushCandidate state.candidates item).map SearchResult.id
    rcases List.mem_append.mp ha with ha | ha
    · rcases hcovered.followed a ha with hpending | hcandidate | hfollowed
      · exact .inl hpending
      · exact .inr (.inl (hpushed.mem_iff.mpr (List.mem_cons_of_mem _ hcandidate)))
      · exact .inr (.inr fun b hb => List.mem_append_left _ (hfollowed b hb))
    · obtain rfl := List.mem_singleton.mp ha
      exact .inr (.inl (hpushed.mem_iff.mpr List.mem_cons_self))

theorem Covered.foldl_visit (scoring : Scoring V S) (query : V) (worst : Option S)
    {neighbors : List String} (hroom : self.nodes.length ≤ ef)
    (hlinks : ∀ b ∈ neighbors, b ∈ self.ids ∧ Relation.ReflTransGen self.Links start b)
    (h : Explored self start state) (hcovered : Covered self pending state) :
    Covered self pending (neighbors.foldl (self.visit scoring query ef worst) state) ∧
      neighbors ++ state.visited ⊆
        (neighbors.foldl (self.visit scoring query ef worst) state).visited := by
  induction neighbors generalizing state with
  | nil => exact ⟨hcovered, fun _ ha => ha⟩
  | cons b neighbors ih =>
    obtain ⟨hstored, hlinked⟩ := hlinks b List.mem_cons_self
    obtain ⟨hvisit, hb, hsub⟩ :=
      hcovered.visit scoring query worst hroom h hstored
    obtain ⟨hall, hmem⟩ := ih (fun c hc => hlinks c (List.mem_cons_of_mem _ hc))
      (h.visit hstored hlinked) hvisit
    refine ⟨hall, fun c hc => hmem ?_⟩
    rcases List.mem_cons.mp hc with rfl | hc
    · exact List.mem_append_right _ hb
    · rcases List.mem_append.mp hc with hc | hc
      · exact List.mem_append_left _ hc
      · exact List.mem_append_right _ (hsub hc)

/-- With room for all no id is left over when the loop ends. -/
theorem Covered.searchLoop (hclosed : self.Closed) (hroom : self.nodes.length ≤ ef) {fuel : ℕ}
    (h : Explored self start state) (hcovered : Covered self [] state)
    (hfuel : turns self state ≤ fuel) :
    let final := self.searchLoop scoring query ef fuel state
    Covered self [] final ∧
      (final.candidates = [] ∨ self.nodes.length ≤ final.visited.length) := by
  induction fuel generalizing state with
  | zero =>
    refine ⟨hcovered, .inl (List.eq_nil_of_length_eq_zero ?_)⟩
    rw [turns] at hfuel
    exact Nat.eq_zero_of_le_zero ((Nat.le_add_left _ _).trans hfuel)
  | succ fuel ih =>
    dsimp only
    rw [HnswIndex.searchLoop]
    cases hcandidates : state.candidates with
    | nil => exact ⟨hcovered, .inl hcandidates⟩
    | cons current candidates =>
      dsimp only
      by_cases hleft : state.visited.length < self.nodes.length
      · have hlength := hcovered.best.length_eq
        rw [List.length_map] at hlength
        rw [if_pos hleft, if_neg (fun hbreak => by omega)]
        obtain ⟨hcurrent, htaken⟩ := h.take hcandidates
        obtain ⟨node, hget⟩ := exists_get (h.stored _ hcurrent)
        rw [hget]
        have hpending : Covered self [current.id] { state with candidates } := by
          refine ⟨hcovered.best, fun a ha => ?_⟩
          rcases hcovered.followed a ha with hnil | hcandidate | hfollowed
          · cases hnil
          · rw [hcandidates] at hcandidate
            rcases List.mem_cons.mp hcandidate with rfl | hcandidate
            · exact .inl (List.mem_singleton.mpr rfl)
            · exact .inr (.inl hcandidate)
          · exact .inr (.inr hfollowed)
        have hlinks := h.links hclosed hcurrent hget
        obtain ⟨hall, hmem⟩ :=
          hpending.foldl_visit scoring query
            (state.best.getLast?.map SearchResult.score) hroom hlinks htaken
        refine ih (htaken.foldl_visit hlinks) ⟨hall.best, fun a ha => ?_⟩ ?_
        · rcases hall.followed a ha with hcurrent | hother
          · obtain rfl := List.mem_singleton.mp hcurrent
            refine .inr (.inr fun b hb => ?_)
            obtain ⟨found, hfound, hb⟩ := hb
            rw [hget] at hfound
            cases hfound
            exact hmem (List.mem_append_left _ hb)
          · exact .inr hother
        · have hturns := turns_foldl_visit scoring query ef
            (state.best.getLast?.map SearchResult.score) hlinks htaken
          have htake := turns_take self hcandidates
          omega
      · rw [if_neg hleft]
        exact ⟨hcovered, .inr (Nat.le_of_not_lt hleft)⟩

/-! ## Results -/

/-- The state in which the loop starts. -/
def seeded (ef : ℕ) (seed : SearchResult S) : SearchState S where
  visited := [seed.id]
  candidates := [seed]
  best := pushBest ef [] seed

theorem explored_seeded (ef : ℕ) {seed : SearchResult S} (hstored : seed.id ∈ self.ids) :
    Explored self seed.id (seeded ef seed) := by
  have hbase : Explored self seed.id
      { visited := [seed.id], candidates := [], best := ([] : List (SearchResult S)) } := by
    refine ⟨List.nodup_singleton _, List.mem_singleton.mpr rfl, fun id hid => ?_, fun id hid => ?_,
      fun item hitem => ?_, List.nodup_nil, fun item hitem => ?_⟩
    · rw [List.mem_singleton.mp hid]
    · rwa [List.mem_singleton.mp hid]
    · cases hitem
    · cases hitem
  exact hbase.push (List.mem_singleton.mpr rfl) List.not_mem_nil

theorem covered_seeded {seed : SearchResult S} (hroom : 0 < ef) :
    Covered self [] (seeded ef seed) := by
  refine ⟨(perm_pushBest hroom seed).map SearchResult.id, fun a ha => .inr (.inl ?_)⟩
  exact ha

/-- There is a turn for every vector, and a search needs no more. -/
theorem searchLoop_enough (hclosed : self.Closed) {seed : SearchResult S}
    (hstored : seed.id ∈ self.ids) {fuel : ℕ} (hfuel : self.nodes.length ≤ fuel) :
    self.searchLoop scoring query ef fuel (seeded ef seed) =
      self.searchLoop scoring query ef self.nodes.length (seeded ef seed) := by
  have hexplored := explored_seeded ef hstored
  have hturns : turns self (seeded ef seed) = self.nodes.length :=
    Nat.sub_add_cancel hexplored.length_le
  induction fuel, hfuel using Nat.le_induction with
  | base => rfl
  | succ fuel hle ih => rw [searchLoop_succ hclosed hexplored (hturns.trans_le hle), ih]

/-- The results are those of the loop from the entry point. -/
theorem searchInternal_eq (scoring : Scoring V S) (query : V) (k : ℕ) {entry : NodeEntry V}
    (h : self.pickEntryPoint.1 = some entry) :
    ∃ seed : SearchResult S, seed.id = entry.id ∧
      (self.searchInternal scoring query k).1 =
        (self.pickEntryPoint.2.searchLoop scoring query (max k self.efSearch) self.nodes.length
          (seeded (max k self.efSearch) seed)).best.take k := by
  have hnodes : self.nodes ≠ [] := by
    intro hnil
    have hmem := pickEntryPoint_mem h
    rw [ids, hnil] at hmem
    cases hmem
  refine ⟨⟨entry.id, scoring.cosine query entry.vector⟩, rfl, ?_⟩
  have hpick : self.pickEntryPoint = (some entry, self.pickEntryPoint.2) := by rw [← h]
  rw [searchInternal, if_neg hnodes, hpick, ← nodes_pickEntryPoint]
  rfl

/-- A search changes the entry point that is pinned at most. -/
theorem searchInternal_snd (scoring : Scoring V S) (query : V) (k : ℕ) :
    (self.searchInternal scoring query k).2 = self.pickEntryPoint.2 := by
  rw [searchInternal]
  by_cases hnodes : self.nodes = []
  · have hpinned : self.pinned = none := by
      rw [pinned]
      cases self.entryPointId with
      | none => rfl
      | some id =>
        dsimp only
        rw [get, hnodes]
        exact ite_self none
    rw [if_pos hnodes, pickEntryPoint, hpinned, hnodes]
    rfl
  · obtain ⟨entry, hentry⟩ := exists_entry hnodes
    have hpick : self.pickEntryPoint = (some entry, self.pickEntryPoint.2) := by rw [← hentry]
    rw [if_neg hnodes, hpick]

theorem searchInternal_nil (scoring : Scoring V S) (query : V) (k : ℕ) (h : self.nodes = []) :
    (self.searchInternal scoring query k).1 = [] := by
  rw [searchInternal, if_pos h]

/-- What the walk of a search ends with. -/
theorem exists_walk (hclosed : self.Closed) (scoring : Scoring V S) (query : V) (k : ℕ)
    {entry : NodeEntry V} (hentry : self.pickEntryPoint.1 = some entry) :
    ∃ final : SearchState S,
      (self.searchInternal scoring query k).1 = final.best.take k ∧
      Explored self.pickEntryPoint.2 entry.id final ∧
      (self.nodes.length ≤ k → Covered self.pickEntryPoint.2 [] final ∧
        (final.candidates = [] ∨ self.nodes.length ≤ final.visited.length)) := by
  obtain ⟨seed, hseed, heq⟩ := searchInternal_eq scoring query k hentry
  have hsame := nodes_pickEntryPoint self
  have hclosed' := hclosed.of_nodes hsame
  have hstored : seed.id ∈ self.pickEntryPoint.2.ids := by
    rw [ids, hsame, hseed]
    exact pickEntryPoint_mem hentry
  have hexplored := explored_seeded (max k self.efSearch) hstored
  have hpositive := hexplored.length_le
  refine ⟨_, heq, hseed ▸ hexplored.searchLoop hclosed', fun hroom => ?_⟩
  rw [← hsame] at hroom ⊢
  have hef := hroom.trans (Nat.le_max_left k self.efSearch)
  refine (covered_seeded (hpositive.trans hef)).searchLoop hclosed' hef hexplored ?_
  rw [turns]
  exact (Nat.sub_add_cancel hpositive).le

/-- The results are stored, and none is there twice. -/
theorem searchInternal_results (hclosed : self.Closed) (scoring : Scoring V S) (query : V)
    (k : ℕ) :
    (∀ item ∈ (self.searchInternal scoring query k).1, item.id ∈ self.ids) ∧
      ((self.searchInternal scoring query k).1.map SearchResult.id).Nodup := by
  by_cases hnodes : self.nodes = []
  · rw [searchInternal_nil scoring query k hnodes]
    exact ⟨fun item hitem => absurd hitem List.not_mem_nil, List.nodup_nil⟩
  obtain ⟨entry, hentry⟩ := exists_entry hnodes
  obtain ⟨final, heq, hfinal, -⟩ := exists_walk hclosed scoring query k hentry
  rw [heq]
  refine ⟨fun item hitem => ?_, ((List.take_sublist _ _).map _).nodup hfinal.best_nodup⟩
  have hmem := hfinal.stored _ (hfinal.best item (List.mem_of_mem_take hitem))
  rwa [ids, nodes_pickEntryPoint] at hmem

/-- **What a search finds.** With room for all a search finds the vectors that the links lead to
from the entry point. -/
theorem searchInternal_room (hclosed : self.Closed) (scoring : Scoring V S) (query : V)
    (hroom : self.nodes.length ≤ k) :
    id ∈ (self.searchInternal scoring query k).1.map SearchResult.id ↔
      id ∈ self.ids ∧ self.Reached id := by
  by_cases hnodes : self.nodes = []
  · rw [searchInternal_nil scoring query k hnodes, ids, hnodes]
    exact ⟨fun hmem => absurd hmem List.not_mem_nil, fun h => absurd h.1 List.not_mem_nil⟩
  obtain ⟨entry, hentry⟩ := exists_entry hnodes
  obtain ⟨final, heq, hfinal, hwalk⟩ := exists_walk hclosed scoring query k hentry
  obtain ⟨hcovered, hend⟩ := hwalk hroom
  have hsame := nodes_pickEntryPoint self
  have hlength := hcovered.best.length_eq
  rw [List.length_map] at hlength
  have hle := hfinal.length_le
  rw [hsame] at hle
  rw [heq, List.take_of_length_le (by omega), hcovered.best.mem_iff,
    mem_visited_iff hfinal hcovered (by rwa [hsame]), ids, hsame, links_of_nodes hsame]
  refine and_congr_right fun _ => ⟨fun hlinked => ⟨entry, hentry, hlinked⟩, ?_⟩
  rintro ⟨other, hother, hlinked⟩
  rw [hentry] at hother
  cases hother
  exact hlinked

end

end HnswIndex

end MemphisOS.Embedding
