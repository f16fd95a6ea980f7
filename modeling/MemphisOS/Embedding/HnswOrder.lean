import MemphisOS.Embedding.HnswRuns

/-!
# Bounds and order of the index

After any calls the lists of neighbours are trimmed and the entry point is stored, and a search
keeps its results in the order of their scores. Scores are compared by any total preorder.
-/

namespace MemphisOS.Embedding

variable {V S : Type}

/-! ## Sorted results -/

section Results

variable [Preorder S]

/-- No result is followed by one with a higher score. -/
def Descending (items : List (SearchResult S)) : Prop :=
  items.Pairwise fun a b => b.score ≤ a.score

variable {items : List (SearchResult S)} {score : S}

theorem le_of_not_higher [Std.Total (α := S) (· ≤ ·)] {a b : S} (h : ¬ a < b) : b ≤ a := by
  have htotal : b ≤ a ∨ a ≤ b := Std.Total.total b a
  rcases htotal with hle | hle
  · exact hle
  · by_contra hnot
    exact h (lt_of_le_not_ge hle hnot)

/-- What is left of `lo` is at least the score, and what is right of `hi` is below it. -/
structure Between (items : List (SearchResult S)) (score : S) (lo hi : ℕ) : Prop where
  le : lo ≤ hi
  length : hi ≤ items.length
  left : ∀ item ∈ items.take lo, score ≤ item.score
  right : ∀ item ∈ items.drop hi, item.score < score

/-- The half that is searched on still holds the place of the score. -/
theorem Between.higher (hsorted : Descending items) {lo hi mid : ℕ}
    (h : Between items score lo hi) (hlo : lo ≤ mid) (hmid : mid < items.length)
    (hhigher : items[mid].score < score) : Between items score lo mid := by
  refine ⟨hlo, hmid.le, h.left, fun item hitem => ?_⟩
  have hrest : Descending (items.drop mid) := hsorted.sublist (List.drop_sublist _ _)
  rw [List.drop_eq_getElem_cons hmid] at hitem hrest
  rcases List.mem_cons.mp hitem with rfl | hitem
  · exact hhigher
  · exact ((List.pairwise_cons.mp hrest).1 item hitem).trans_lt hhigher

theorem Between.stop {lo hi : ℕ} (h : Between items score lo hi) (hle : hi ≤ lo) :
    Between items score lo lo := by
  obtain rfl := Nat.le_antisymm h.le hle
  exact h

variable [Std.Total (α := S) (· ≤ ·)]

theorem Between.lower (hsorted : Descending items) {lo hi mid : ℕ}
    (h : Between items score lo hi) (hhi : mid < hi) (hmid : mid < items.length)
    (hlower : ¬ items[mid].score < score) : Between items score (mid + 1) hi := by
  refine ⟨hhi, h.length, fun item hitem => ?_, h.right⟩
  have hbefore : Descending (items.take (mid + 1)) := hsorted.sublist (List.take_sublist _ _)
  rw [← List.take_append_getElem hmid] at hitem hbefore
  have hscore := le_of_not_higher hlower
  rcases List.mem_append.mp hitem with hitem | hitem
  · exact hscore.trans ((List.pairwise_append.mp hbefore).2.2 item hitem _
      (List.mem_singleton.mpr rfl))
  · rw [List.mem_singleton.mp hitem]
    exact hscore

variable [DecidableLT S]

theorem Between.findInsertIndex (hsorted : Descending items) {fuel lo hi : ℕ}
    (h : Between items score lo hi) (hfuel : hi - lo ≤ fuel) :
    Between items score (findInsertIndex items score fuel lo hi)
      (findInsertIndex items score fuel lo hi) := by
  induction fuel generalizing lo hi with
  | zero => exact h.stop (Nat.le_of_sub_eq_zero (Nat.le_zero.mp hfuel))
  | succ fuel ih =>
    rw [Embedding.findInsertIndex]
    split
    · rename_i hlt
      have hlength := h.length
      have hmid : (lo + hi) / 2 < items.length := by omega
      dsimp only
      rw [List.getElem?_eq_getElem hmid]
      dsimp only
      split
      · rename_i hhigher
        exact ih (h.higher hsorted (by omega) hmid hhigher) (by omega)
      · rename_i hlower
        exact ih (h.lower hsorted (by omega) hmid hlower) (by omega)
    · rename_i hge
      exact h.stop (Nat.le_of_not_lt hge)

/-- The binary search finds the place behind the scores that are at least as high. -/
theorem between_findInsertIndexDesc (hsorted : Descending items) :
    Between items score (findInsertIndexDesc items score) (findInsertIndexDesc items score) := by
  have hstart : Between items score 0 items.length := by
    refine ⟨Nat.zero_le _, le_rfl, fun item hitem => ?_, fun item hitem => ?_⟩
    · cases hitem
    · rw [List.drop_length] at hitem
      cases hitem
  exact hstart.findInsertIndex hsorted (Nat.sub_le _ _)

theorem descending_pushCandidate (hsorted : Descending items) (candidate : SearchResult S) :
    Descending (pushCandidate items candidate) := by
  have hplace : Between items candidate.score (findInsertIndexDesc items candidate.score)
      (findInsertIndexDesc items candidate.score) := between_findInsertIndexDesc hsorted
  rw [pushCandidate]
  set idx := findInsertIndexDesc items candidate.score
  have hsplit : Descending (items.take idx ++ items.drop idx) := by
    rwa [List.take_append_drop]
  obtain ⟨htake, hdrop, hacross⟩ := List.pairwise_append.mp hsplit
  refine List.pairwise_append.mpr ⟨htake, List.pairwise_cons.mpr ⟨fun item hitem => ?_, hdrop⟩,
    fun a ha b hb => ?_⟩
  · exact (hplace.right item hitem).le
  · rcases List.mem_cons.mp hb with rfl | hb
    · exact hplace.left a ha
    · exact hacross a ha b hb

theorem descending_pushBest (ef : ℕ) (hsorted : Descending items) (candidate : SearchResult S) :
    Descending (pushBest ef items candidate) := by
  have hpushed := descending_pushCandidate hsorted candidate
  rw [pushBest]
  split
  · exact hpushed.sublist (List.dropLast_sublist _)
  · exact hpushed

end Results

namespace HnswIndex

variable {self : HnswIndex V} {id : String} {node : NodeEntry V}

/-! ## Order of a search -/

section Search

variable [Preorder S] [DecidableLT S] [Std.Total (α := S) (· ≤ ·)] (scoring : Scoring V S)
  (query : V) {ef : ℕ} {worst : Option S} {state : SearchState S}

theorem descending_visit (h : Descending state.best) (neighborId : String) :
    Descending (self.visit scoring query ef worst state neighborId).best := by
  rw [visit]
  split
  · exact h
  · cases self.get neighborId with
    | none => exact h
    | some neighbor =>
      dsimp only
      split
      · exact descending_pushBest ef h _
      · exact h

theorem descending_foldl_visit (h : Descending state.best) (neighbors : List String) :
    Descending (neighbors.foldl (self.visit scoring query ef worst) state).best := by
  induction neighbors generalizing state with
  | nil => exact h
  | cons b neighbors ih => exact ih (descending_visit scoring query h b)

theorem descending_searchLoop (fuel : ℕ) (h : Descending state.best) :
    Descending (self.searchLoop scoring query ef fuel state).best := by
  induction fuel generalizing state with
  | zero => exact h
  | succ fuel ih =>
    rw [searchLoop]
    cases state.candidates with
    | nil => exact h
    | cons current candidates =>
      dsimp only
      split
      · split
        · exact h
        · cases self.get current.id with
          | none => exact ih h
          | some node =>
            have htaken : Descending ({ state with candidates } : SearchState S).best := h
            exact ih (descending_foldl_visit scoring query htaken node.neighbors)
      · exact h

/-- The results of a search are at most `k`, in the order of their scores. -/
theorem searchInternal_order (self : HnswIndex V) (scoring : Scoring V S) (query : V) (k : ℕ) :
    (self.searchInternal scoring query k).1.length ≤ k ∧
      Descending (self.searchInternal scoring query k).1 := by
  rw [searchInternal]
  split
  · exact ⟨Nat.zero_le k, List.Pairwise.nil⟩
  · cases self.pickEntryPoint with
    | mk entry picked =>
      cases entry with
      | none => exact ⟨Nat.zero_le k, List.Pairwise.nil⟩
      | some entry =>
        refine ⟨List.length_take_le _ _, List.Pairwise.sublist (List.take_sublist _ _) ?_⟩
        exact descending_searchLoop scoring query _
          (descending_pushBest _ (List.Pairwise.nil) _)

end Search

/-! ## Lists of neighbours -/

/-- No list is longer than its bound. -/
def Bounded (index : HnswIndex V) : Prop :=
  ∀ node ∈ index.nodes, node.neighbors.length ≤ index.maxNeighbors

theorem Bounded.modify {change : NodeEntry V → NodeEntry V} (h : self.Bounded)
    (hchange : ∀ node ∈ self.nodes, (change node).neighbors.length ≤ self.maxNeighbors) :
    (self.modify id change).Bounded := by
  intro changed hchanged
  rcases mem_nodes_modify hchanged with ⟨hnode, -⟩ | ⟨node, hnode, -, rfl⟩
  · exact h changed hnode
  · exact hchange node hnode

section Trim

variable [Preorder S] [DecidableLE S] (scoring : Scoring V S)

theorem trimNeighbors_length (node : NodeEntry V) :
    (self.trimNeighbors scoring node).neighbors.length ≤ self.maxNeighbors := by
  rw [trimNeighbors]
  split
  · rename_i hshort
    exact hshort
  · dsimp only
    rw [List.length_map]
    exact List.length_take_le _ _

theorem bounded_linkBack (h : self.Bounded) (a : String) :
    (linkBack scoring id self a).Bounded := by
  cases hget : self.get a with
  | none =>
    rw [linkBack, hget]
    exact h
  | some neighbor =>
    rw [linkBack_eq scoring hget]
    exact h.modify fun _ _ => trimNeighbors_length scoring _

theorem bounded_foldl (h : self.Bounded) (items : List String) :
    (items.foldl (linkBack scoring id) self).Bounded := by
  induction items generalizing self with
  | nil => exact h
  | cons a items ih => exact ih (bounded_linkBack scoring h a)

end Trim

section Steps

variable [Preorder S] [DecidableLT S] (scoring : Scoring V S)

theorem bounded_relink (vector : V) (h : self.Ready) (hbounded : self.Bounded) :
    (self.relink scoring id vector).Bounded := by
  rw [relink_eq scoring vector h.tidy h.anchored]
  have hmoved : (self.moved id (scoring.normalize vector)).Bounded :=
    hbounded.modify fun node hnode => hbounded node hnode
  refine hmoved.modify fun _ _ => ?_
  dsimp only
  rw [nearest, List.length_map]
  exact List.length_take_le _ _

variable [Std.Total (α := S) (· ≤ ·)] [DecidableLE S]

/-- The edges that are added in both directions are trimmed on both sides. -/
theorem bounded_insert (vector : V) (h : self.Ready) (hbounded : self.Bounded) :
    (self.insert scoring id vector).Bounded := by
  rw [insert_eq h.tidy h.anchored]
  dsimp only
  set nearest := self.found scoring (scoring.normalize vector) self.maxNeighbors with hnearest
  have hlength : nearest.length ≤ self.maxNeighbors := by
    rw [hnearest, found, List.length_map]
    exact (self.searchInternal_order scoring _ _).1
  have hjoined : (self.joined id (scoring.normalize vector) nearest).Bounded := by
    intro node hnode
    rcases List.mem_append.mp hnode with hnode | hnode
    · exact hbounded node hnode
    · rw [List.mem_singleton.mp hnode]
      exact hlength
  exact (bounded_foldl scoring hjoined nearest).modify fun node _ =>
    trimNeighbors_length scoring node

theorem bounded_next (h : self.Ready) (hbounded : self.Bounded) (c : IndexCall V) :
    (self.next scoring c).Bounded := by
  rw [next_eq]
  split
  · split
    · exact bounded_relink scoring c.vector h hbounded
    · exact bounded_insert scoring c.vector h hbounded
  · exact hbounded

theorem bounded_after (h : self.Ready) (hbounded : self.Bounded) (calls : List (IndexCall V)) :
    (self.after scoring calls).Bounded := by
  induction calls using List.reverseRecOn with
  | nil => exact hbounded
  | append_singleton calls c ih =>
    rw [after_concat]
    exact bounded_next scoring (h.after scoring calls) ih c

end Steps

/-! ## What holds after any calls -/

/-- The graph of an index. -/
structure WellLinked (index : HnswIndex V) : Prop where
  nodup : index.ids.Nodup
  bounded : ∀ node ∈ index.nodes, node.neighbors.length ≤ index.maxNeighbors
  neighbors_nodup : ∀ node ∈ index.nodes, node.neighbors.Nodup
  stored : ∀ node ∈ index.nodes, node.neighbors ⊆ index.ids
  not_mem_self : ∀ node ∈ index.nodes, node.id ∉ node.neighbors
  /-- An index that holds vectors pins the id of one of them. -/
  pinned : index.nodes ≠ [] → ∃ id ∈ index.ids, index.entryPointId = some id
  /-- A search starts from a vector that is stored. -/
  picked : index.nodes ≠ [] →
    ∃ entry ∈ index.nodes, index.pickEntryPoint = (some entry, index)

theorem pickEntryPoint_stored {entry : NodeEntry V} (h : self.pickEntryPoint.1 = some entry) :
    entry ∈ self.nodes := by
  rw [pickEntryPoint] at h
  cases hpinned : self.pinned with
  | some node =>
    rw [hpinned] at h
    cases h
    rw [HnswIndex.pinned] at hpinned
    cases hentry : self.entryPointId with
    | none =>
      rw [hentry] at hpinned
      cases hpinned
    | some id =>
      rw [hentry] at hpinned
      dsimp only at hpinned
      split at hpinned
      · cases hpinned
      · exact (get_mem hpinned).1
  | none =>
    rw [hpinned] at h
    cases hfirst : self.nodes.head? with
    | none =>
      rw [hfirst] at h
      cases h
    | some first =>
      rw [hfirst] at h
      cases h
      exact List.mem_of_mem_head? hfirst

theorem Ready.wellLinked (h : self.Ready) (hbounded : self.Bounded) : self.WellLinked := by
  refine ⟨h.tidy.nodup, hbounded, h.tidy.neighbors_nodup, h.tidy.stored, h.tidy.not_mem_self,
    fun hnodes => ?_, fun hnodes => ?_⟩
  · cases h.anchored with
    | empty hnil _ => exact absurd hnil hnodes
    | blank hids hentry => exact ⟨"", hids ▸ List.mem_singleton.mpr rfl, hentry⟩
    | @pinned id _ hmem hentry => exact ⟨id, hmem, hentry⟩
  · obtain ⟨entry, hentry⟩ := exists_entry hnodes
    exact ⟨entry, pickEntryPoint_stored hentry, Prod.ext hentry h.anchored.pick⟩

variable [Preorder S] [DecidableLT S]

/-- A search of an index. -/
structure SearchesWell (index : HnswIndex V) (scoring : Scoring V S) : Prop where
  /-- At most `k` different ids that are stored, in the order of their scores. -/
  results : ∀ query k results searched, index.search scoring query k = .ok (results, searched) →
    results.length ≤ k ∧ (results.map SearchResult.id).Nodup ∧
      (∀ item ∈ results, item.id ∈ index.ids) ∧ Descending results ∧ searched = index
  /-- The loop ends within a turn for every vector, and visits none twice. -/
  visits : ∀ (query : V) (ef : ℕ) (seed : SearchResult S), seed.id ∈ index.ids →
    ∀ turns, index.nodes.length ≤ turns →
      let final := index.searchLoop scoring query ef turns (seeded ef seed)
      final = index.searchLoop scoring query ef index.nodes.length (seeded ef seed) ∧
        final.visited.Nodup ∧ final.visited ⊆ index.ids

theorem Ready.searchesWell [Std.Total (α := S) (· ≤ ·)] (h : self.Ready)
    (scoring : Scoring V S) : self.SearchesWell scoring := by
  refine ⟨fun query k results searched hsearch => ?_,
    fun query ef seed hseed turns hturns => ?_⟩
  · rw [search, assertVector] at hsearch
    split at hsearch
    · have heq : self.searchInternal scoring (scoring.normalize query) k = (results, searched) :=
        Except.ok.inj hsearch
      obtain ⟨hlength, hsorted⟩ := self.searchInternal_order scoring (scoring.normalize query) k
      obtain ⟨hstored, hnodup⟩ :=
        searchInternal_results h.tidy.closed scoring (scoring.normalize query) k
      have hself := searchInternal_self h.anchored scoring (scoring.normalize query) k
      rw [heq] at hlength hsorted hstored hnodup hself
      exact ⟨hlength, hnodup, hstored, hsorted, hself⟩
    · cases hsearch
  · have hexplored : Explored self seed.id
        (self.searchLoop scoring query ef turns (seeded ef seed)) :=
      (explored_seeded ef hseed).searchLoop h.tidy.closed
    exact ⟨searchLoop_enough h.tidy.closed hseed hturns, hexplored.nodup, hexplored.stored⟩

/-- **The graph of the index.** After any calls no list of neighbours is longer than its bound, it
holds other ids that are stored, and a search returns at most `k` different ids that are stored,
in the order of their scores. -/
theorem sound_after [Std.Total (α := S) (· ≤ ·)] [DecidableLE S] (scoring : Scoring V S)
    (dimensions : ℕ) (maxNeighbors efSearch : Option ℕ) (calls : List (IndexCall V)) :
    let index := (new dimensions maxNeighbors efSearch : HnswIndex V).after scoring calls
    index.maxNeighbors = max 2 (maxNeighbors.getD 16) ∧ index.WellLinked ∧
      index.SearchesWell scoring := by
  intro index
  have hstart : (new dimensions maxNeighbors efSearch : HnswIndex V).Ready :=
    ready_new dimensions maxNeighbors efSearch
  have hempty : (new dimensions maxNeighbors efSearch : HnswIndex V).Bounded :=
    fun node hnode => absurd hnode List.not_mem_nil
  have hready : index.Ready := hstart.after scoring calls
  refine ⟨(ids_after hstart rfl scoring calls).2, ?_, hready.searchesWell scoring⟩
  exact hready.wellLinked (bounded_after scoring hstart hempty calls)

/-- Equal vectors, with lists that have room for two. -/
theorem sound_after_equal :
    let index := (new 1 (some 2) none : HnswIndex (List ℤ)).after dotProduct
      [.add "a" [1], .add "b" [1], .add "c" [1], .add "d" [1]]
    index.maxNeighbors = 2 ∧ index.WellLinked ∧ index.SearchesWell dotProduct :=
  sound_after dotProduct 1 (some 2) none _

end HnswIndex

end MemphisOS.Embedding
