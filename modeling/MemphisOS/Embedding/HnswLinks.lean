import Mathlib.Data.List.Find
import MemphisOS.Embedding.HnswSearch

/-!
# The links of the index

What adding a vector and linking it again do to the ids, to the lists of neighbours and to the
entry point.
-/

namespace MemphisOS.Embedding

variable {V S : Type}

/-! ## Sets of ids -/

theorem mem_addToSet {set : List String} {a id : String} :
    a ∈ addToSet set id ↔ a ∈ set ∨ a = id := by
  rw [addToSet]
  split
  · rename_i hmem
    exact ⟨.inl, fun h => h.elim (fun ha => ha) fun heq => heq ▸ hmem⟩
  · rw [List.mem_append, List.mem_singleton]

theorem nodup_addToSet {set : List String} (h : set.Nodup) (id : String) :
    (addToSet set id).Nodup := by
  rw [addToSet]
  split
  · exact h
  · rename_i hmem
    refine List.nodup_append.mpr ⟨h, List.nodup_singleton _, fun a ha b hb => ?_⟩
    rintro rfl
    exact hmem (List.mem_singleton.mp hb ▸ ha)

theorem foldl_addToSet {set items : List String} (h : (set ++ items).Nodup) :
    items.foldl addToSet set = set ++ items := by
  induction items generalizing set with
  | nil => exact (List.append_nil set).symm
  | cons id items ih =>
    have hnew : id ∉ set := fun hmem =>
      (List.nodup_append.mp h).2.2 id hmem id List.mem_cons_self rfl
    rw [List.append_cons] at h
    rw [List.foldl_cons, addToSet, if_neg hnew, ih h, ← List.append_cons]

namespace HnswIndex

variable {self : HnswIndex V} {id a b : String} {node : NodeEntry V}

/-! ## Lists of neighbours -/

/-- Ids are stored once, and a list of neighbours holds other ids that are stored, each once. -/
structure Tidy (index : HnswIndex V) : Prop where
  nodup : index.ids.Nodup
  neighbors_nodup : ∀ node ∈ index.nodes, node.neighbors.Nodup
  not_mem_self : ∀ node ∈ index.nodes, node.id ∉ node.neighbors
  stored : ∀ node ∈ index.nodes, node.neighbors ⊆ index.ids

theorem Tidy.closed (h : self.Tidy) : self.Closed := ⟨h.nodup, fun node hnode _ hb =>
  h.stored node hnode hb⟩

theorem get_of_mem (h : self.Tidy) (hnode : node ∈ self.nodes) : self.get node.id = some node := by
  obtain ⟨found, hfound⟩ := exists_get (List.mem_map_of_mem (f := NodeEntry.id) hnode)
  obtain ⟨hmem, hid⟩ := get_mem hfound
  rw [hfound, List.inj_on_of_nodup_map h.nodup hmem hnode hid]

/-- A list of other stored ids is shorter than the list of all. -/
theorem length_lt_of_subset (hmem : id ∈ self.ids) (list : List String) (hnodup : list.Nodup)
    (hself : id ∉ list) (hstored : list ⊆ self.ids) : list.length < self.nodes.length := by
  have hlength := (List.subperm_of_subset (List.nodup_cons.mpr ⟨hself, hnodup⟩)
    (List.cons_subset.mpr ⟨hmem, hstored⟩)).length_le
  rwa [ids, List.length_map] at hlength

/-- Nothing but vectors and links differs. -/
structure SameIds (index other : HnswIndex V) : Prop where
  ids : other.ids = index.ids
  entryPointId : other.entryPointId = index.entryPointId
  maxNeighbors : other.maxNeighbors = index.maxNeighbors
  dimensions : other.dimensions = index.dimensions

theorem SameIds.refl (index : HnswIndex V) : index.SameIds index := ⟨rfl, rfl, rfl, rfl⟩

theorem SameIds.trans {other last : HnswIndex V} (h : self.SameIds other)
    (hlast : other.SameIds last) : self.SameIds last :=
  ⟨hlast.ids.trans h.ids, hlast.entryPointId.trans h.entryPointId,
    hlast.maxNeighbors.trans h.maxNeighbors, hlast.dimensions.trans h.dimensions⟩

theorem length_ids (index : HnswIndex V) : index.ids.length = index.nodes.length :=
  List.length_map _

theorem SameIds.length {other : HnswIndex V} (h : self.SameIds other) :
    other.nodes.length = self.nodes.length := by
  rw [← length_ids, h.ids, length_ids]

/-! ## Changing an entry -/

section Modify

variable {change : NodeEntry V → NodeEntry V}

theorem ids_modify (hid : ∀ node ∈ self.nodes, node.id = id → (change node).id = id) :
    (self.modify id change).ids = self.ids := by
  rw [ids, modify, List.map_map, ids]
  refine List.map_congr_left fun node hnode => ?_
  rw [Function.comp_apply]
  split
  · rename_i heq
    rw [hid node hnode heq, heq]
  · rfl

theorem sameIds_modify (hid : ∀ node ∈ self.nodes, node.id = id → (change node).id = id) :
    self.SameIds (self.modify id change) := ⟨ids_modify hid, rfl, rfl, rfl⟩

theorem mem_nodes_modify {changed : NodeEntry V}
    (h : changed ∈ (self.modify id change).nodes) :
    (changed ∈ self.nodes ∧ changed.id ≠ id) ∨
      ∃ node ∈ self.nodes, node.id = id ∧ changed = change node := by
  obtain ⟨node, hnode, rfl⟩ := List.mem_map.mp h
  split
  · rename_i heq
    exact .inr ⟨node, hnode, heq, rfl⟩
  · rename_i hne
    exact .inl ⟨hnode, hne⟩

theorem get_modify (hid : ∀ node ∈ self.nodes, node.id = id → (change node).id = id) :
    (self.modify id change).get a = if a = id then (self.get a).map change else self.get a := by
  have hfind : (self.modify id change).get a =
      (self.get a).map fun node => if node.id = id then change node else node := by
    rw [get, modify, List.find?_map, get]
    congr 1
    refine List.find?_congr fun node hnode => ?_
    rw [Function.comp_apply]
    split
    · rename_i heq
      rw [hid node hnode heq, heq]
    · rfl
  rw [hfind]
  cases hget : self.get a with
  | none => exact (ite_self none).symm
  | some node =>
    obtain ⟨-, rfl⟩ := get_mem hget
    exact apply_ite some (node.id = id) (change node) node

/-- What a changed entry has to keep. -/
structure Keeps (index : HnswIndex V) (id : String) (change : NodeEntry V → NodeEntry V) :
    Prop where
  same_id : ∀ node ∈ index.nodes, node.id = id → (change node).id = id
  nodup : ∀ node ∈ index.nodes, node.id = id → (change node).neighbors.Nodup
  not_mem_self : ∀ node ∈ index.nodes, node.id = id → id ∉ (change node).neighbors
  stored : ∀ node ∈ index.nodes, node.id = id → (change node).neighbors ⊆ index.ids

theorem Tidy.modify (h : self.Tidy) (hkeeps : self.Keeps id change) :
    (self.modify id change).Tidy := by
  have hids := ids_modify hkeeps.same_id
  refine ⟨by rw [hids]; exact h.nodup, fun changed hchanged => ?_, fun changed hchanged => ?_,
    fun changed hchanged => ?_⟩
  · rcases mem_nodes_modify hchanged with ⟨hnode, -⟩ | ⟨node, hnode, heq, rfl⟩
    · exact h.neighbors_nodup changed hnode
    · exact hkeeps.nodup node hnode heq
  · rcases mem_nodes_modify hchanged with ⟨hnode, -⟩ | ⟨node, hnode, heq, rfl⟩
    · exact h.not_mem_self changed hnode
    · rw [hkeeps.same_id node hnode heq]
      exact hkeeps.not_mem_self node hnode heq
  · rw [hids]
    rcases mem_nodes_modify hchanged with ⟨hnode, -⟩ | ⟨node, hnode, heq, rfl⟩
    · exact h.stored changed hnode
    · exact hkeeps.stored node hnode heq

theorem links_modify (hid : ∀ node ∈ self.nodes, node.id = id → (change node).id = id) :
    (self.modify id change).Links a b ↔
      if a = id then ∃ node, self.get id = some node ∧ b ∈ (change node).neighbors
      else self.Links a b := by
  rw [Links, get_modify hid]
  split
  · rename_i heq
    subst heq
    constructor
    · rintro ⟨changed, hchanged, hb⟩
      obtain ⟨node, hget, rfl⟩ := Option.map_eq_some_iff.mp hchanged
      exact ⟨node, hget, hb⟩
    · rintro ⟨node, hget, hb⟩
      exact ⟨change node, by rw [hget]; rfl, hb⟩
  · rfl

end Modify

/-! ## Trimming -/

variable [Preorder S] [DecidableLE S]

theorem trimNeighbors_id (scoring : Scoring V S) (node : NodeEntry V) :
    (self.trimNeighbors scoring node).id = node.id := by
  rw [trimNeighbors]
  split <;> rfl

/-- What is left of a list was there before. -/
theorem trimNeighbors_subperm (scoring : Scoring V S) (node : NodeEntry V) :
    (self.trimNeighbors scoring node).neighbors.Subperm node.neighbors := by
  rw [trimNeighbors]
  split
  · exact .refl _
  · set ranked := node.neighbors.map fun id =>
      SearchResult.mk id (((self.get id).map fun target =>
        scoring.cosine node.vector target.vector).getD scoring.missing) with hranked
    have hids : ranked.map SearchResult.id = node.neighbors := by
      rw [hranked, List.map_map]
      exact List.map_id _
    have hsorted := (List.perm_insertionSort (fun a b => b.score ≤ a.score) ranked).map
      SearchResult.id
    rw [hids] at hsorted
    exact ((List.take_sublist _ _).map SearchResult.id).subperm.trans hsorted.subperm

theorem trimNeighbors_nodup (scoring : Scoring V S) (h : node.neighbors.Nodup) :
    (self.trimNeighbors scoring node).neighbors.Nodup := by
  obtain ⟨kept, hperm, hsub⟩ := self.trimNeighbors_subperm scoring node
  exact hperm.nodup_iff.mp (hsub.nodup h)

/-- A list that is short enough stays. -/
theorem trimNeighbors_short (scoring : Scoring V S)
    (h : node.neighbors.length ≤ self.maxNeighbors) : self.trimNeighbors scoring node = node := by
  rw [trimNeighbors, if_pos h]

theorem keeps_trim (scoring : Scoring V S) (h : self.Tidy) :
    self.Keeps id (self.trimNeighbors scoring) := by
  refine ⟨fun node _ heq => (trimNeighbors_id scoring node).trans heq,
    fun node hnode _ => trimNeighbors_nodup scoring (h.neighbors_nodup node hnode),
    fun node hnode heq hmem => ?_, fun node hnode _ b hb => ?_⟩
  · rw [← heq] at hmem
    exact h.not_mem_self node hnode ((trimNeighbors_subperm scoring node).subset hmem)
  · exact h.stored node hnode ((trimNeighbors_subperm scoring node).subset hb)

/-! ## Linking back -/

/-- The entry of a neighbour after the id is linked back. -/
def linked (index : HnswIndex V) (scoring : Scoring V S) (id : String) (neighbor : NodeEntry V) :
    NodeEntry V :=
  index.trimNeighbors scoring { neighbor with neighbors := addToSet neighbor.neighbors id }

theorem linkBack_eq (scoring : Scoring V S) {neighbor : NodeEntry V}
    (hget : self.get a = some neighbor) :
    linkBack scoring id self a = self.modify a fun _ => self.linked scoring id neighbor := by
  rw [linkBack, hget]
  rfl

theorem keeps_linked (scoring : Scoring V S) (h : self.Tidy) (hid : id ∈ self.ids) (hne : a ≠ id)
    {neighbor : NodeEntry V} (hget : self.get a = some neighbor) :
    self.Keeps a fun _ => self.linked scoring id neighbor := by
  obtain ⟨hnode, rfl⟩ := get_mem hget
  have hsub : (self.linked scoring id neighbor).neighbors.Subperm
      (addToSet neighbor.neighbors id) := trimNeighbors_subperm scoring _
  refine ⟨fun _ _ _ => trimNeighbors_id scoring _, fun _ _ _ => trimNeighbors_nodup scoring ?_,
    fun _ _ _ hmem => ?_, fun _ _ _ b hb => ?_⟩
  · exact nodup_addToSet (h.neighbors_nodup neighbor hnode) id
  · rcases mem_addToSet.mp (hsub.subset hmem) with hmem | heq
    · exact h.not_mem_self neighbor hnode hmem
    · exact hne heq
  · rcases mem_addToSet.mp (hsub.subset hb) with hb | rfl
    · exact h.stored neighbor hnode hb
    · exact hid

theorem sameIds_linkBack (scoring : Scoring V S) : self.SameIds (linkBack scoring id self a) := by
  cases hget : self.get a with
  | none =>
    rw [linkBack, hget]
    exact .refl self
  | some neighbor =>
    rw [linkBack_eq scoring hget]
    exact sameIds_modify fun _ _ _ => (trimNeighbors_id scoring _).trans (get_mem hget).2

theorem tidy_linkBack (scoring : Scoring V S) (h : self.Tidy) (hid : id ∈ self.ids)
    (ha : a ∈ self.ids) (hne : a ≠ id) : (linkBack scoring id self a).Tidy := by
  obtain ⟨neighbor, hget⟩ := exists_get ha
  rw [linkBack_eq scoring hget]
  exact h.modify (keeps_linked scoring h hid hne hget)

/-- While there is room for all a list only gets the id that is linked back. -/
theorem links_linkBack (scoring : Scoring V S) (h : self.Tidy) (hid : id ∈ self.ids)
    (ha : a ∈ self.ids) (hne : a ≠ id) (hroom : self.nodes.length ≤ self.maxNeighbors + 1)
    {x y : String} :
    (linkBack scoring id self a).Links x y ↔ self.Links x y ∨ x = a ∧ y = id := by
  obtain ⟨neighbor, hget⟩ := exists_get ha
  obtain ⟨hnode, hself⟩ := get_mem hget
  have hshort : (addToSet neighbor.neighbors id).length ≤ self.maxNeighbors := by
    have hlength := length_lt_of_subset ha (addToSet neighbor.neighbors id)
      (nodup_addToSet (h.neighbors_nodup neighbor hnode) id) ?_ ?_
    · omega
    · intro hmem
      rcases mem_addToSet.mp hmem with hmem | heq
      · exact h.not_mem_self neighbor hnode (hself ▸ hmem)
      · exact hne heq
    · intro b hb
      rcases mem_addToSet.mp hb with hb | rfl
      · exact h.stored neighbor hnode hb
      · exact hid
  have hlinked : self.linked scoring id neighbor =
      { neighbor with neighbors := addToSet neighbor.neighbors id } :=
    trimNeighbors_short scoring hshort
  rw [linkBack_eq scoring hget, links_modify (keeps_linked scoring h hid hne hget).same_id,
    hlinked]
  split
  · rename_i heq
    subst heq
    constructor
    · rintro ⟨-, -, hy⟩
      rcases mem_addToSet.mp hy with hy | rfl
      · exact .inl ⟨neighbor, hget, hy⟩
      · exact .inr ⟨rfl, rfl⟩
    · rintro (⟨node, hnode, hy⟩ | ⟨-, rfl⟩)
      · rw [hget] at hnode
        cases hnode
        exact ⟨neighbor, hget, mem_addToSet.mpr (.inl hy)⟩
      · exact ⟨neighbor, hget, mem_addToSet.mpr (.inr rfl)⟩
  · rename_i hx
    exact ⟨.inl, fun hor => hor.elim (fun hl => hl) fun heq => absurd heq.1 hx⟩

section Fold

variable {items : List String}

theorem sameIds_foldl (scoring : Scoring V S) (items : List String) :
    self.SameIds (items.foldl (linkBack scoring id) self) := by
  induction items generalizing self with
  | nil => exact .refl self
  | cons a items ih => exact (sameIds_linkBack scoring).trans ih

theorem tidy_foldl (scoring : Scoring V S) (h : self.Tidy) (hid : id ∈ self.ids)
    (hitems : ∀ a ∈ items, a ∈ self.ids ∧ a ≠ id) :
    (items.foldl (linkBack scoring id) self).Tidy := by
  induction items generalizing self with
  | nil => exact h
  | cons a items ih =>
    obtain ⟨ha, hne⟩ := hitems a List.mem_cons_self
    have hsame : (linkBack scoring id self a).ids = self.ids := (sameIds_linkBack scoring).ids
    refine ih (tidy_linkBack scoring h hid ha hne) (by rwa [hsame]) fun b hb => ?_
    rw [hsame]
    exact hitems b (List.mem_cons_of_mem _ hb)

/-- While there is room for all every item is linked to the id, and no link is lost. -/
theorem links_foldl (scoring : Scoring V S) (h : self.Tidy) (hid : id ∈ self.ids)
    (hitems : ∀ a ∈ items, a ∈ self.ids ∧ a ≠ id)
    (hroom : self.nodes.length ≤ self.maxNeighbors + 1) {x y : String} :
    (items.foldl (linkBack scoring id) self).Links x y ↔
      self.Links x y ∨ x ∈ items ∧ y = id := by
  induction items generalizing self with
  | nil => simp
  | cons a items ih =>
    obtain ⟨ha, hne⟩ := hitems a List.mem_cons_self
    have hsame : self.SameIds (linkBack scoring id self a) := sameIds_linkBack scoring
    rw [List.foldl_cons, ih (tidy_linkBack scoring h hid ha hne) (by rwa [hsame.ids]) ?_ ?_,
      links_linkBack scoring h hid ha hne hroom, List.mem_cons]
    · tauto
    · intro b hb
      rw [hsame.ids]
      exact hitems b (List.mem_cons_of_mem _ hb)
    · rw [hsame.length, hsame.maxNeighbors]
      exact hroom

end Fold

/-! ## Entry points -/

/-- An entry point is pinned as soon as there is an id, unless the only id is the empty one. -/
inductive Anchored (index : HnswIndex V) : Prop
  | empty : index.nodes = [] → index.entryPointId = none → Anchored index
  | blank : index.ids = [""] → index.entryPointId = some "" → Anchored index
  | pinned {id : String} : id ≠ "" → id ∈ index.ids → index.entryPointId = some id →
      Anchored index

theorem Anchored.same {other : HnswIndex V} (h : self.Anchored) (hsame : self.SameIds other) :
    other.Anchored := by
  cases h with
  | empty hnodes hentry =>
    refine .empty (List.eq_nil_of_length_eq_zero ?_) (hsame.entryPointId.trans hentry)
    rw [hsame.length, hnodes]
    rfl
  | blank hids hentry => exact .blank (hsame.ids.trans hids) (hsame.entryPointId.trans hentry)
  | pinned hne hmem hentry =>
    exact .pinned hne (hsame.ids.symm ▸ hmem) (hsame.entryPointId.trans hentry)

/-- Picking the entry point of an anchored index pins nothing new. -/
theorem Anchored.pick (h : self.Anchored) : self.pickEntryPoint.2 = self := by
  cases h with
  | empty hnodes hentry =>
    rw [pickEntryPoint, HnswIndex.pinned, hentry, hnodes]
    rfl
  | blank hids hentry =>
    have hpinned : self.pinned = none := by
      rw [HnswIndex.pinned, hentry]
      rfl
    have hhead : self.nodes.head?.map NodeEntry.id = some "" := by
      rw [← List.head?_map]
      exact congrArg List.head? hids
    obtain ⟨first, hfirst, hid⟩ := Option.map_eq_some_iff.mp hhead
    rw [pickEntryPoint, hpinned, hfirst]
    dsimp only
    rw [hid, ← hentry]
  | pinned hne hmem hentry =>
    obtain ⟨node, hget⟩ := exists_get hmem
    have hpinned : self.pinned = some node := by
      rw [HnswIndex.pinned, hentry, ← hget]
      exact if_neg hne
    rw [pickEntryPoint, hpinned]

/-! ## Inserting -/

/-- The new entry, before it is linked back. -/
def joined (index : HnswIndex V) (id : String) (vector : V) (neighbors : List String) :
    HnswIndex V :=
  { index with
    nodes := index.nodes ++ [⟨id, vector, neighbors⟩]
    entryPointId := if index.entryPointId = none ∨ index.entryPointId = some "" then some id
      else index.entryPointId }

section Joined

variable {vector : V} {neighbors : List String}

theorem ids_joined : (self.joined id vector neighbors).ids = self.ids ++ [id] := by
  rw [ids, joined, List.map_append]
  rfl

theorem tidy_joined (h : self.Tidy) (hnew : id ∉ self.ids) (hnodup : neighbors.Nodup)
    (hstored : neighbors ⊆ self.ids) : (self.joined id vector neighbors).Tidy := by
  have hcases (node : NodeEntry V) (hnode : node ∈ (self.joined id vector neighbors).nodes) :
      node ∈ self.nodes ∨ node = ⟨id, vector, neighbors⟩ :=
    (List.mem_append.mp hnode).imp_right List.mem_singleton.mp
  refine ⟨?_, fun node hnode => ?_, fun node hnode => ?_, fun node hnode => ?_⟩
  · rw [ids_joined, List.nodup_append]
    refine ⟨h.nodup, List.nodup_singleton _, fun a ha b hb => ?_⟩
    rintro rfl
    exact hnew (List.mem_singleton.mp hb ▸ ha)
  · rcases hcases node hnode with hnode | rfl
    · exact h.neighbors_nodup node hnode
    · exact hnodup
  · rcases hcases node hnode with hnode | rfl
    · exact h.not_mem_self node hnode
    · exact fun hmem => hnew (hstored hmem)
  · rw [ids_joined]
    rcases hcases node hnode with hnode | rfl
    · exact fun b hb => List.mem_append_left _ (h.stored node hnode hb)
    · exact fun b hb => List.mem_append_left _ (hstored hb)

theorem get_joined (hnew : id ∉ self.ids) :
    (self.joined id vector neighbors).get a =
      if a = id then some ⟨id, vector, neighbors⟩ else self.get a := by
  rw [get, joined, List.find?_append]
  by_cases heq : a = id
  · subst heq
    have hnone := get_eq_none hnew
    rw [get] at hnone
    rw [hnone, if_pos rfl, Option.none_or, List.find?_cons_of_pos]
    exact decide_eq_true rfl
  · rw [if_neg heq, List.find?_cons_of_neg, List.find?_nil, Option.or_none, get]
    simpa using Ne.symm heq

theorem links_joined (hnew : id ∉ self.ids) :
    (self.joined id vector neighbors).Links a b ↔
      self.Links a b ∨ a = id ∧ b ∈ neighbors := by
  rw [Links, get_joined hnew]
  by_cases heq : a = id
  · subst heq
    rw [if_pos rfl]
    constructor
    · rintro ⟨node, hnode, hb⟩
      cases hnode
      exact .inr ⟨rfl, hb⟩
    · rintro (⟨node, hget, -⟩ | ⟨-, hb⟩)
      · exact absurd (mem_ids_of_get hget) hnew
      · exact ⟨_, rfl, hb⟩
  · rw [if_neg heq]
    exact ⟨.inl, fun hor => hor.elim (fun hl => hl) fun hr => absurd hr.1 heq⟩

end Joined

end HnswIndex

end MemphisOS.Embedding
