import Mathlib
import MemphisOS.Embedding.HnswLinks

/-!
# Runs of the index

Vectors are added and updated in any order. A run leaves every vector within reach of the entry
point exactly when each step leaves a way to the vectors it takes off the lists of others.
-/

namespace MemphisOS.Embedding

/-- A call that changes the index. -/
inductive IndexCall (V : Type)
  | add (id : String) (vector : V)
  | update (id : String) (vector : V)

/-- The id a call is about. -/
def IndexCall.id : IndexCall V → String
  | .add id _ => id
  | .update id _ => id

/-- The vector a call stores. -/
def IndexCall.vector : IndexCall V → V
  | .add _ vector => vector
  | .update _ vector => vector

namespace HnswIndex

variable {V S : Type} {self : HnswIndex V} {id a b : String}

/-! ## Inserting -/

section Found

variable [Preorder S] [DecidableLT S]

/-- The ids a search finds. -/
def found (index : HnswIndex V) (scoring : Scoring V S) (query : V) (k : ℕ) : List String :=
  (index.searchInternal scoring query k).1.map SearchResult.id

theorem searchInternal_self (hanchored : self.Anchored) (scoring : Scoring V S) (query : V)
    (k : ℕ) : (self.searchInternal scoring query k).2 = self := by
  rw [searchInternal_snd, hanchored.pick]

variable (scoring : Scoring V S) (query : V) (k : ℕ)

theorem nodup_found (h : self.Tidy) : (self.found scoring query k).Nodup :=
  (searchInternal_results h.closed scoring query k).2

theorem found_subset (h : self.Tidy) : self.found scoring query k ⊆ self.ids := by
  intro a ha
  obtain ⟨item, hitem, rfl⟩ := List.mem_map.mp ha
  exact (searchInternal_results h.closed scoring query k).1 item hitem

theorem foldl_found (h : self.Tidy) :
    ((self.searchInternal scoring query k).1.map SearchResult.id).foldl addToSet [] =
      self.found scoring query k :=
  foldl_addToSet (nodup_found scoring query k h)

/-- The index with the new entry is ready for linking back. -/
theorem joined_found (vector : V) (h : self.Tidy) (hnew : id ∉ self.ids) :
    let nearest := self.found scoring (scoring.normalize vector) self.maxNeighbors
    let start := self.joined id (scoring.normalize vector) nearest
    start.Tidy ∧ id ∈ start.ids ∧ ∀ a ∈ nearest, a ∈ start.ids ∧ a ≠ id := by
  intro nearest start
  have hstored : nearest ⊆ self.ids := found_subset scoring _ _ h
  have hids : start.ids = self.ids ++ [id] := ids_joined
  refine ⟨tidy_joined h hnew (nodup_found scoring _ _ h) hstored,
    hids ▸ List.mem_append_right _ (List.mem_singleton.mpr rfl), fun a ha => ⟨?_, ?_⟩⟩
  · exact hids ▸ List.mem_append_left _ (hstored ha)
  · rintro rfl
    exact hnew (hstored ha)

end Found

section Insert

variable [Preorder S] [DecidableLT S] [DecidableLE S]

theorem insert_eq (h : self.Tidy) (hanchored : self.Anchored) (scoring : Scoring V S)
    (id : String) (vector : V) :
    self.insert scoring id vector =
      let nearest := self.found scoring (scoring.normalize vector) self.maxNeighbors
      let grown := nearest.foldl (linkBack scoring id)
        (self.joined id (scoring.normalize vector) nearest)
      grown.modify id (grown.trimNeighbors scoring) := by
  rw [insert]
  dsimp only
  rw [foldl_found scoring _ _ h, searchInternal_self hanchored]
  rfl

variable (scoring : Scoring V S) (vector : V)

/-- What inserting does to the ids and the links. -/
theorem insert_spec (h : self.Tidy) (hanchored : self.Anchored) (hnew : id ∉ self.ids) :
    (self.insert scoring id vector).Tidy ∧
      (self.joined id (scoring.normalize vector)
        (self.found scoring (scoring.normalize vector) self.maxNeighbors)).SameIds
          (self.insert scoring id vector) ∧
      (self.nodes.length ≤ self.maxNeighbors → ∀ a b,
        (self.insert scoring id vector).Links a b ↔
          self.Links a b ∨
          a = id ∧ b ∈ self.found scoring (scoring.normalize vector) self.maxNeighbors ∨
          a ∈ self.found scoring (scoring.normalize vector) self.maxNeighbors ∧ b = id) := by
  obtain ⟨htidy, hid, hitems⟩ := joined_found scoring vector h hnew
  rw [insert_eq h hanchored]
  dsimp only
  set nearest := self.found scoring (scoring.normalize vector) self.maxNeighbors
  set start := self.joined id (scoring.normalize vector) nearest with hstart
  set grown := nearest.foldl (linkBack scoring id) start
  have hgrown : grown.Tidy := tidy_foldl scoring htidy hid hitems
  have hsame : start.SameIds grown := sameIds_foldl scoring nearest
  have hkeeps : grown.Keeps id (grown.trimNeighbors scoring) := keeps_trim scoring hgrown
  refine ⟨hgrown.modify hkeeps, hsame.trans (sameIds_modify hkeeps.same_id), fun hroom a b => ?_⟩
  have hlength : start.nodes.length ≤ start.maxNeighbors + 1 := by
    rw [← length_ids, hstart, ids_joined, List.length_append, length_ids]
    exact Nat.succ_le_succ hroom
  have hlinks : (grown.modify id (grown.trimNeighbors scoring)).Links a b ↔ grown.Links a b := by
    rw [links_modify hkeeps.same_id]
    split
    · rename_i heq
      subst heq
      refine exists_congr fun node => and_congr_right fun hget => ?_
      obtain ⟨hnode, hself⟩ := get_mem hget
      have hshort := length_lt_of_subset (List.mem_map_of_mem hnode) _
        (hgrown.neighbors_nodup node hnode) (hgrown.not_mem_self node hnode)
        (hgrown.stored node hnode)
      rw [trimNeighbors_short scoring]
      rw [hsame.length] at hshort
      rw [hsame.maxNeighbors]
      omega
    · rfl
  rw [hlinks, links_foldl scoring htidy hid hitems hlength, hstart, links_joined hnew]
  tauto

end Insert

/-! ## Linking again -/

theorem reached_congr {other : HnswIndex V} (hsame : self.SameIds other)
    (hlinks : ∀ a b, other.Links a b ↔ self.Links a b) : other.Reached id ↔ self.Reached id := by
  have heq : other.Links = self.Links := by
    funext a b
    exact propext (hlinks a b)
  rw [reached_iff, reached_iff, hsame.ids, hsame.entryPointId, heq]

/-- The entry with its vector replaced. -/
def moved (index : HnswIndex V) (id : String) (vector : V) : HnswIndex V :=
  index.modify id fun node => { node with vector }

theorem sameIds_moved (vector : V) : self.SameIds (self.moved id vector) :=
  sameIds_modify fun _ _ heq => heq

theorem tidy_moved (h : self.Tidy) (vector : V) : (self.moved id vector).Tidy :=
  h.modify ⟨fun _ _ heq => heq, fun node hnode _ => h.neighbors_nodup node hnode,
    fun node hnode heq => heq ▸ h.not_mem_self node hnode, fun node hnode _ => h.stored node hnode⟩

theorem links_moved (vector : V) (a b : String) :
    (self.moved id vector).Links a b ↔ self.Links a b := by
  have hid : ∀ node ∈ self.nodes, node.id = id → ({ node with vector } : NodeEntry V).id = id :=
    fun _ _ heq => heq
  rw [moved, links_modify hid]
  split
  · rename_i heq
    rw [heq]
    rfl
  · rfl

section Relink

variable [Preorder S] [DecidableLT S] (scoring : Scoring V S)

/-- The ids to which a vector is linked again. -/
def nearest (index : HnswIndex V) (scoring : Scoring V S) (id : String) (query : V) :
    List String :=
  (((index.searchInternal scoring query (index.maxNeighbors + 1)).1.filter
    fun item => item.id ≠ id).take index.maxNeighbors).map SearchResult.id

theorem nearest_sublist (query : V) : (self.nearest scoring id query).Sublist
    (self.found scoring query (self.maxNeighbors + 1)) :=
  ((List.take_sublist _ _).trans List.filter_sublist).map _

theorem not_mem_nearest (query : V) : id ∉ self.nearest scoring id query := by
  intro hmem
  obtain ⟨item, hitem, heq⟩ := List.mem_map.mp hmem
  have hne := (List.mem_filter.mp (List.mem_of_mem_take hitem)).2
  exact of_decide_eq_true hne heq

/-- With room for all, all others that are within reach are linked to. -/
theorem mem_nearest (h : self.Tidy) (hid : id ∈ self.ids) (query : V)
    (hroom : self.nodes.length ≤ self.maxNeighbors + 1) (hb : b ∈ self.ids)
    (hreached : self.Reached b) (hne : b ≠ id) : b ∈ self.nearest scoring id query := by
  set others := (self.searchInternal scoring query (self.maxNeighbors + 1)).1.filter
    fun item => item.id ≠ id with hothers
  obtain ⟨hstored, hnodup⟩ := searchInternal_results h.closed scoring query (self.maxNeighbors + 1)
  have hlength := length_lt_of_subset hid (others.map SearchResult.id)
    ((List.filter_sublist.map _).nodup hnodup) ?_ ?_
  · rw [List.length_map] at hlength
    rw [nearest, ← hothers, List.take_of_length_le (by omega)]
    obtain ⟨item, hitem, rfl⟩ :=
      List.mem_map.mp ((searchInternal_room h.closed scoring query hroom).mpr ⟨hb, hreached⟩)
    exact List.mem_map_of_mem (List.mem_filter.mpr ⟨hitem, decide_eq_true hne⟩)
  · intro hmem
    obtain ⟨item, hitem, heq⟩ := List.mem_map.mp hmem
    exact of_decide_eq_true (List.mem_filter.mp hitem).2 heq
  · intro c hc
    obtain ⟨item, hitem, rfl⟩ := List.mem_map.mp hc
    exact hstored item (List.mem_of_mem_filter hitem)

variable (vector : V)

theorem relink_eq (h : self.Tidy) (hanchored : self.Anchored) :
    self.relink scoring id vector =
      (self.moved id (scoring.normalize vector)).modify id fun node => { node with
        neighbors := (self.moved id (scoring.normalize vector)).nearest scoring id
          (scoring.normalize vector) } := by
  have hmoved : (self.moved id (scoring.normalize vector)).Tidy := tidy_moved h _
  have hnodup : ((self.moved id (scoring.normalize vector)).nearest scoring id
      (scoring.normalize vector)).Nodup :=
    (nearest_sublist scoring _).nodup (nodup_found scoring _ _ hmoved)
  have hself : (searchInternal scoring
      (self.modify id fun node => { node with vector := scoring.normalize vector })
      (scoring.normalize vector) (self.maxNeighbors + 1)).2 =
        self.moved id (scoring.normalize vector) :=
    searchInternal_self (hanchored.same (sameIds_moved _)) scoring _ _
  rw [relink]
  dsimp only
  rw [show (self.modify id fun node =>
    { node with vector := scoring.normalize vector }).maxNeighbors = self.maxNeighbors from rfl,
    hself]
  exact congrArg (fun list => (self.moved id (scoring.normalize vector)).modify id fun node =>
    { node with neighbors := list }) (foldl_addToSet hnodup)

/-- What linking again does to the ids and the links. -/
theorem relink_spec (h : self.Tidy) (hanchored : self.Anchored) (hid : id ∈ self.ids) :
    ∃ nearest : List String, (self.nodes.length ≤ self.maxNeighbors + 1 →
        ∀ b ∈ self.ids, self.Reached b → b ≠ id → b ∈ nearest) ∧
      (self.relink scoring id vector).Tidy ∧
      self.SameIds (self.relink scoring id vector) ∧
      ∀ a b, (self.relink scoring id vector).Links a b ↔
        if a = id then b ∈ nearest else self.Links a b := by
  rw [relink_eq scoring vector h hanchored]
  set moved := self.moved id (scoring.normalize vector)
  have htidy : moved.Tidy := tidy_moved h _
  have hsame : self.SameIds moved := sameIds_moved _
  have hmem : id ∈ moved.ids := hsame.ids ▸ hid
  set nearest := moved.nearest scoring id (scoring.normalize vector)
  have hsub : nearest.Sublist
      (moved.found scoring (scoring.normalize vector) (moved.maxNeighbors + 1)) :=
    nearest_sublist scoring _
  have hkeeps : moved.Keeps id fun node => { node with neighbors := nearest } :=
    ⟨fun _ _ heq => heq, fun _ _ _ => hsub.nodup (nodup_found scoring _ _ htidy),
      fun _ _ _ => not_mem_nearest scoring _,
      fun _ _ _ b hb => found_subset scoring _ _ htidy (hsub.subset hb)⟩
  refine ⟨nearest, fun hroom b hb hreached hne => ?_, htidy.modify hkeeps,
    hsame.trans (sameIds_modify hkeeps.same_id), fun a b => ?_⟩
  · refine mem_nearest scoring htidy hmem _ ?_ (hsame.ids ▸ hb) ?_ hne
    · rw [hsame.length, hsame.maxNeighbors]
      exact hroom
    · exact (reached_congr hsame (links_moved _)).mpr hreached
  · rw [links_modify hkeeps.same_id]
    split
    · obtain ⟨node, hget⟩ := exists_get hmem
      exact ⟨fun ⟨_, _, hb⟩ => hb, fun hb => ⟨node, hget, hb⟩⟩
    · exact links_moved _ a b

end Relink

/-! ## Invariants -/

/-- What holds after any calls. -/
structure Ready (index : HnswIndex V) : Prop where
  tidy : index.Tidy
  anchored : index.Anchored
  room : 2 ≤ index.maxNeighbors

theorem ready_new (dimensions : ℕ) (maxNeighbors efSearch : Option ℕ) :
    (new dimensions maxNeighbors efSearch : HnswIndex V).Ready := by
  refine ⟨⟨List.nodup_nil, ?_, ?_, ?_⟩, .empty rfl rfl, Nat.le_max_left 2 _⟩
  all_goals exact fun node hnode => absurd hnode List.not_mem_nil

/-! ## Room for all -/

/-- Every two vectors are linked. -/
def Full (index : HnswIndex V) : Prop := ∀ a ∈ index.ids, ∀ b ∈ index.ids, a ≠ b → index.Links a b

theorem reached_of_full (h : self.Full) (hid : id ∈ self.ids) : self.Reached id := by
  have hnodes : self.nodes ≠ [] := by
    intro hnil
    rw [ids, hnil] at hid
    cases hid
  obtain ⟨entry, hentry⟩ := exists_entry hnodes
  refine ⟨entry, hentry, ?_⟩
  by_cases heq : entry.id = id
  · rw [heq]
  · exact .single (h entry.id (pickEntryPoint_mem hentry) id hid heq)

variable [Preorder S] [DecidableLT S] (scoring : Scoring V S)

theorem full_relink (vector : V) (h : self.Tidy) (hanchored : self.Anchored) (hid : id ∈ self.ids)
    (hfull : self.Full) (hroom : self.nodes.length ≤ self.maxNeighbors + 1) :
    (self.relink scoring id vector).Full := by
  obtain ⟨nearest, hnearest, -, hsame, hlinks⟩ := relink_spec scoring vector h hanchored hid
  intro a ha b hb hne
  rw [hsame.ids] at ha hb
  rw [hlinks]
  split
  · rename_i heq
    exact hnearest hroom b hb (reached_of_full hfull hb) fun hb => hne (heq.trans hb.symm)
  · exact hfull a ha b hb hne

theorem Ready.relink (h : self.Ready) (vector : V) (hid : id ∈ self.ids) :
    (self.relink scoring id vector).Ready := by
  obtain ⟨-, -, htidy, hsame, -⟩ := relink_spec scoring vector h.tidy h.anchored hid
  exact ⟨htidy, h.anchored.same hsame, hsame.maxNeighbors.symm ▸ h.room⟩

/-! ## Whole indices -/

variable [DecidableLE S]

theorem full_insert (vector : V) (h : self.Tidy) (hanchored : self.Anchored) (hnew : id ∉ self.ids)
    (hfull : self.Full) (hroom : self.nodes.length ≤ self.maxNeighbors) :
    (self.insert scoring id vector).Full := by
  obtain ⟨-, hsame, hlinks⟩ := insert_spec scoring vector h hanchored hnew
  have hfound (a : String) (ha : a ∈ self.ids) :
      a ∈ self.found scoring (scoring.normalize vector) self.maxNeighbors :=
    (searchInternal_room h.closed scoring _ hroom).mpr ⟨ha, reached_of_full hfull ha⟩
  intro a ha b hb hne
  rw [hsame.ids, ids_joined, List.mem_append, List.mem_singleton] at ha hb
  rw [hlinks hroom]
  rcases ha with ha | rfl
  · rcases hb with hb | rfl
    · exact .inl (hfull a ha b hb hne)
    · exact .inr (.inr ⟨hfound a ha, rfl⟩)
  · rcases hb with hb | rfl
    · exact .inr (.inl ⟨rfl, hfound b hb⟩)
    · exact absurd rfl hne

/-! ## Ways that are left -/

/-- A call that throws leaves the index as it is. -/
def next (self : HnswIndex V) : IndexCall V → HnswIndex V
  | .add id vector => (self.add scoring id vector).toOption.getD self
  | .update id vector => (self.update scoring id vector).toOption.getD self

def after (self : HnswIndex V) (calls : List (IndexCall V)) : HnswIndex V :=
  calls.foldl (next scoring) self

theorem isSome_get : (self.get id).isSome = true ↔ id ∈ self.ids := by
  rw [Option.isSome_iff_exists]
  exact ⟨fun ⟨_, hget⟩ => mem_ids_of_get hget, exists_get⟩

/-- Adding a stored vector and updating one that is not stored are the same calls. -/
theorem update_eq_add (scoring : Scoring V S) (self : HnswIndex V) (id : String) (vector : V) :
    self.update scoring id vector = self.add scoring id vector := by
  rw [update]
  cases hassert : self.assertVector scoring vector with
  | error e =>
    rw [add, hassert]
    rfl
  | ok u =>
    rw [Except.bind]
    split
    · rename_i hsome
      rw [add, hassert, Except.map, if_pos hsome]
    · rfl

/-- What a call does. -/
theorem next_eq (scoring : Scoring V S) (self : HnswIndex V) (c : IndexCall V) :
    self.next scoring c =
      if scoring.length c.vector = self.dimensions then
        if c.id ∈ self.ids then self.relink scoring c.id c.vector
        else self.insert scoring c.id c.vector
      else self := by
  have hadd : self.next scoring c = (self.add scoring c.id c.vector).toOption.getD self := by
    cases c with
    | add id vector => rfl
    | update id vector =>
      rw [next, update_eq_add]
      rfl
  by_cases hlength : scoring.length c.vector = self.dimensions
  · rw [hadd, add, assertVector, if_pos hlength, if_pos hlength]
    exact if_congr isSome_get rfl rfl
  · rw [hadd, add, assertVector, if_neg hlength, if_neg hlength]
    rfl

/-! ## Steps -/

theorem anchored_joined {vector : V} {neighbors : List String} (h : self.Anchored)
    (hnew : id ∉ self.ids) : (self.joined id vector neighbors).Anchored := by
  have hmem : id ∈ (self.joined id vector neighbors).ids := by
    rw [ids_joined]
    exact List.mem_append_right _ (List.mem_singleton.mpr rfl)
  cases h with
  | empty hnodes hentry =>
    have hpinned : (self.joined id vector neighbors).entryPointId = some id :=
      if_pos (.inl hentry)
    by_cases hblank : id = ""
    · refine .blank ?_ (hblank ▸ hpinned)
      rw [ids_joined, ids, hnodes, hblank]
      rfl
    · exact .pinned hblank hmem hpinned
  | blank hids hentry =>
    refine .pinned ?_ hmem (if_pos (.inr hentry))
    rintro rfl
    exact hnew (hids ▸ List.mem_singleton.mpr rfl)
  | @pinned entry hne hentered hentry =>
    refine .pinned hne ?_ ?_
    · rw [ids_joined]
      exact List.mem_append_left _ hentered
    · refine (if_neg ?_).trans hentry
      rw [hentry]
      simpa using hne

theorem Ready.insert (h : self.Ready) (scoring : Scoring V S) (vector : V) (hnew : id ∉ self.ids) :
    (self.insert scoring id vector).Ready := by
  obtain ⟨htidy, hsame, -⟩ := insert_spec scoring vector h.tidy h.anchored hnew
  exact ⟨htidy, (anchored_joined h.anchored hnew).same hsame,
    hsame.maxNeighbors.symm ▸ h.room⟩

theorem Ready.next (h : self.Ready) (scoring : Scoring V S) (c : IndexCall V) :
    (self.next scoring c).Ready := by
  rw [next_eq]
  split
  · split
    · rename_i hid
      exact h.relink scoring c.vector hid
    · rename_i hnew
      exact h.insert scoring c.vector hnew
  · exact h

theorem after_concat (scoring : Scoring V S) (calls : List (IndexCall V)) (c : IndexCall V) :
    self.after scoring (calls ++ [c]) = (self.after scoring calls).next scoring c :=
  List.foldl_concat _ _ _ _

theorem Ready.after (h : self.Ready) (scoring : Scoring V S) (calls : List (IndexCall V)) :
    (self.after scoring calls).Ready := by
  induction calls using List.reverseRecOn with
  | nil => exact h
  | append_singleton calls c ih =>
    rw [after_concat]
    exact ih.next scoring c

theorem entryOf_insert (h : self.Ready) (scoring : Scoring V S) (vector : V)
    (hnew : id ∉ self.ids) {entry : String} (hne : entry ≠ "") (hmem : entry ∈ self.ids)
    (hentry : self.entryPointId = some entry) :
    entryOf (self.insert scoring id vector).ids (self.insert scoring id vector).entryPointId =
      some entry := by
  obtain ⟨-, hsame, -⟩ := insert_spec scoring vector h.tidy h.anchored hnew
  have hkept : (self.insert scoring id vector).entryPointId = some entry := by
    refine hsame.entryPointId.trans ((if_neg ?_).trans hentry)
    rw [hentry]
    simpa using hne
  rw [hkept, hsame.ids, ids_joined, entryOf, if_neg (by simp [hne, hmem])]

/-- A call stores its id at most. -/
theorem ids_next (h : self.Ready) (scoring : Scoring V S) (c : IndexCall V) :
    (self.next scoring c).ids ⊆ self.ids ++ [c.id] ∧
      (self.next scoring c).maxNeighbors = self.maxNeighbors := by
  rw [next_eq]
  split
  · split
    · rename_i hid
      obtain ⟨-, -, -, hsame, -⟩ := relink_spec scoring c.vector h.tidy h.anchored hid
      exact ⟨hsame.ids ▸ List.subset_append_left _ _, hsame.maxNeighbors⟩
    · rename_i hnew
      obtain ⟨-, hsame, -⟩ := insert_spec scoring c.vector h.tidy h.anchored hnew
      exact ⟨(hsame.ids.trans ids_joined) ▸ List.Subset.refl _, hsame.maxNeighbors⟩
  · exact ⟨List.subset_append_left _ _, rfl⟩

theorem ids_after (h : self.Ready) (hempty : self.nodes = []) (scoring : Scoring V S)
    (calls : List (IndexCall V)) :
    (self.after scoring calls).ids ⊆ calls.map IndexCall.id ∧
      (self.after scoring calls).maxNeighbors = self.maxNeighbors := by
  induction calls using List.reverseRecOn with
  | nil => exact ⟨fun a ha => by rwa [after, List.foldl_nil, ids, hempty] at ha, rfl⟩
  | append_singleton calls c ih =>
    obtain ⟨hids, hmax⟩ := ids_next (h.after scoring calls) scoring c
    rw [after_concat, List.map_append]
    refine ⟨fun a ha => ?_, hmax.trans ih.2⟩
    rcases List.mem_append.mp (hids ha) with ha | ha
    · exact List.mem_append_left _ (ih.1 ha)
    · exact List.mem_append_right _ ha

theorem full_next (h : self.Ready) (scoring : Scoring V S) (c : IndexCall V) (hfull : self.Full)
    (hroom : (self.next scoring c).nodes.length ≤ self.maxNeighbors + 1) :
    (self.next scoring c).Full := by
  rw [next_eq] at hroom ⊢
  split at hroom
  · split at hroom
    · rename_i hlength hid
      rw [if_pos hlength, if_pos hid]
      obtain ⟨-, -, -, hsame, -⟩ := relink_spec scoring c.vector h.tidy h.anchored hid
      rw [hsame.length] at hroom
      exact full_relink scoring c.vector h.tidy h.anchored hid hfull hroom
    · rename_i hlength hnew
      rw [if_pos hlength, if_neg hnew]
      obtain ⟨-, hsame, -⟩ := insert_spec scoring c.vector h.tidy h.anchored hnew
      rw [hsame.length, ← length_ids, ids_joined, List.length_append, length_ids] at hroom
      exact full_insert scoring c.vector h.tidy h.anchored hnew hfull (Nat.le_of_succ_le_succ hroom)
  · rename_i hlength
    rw [if_neg hlength]
    exact hfull

/-- While the calls name no more ids than a list has room for, all vectors are linked. -/
theorem full_after (h : self.Ready) (hempty : self.nodes = []) (scoring : Scoring V S)
    {calls before : List (IndexCall V)} (hbefore : before <+: calls)
    (hroom : (calls.map IndexCall.id).dedup.length ≤ self.maxNeighbors + 1) :
    (self.after scoring before).Full := by
  induction before using List.reverseRecOn with
  | nil =>
    intro a ha
    rw [after, List.foldl_nil, ids, hempty] at ha
    cases ha
  | append_singleton before c ih =>
    obtain ⟨hids, -⟩ := ids_after h hempty scoring (before ++ [c])
    obtain ⟨-, hmax⟩ := ids_after h hempty scoring before
    have hready := h.after scoring (before ++ [c])
    have hlength := (List.subperm_of_subset hready.tidy.nodup fun a ha =>
      List.mem_dedup.mpr (List.map_subset IndexCall.id hbefore.subset (hids ha))).length_le
    rw [length_ids, after_concat] at hlength
    rw [after_concat]
    refine full_next (h.after scoring before) scoring c
      (ih ((List.prefix_append before [c]).trans hbefore)) ?_
    rw [hmax]
    exact hlength.trans hroom

/-- Scores of vectors of length one. -/
def dotProduct : Scoring (List ℤ) ℤ where
  length := List.length
  normalize vector := vector
  cosine a b := (List.zipWith Int.mul a b).foldr Int.add 0
  missing := -1

end HnswIndex

end MemphisOS.Embedding
