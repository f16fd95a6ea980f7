import MemphisOS.Embedding.HnswRuns

/-!
# Vectors that are lost

Where all scores are equal, the first vector for which the lists have no room is trimmed off every
list it is linked back to, so no search finds it.
-/

namespace MemphisOS.Embedding

namespace HnswIndex

variable {V S : Type} {self : HnswIndex V} {id a : String}

/-- Nothing is linked to the id, and the lists of the others are full. -/
def ShutOut (index : HnswIndex V) (id : String) : Prop :=
  ∀ node ∈ index.nodes, id ∉ node.neighbors ∧
    (node.id ≠ id → index.maxNeighbors ≤ node.neighbors.length)

variable [Preorder S] [DecidableLE S] {scoring : Scoring V S} {node : NodeEntry V}

/-- Equal scores keep the first neighbours of a list. -/
theorem trimNeighbors_equal (hequal : ∀ a b c d, scoring.cosine a b = scoring.cosine c d)
    (hstored : node.neighbors ⊆ self.ids) :
    (self.trimNeighbors scoring node).neighbors = node.neighbors.take self.maxNeighbors := by
  rw [trimNeighbors]
  split
  · rename_i hshort
    exact (List.take_of_length_le hshort).symm
  · set ranked := node.neighbors.map fun id =>
      SearchResult.mk id (((self.get id).map fun target =>
        scoring.cosine node.vector target.vector).getD scoring.missing) with hranked
    have hscore (item : SearchResult S) (hitem : item ∈ ranked) :
        item.score = scoring.cosine node.vector node.vector := by
      obtain ⟨b, hb, rfl⟩ := List.mem_map.mp hitem
      obtain ⟨target, hget⟩ := exists_get (hstored hb)
      rw [hget]
      exact hequal _ _ _ _
    have hsorted : ranked.insertionSort (fun a b => b.score ≤ a.score) = ranked := by
      refine (List.pairwise_of_forall_mem_list fun a ha b hb => ?_).insertionSort_eq
      rw [hscore a ha, hscore b hb]
    dsimp only
    rw [hsorted, List.map_take, hranked, List.map_map]
    exact congrArg (List.take self.maxNeighbors) (List.map_id node.neighbors)

theorem shutOut_modify {change : NodeEntry V → NodeEntry V}
    (h : self.ShutOut id) (hkeeps : self.Keeps a change)
    (hlist : ∀ node ∈ self.nodes, node.id = a → id ∉ (change node).neighbors)
    (hlength : ∀ node ∈ self.nodes, node.id = a → a ≠ id →
      self.maxNeighbors ≤ (change node).neighbors.length) : (self.modify a change).ShutOut id := by
  intro changed hchanged
  rcases mem_nodes_modify hchanged with ⟨hnode, -⟩ | ⟨node, hnode, heq, rfl⟩
  · exact h changed hnode
  · refine ⟨hlist node hnode heq, fun hne => hlength node hnode heq ?_⟩
    rwa [hkeeps.same_id node hnode heq] at hne

/-- The id is linked back to a full list, and trimmed off again. -/
theorem shutOut_linkBack (hequal : ∀ a b c d, scoring.cosine a b = scoring.cosine c d)
    (h : self.Tidy) (hshut : self.ShutOut id) (hid : id ∈ self.ids) (ha : a ∈ self.ids)
    (hne : a ≠ id) : (linkBack scoring id self a).ShutOut id := by
  obtain ⟨neighbor, hget⟩ := exists_get ha
  obtain ⟨hnode, hself⟩ := get_mem hget
  obtain ⟨hnot, hfull⟩ := hshut neighbor hnode
  have hlength := hfull (hself ▸ hne)
  have hlinked : (self.linked scoring id neighbor).neighbors =
      neighbor.neighbors.take self.maxNeighbors := by
    have hstored : addToSet neighbor.neighbors id ⊆ self.ids := by
      intro b hb
      rcases mem_addToSet.mp hb with hb | rfl
      · exact h.stored neighbor hnode hb
      · exact hid
    rw [linked, trimNeighbors_equal hequal hstored, addToSet, if_neg hnot,
      List.take_append_of_le_length hlength]
  rw [linkBack_eq scoring hget]
  refine shutOut_modify hshut (keeps_linked scoring h hid hne hget) (fun _ _ _ hmem => ?_)
    fun _ _ _ _ => ?_
  · rw [hlinked] at hmem
    exact hnot (List.mem_of_mem_take hmem)
  · rw [hlinked, List.length_take, Nat.min_eq_left hlength]

theorem shutOut_foldl {items : List String}
    (hequal : ∀ a b c d, scoring.cosine a b = scoring.cosine c d)
    (h : self.Tidy) (hshut : self.ShutOut id) (hid : id ∈ self.ids)
    (hitems : ∀ a ∈ items, a ∈ self.ids ∧ a ≠ id) :
    (items.foldl (linkBack scoring id) self).ShutOut id := by
  induction items generalizing self with
  | nil => exact hshut
  | cons a items ih =>
    obtain ⟨ha, hne⟩ := hitems a List.mem_cons_self
    have hsame : (linkBack scoring id self a).ids = self.ids := (sameIds_linkBack scoring).ids
    refine ih (tidy_linkBack scoring h hid ha hne) (shutOut_linkBack hequal h hshut hid ha hne)
      (by rwa [hsame]) fun b hb => ?_
    rw [hsame]
    exact hitems b (List.mem_cons_of_mem _ hb)

/-- A list that holds all others is as long as the list of all but one. -/
theorem length_of_full (h : self.Tidy) (hfull : self.Full) (hnode : node ∈ self.nodes) :
    self.nodes.length ≤ node.neighbors.length + 1 := by
  rw [← length_ids, ← List.length_cons (a := node.id)]
  refine (List.subperm_of_subset h.nodup fun b hb => ?_).length_le
  by_cases heq : b = node.id
  · exact heq ▸ List.mem_cons_self
  · obtain ⟨found, hget, hmem⟩ :=
      hfull node.id (List.mem_map_of_mem hnode) b hb (Ne.symm heq)
    rw [get_of_mem h hnode] at hget
    cases hget
    exact List.mem_cons_of_mem _ hmem

variable [DecidableLT S]

theorem shutOut_insert (hequal : ∀ a b c d, scoring.cosine a b = scoring.cosine c d)
    (h : self.Ready) (hnew : id ∉ self.ids) (hfull : self.Full)
    (hlength : self.nodes.length = self.maxNeighbors + 1) (vector : V) :
    (self.insert scoring id vector).ShutOut id := by
  obtain ⟨htidy, hid, hitems⟩ := joined_found scoring vector h.tidy hnew
  rw [insert_eq h.tidy h.anchored]
  dsimp only
  set nearest := self.found scoring (scoring.normalize vector) self.maxNeighbors
  set start := self.joined id (scoring.normalize vector) nearest
  have hshut : start.ShutOut id := by
    intro node hnode
    rcases List.mem_append.mp hnode with hnode | hnode
    · refine ⟨fun hmem => hnew (h.tidy.stored node hnode hmem), fun _ => ?_⟩
      have hle := length_of_full h.tidy hfull hnode
      rw [hlength] at hle
      exact Nat.le_of_succ_le_succ hle
    · obtain rfl := List.mem_singleton.mp hnode
      exact ⟨fun hmem => (hitems _ hmem).2 rfl, fun hne => absurd rfl hne⟩
  set grown := nearest.foldl (linkBack scoring id) start
  have hgrown : grown.Tidy := tidy_foldl scoring htidy hid hitems
  refine shutOut_modify (shutOut_foldl hequal htidy hshut hid hitems) (keeps_trim scoring hgrown)
    (fun node hnode _ hmem => ?_) fun node hnode _ hne => absurd rfl hne
  exact (shutOut_foldl hequal htidy hshut hid hitems node hnode).1
    ((trimNeighbors_subperm scoring node).subset hmem)

/-- What is shut out is not within reach, unless it is the entry point. -/
theorem not_reached_of_shutOut (h : self.ShutOut id)
    (hentry : entryOf self.ids self.entryPointId ≠ some id) : ¬ self.Reached id := by
  intro hreached
  obtain ⟨start, hstart, hlinked⟩ := reached_iff.mp hreached
  rcases Relation.ReflTransGen.cases_tail hlinked with heq | ⟨b, -, node, hget, hmem⟩
  · exact hentry (heq ▸ hstart)
  · exact (h node (get_mem hget).1).1 hmem

/-- **Lost vectors.** With equal scores the vector for which the lists have no room is lost. -/
theorem lost_insert (hequal : ∀ a b c d, scoring.cosine a b = scoring.cosine c d)
    (h : self.Ready) (hnew : id ∉ self.ids) (hfull : self.Full)
    (hlength : self.nodes.length = self.maxNeighbors + 1) (vector : V) :
    id ∈ (self.insert scoring id vector).ids ∧ ¬ (self.insert scoring id vector).Reached id := by
  obtain ⟨-, hsame, -⟩ := insert_spec scoring vector h.tidy h.anchored hnew
  have hids : (self.insert scoring id vector).ids = self.ids ++ [id] := hsame.ids.trans ids_joined
  refine ⟨hids ▸ List.mem_append_right _ (List.mem_singleton.mpr rfl),
    not_reached_of_shutOut (shutOut_insert hequal h hnew hfull hlength vector) fun heq => ?_⟩
  have hroom := h.room
  cases h.anchored with
  | empty hnodes hentry =>
    rw [hnodes] at hlength
    cases hlength
  | blank hblank hentry =>
    rw [← length_ids, hblank, List.length_singleton] at hlength
    omega
  | @pinned entry hne hmem hentry =>
    rw [entryOf_insert h scoring vector hnew hne hmem hentry] at heq
    exact hnew (Option.some.inj heq ▸ hmem)

/-- A call with a vector of the right length stores its id. -/
theorem stored_next (h : self.Ready) (scoring : Scoring V S) (c : IndexCall V) :
    self.ids ⊆ (self.next scoring c).ids ∧
      (self.next scoring c).dimensions = self.dimensions ∧
      (scoring.length c.vector = self.dimensions → c.id ∈ (self.next scoring c).ids) := by
  rw [next_eq]
  split
  · split
    · rename_i hid
      obtain ⟨-, -, -, hsame, -⟩ := relink_spec scoring c.vector h.tidy h.anchored hid
      rw [hsame.ids]
      exact ⟨fun _ ha => ha, hsame.dimensions, fun _ => hid⟩
    · rename_i hnew
      obtain ⟨-, hsame, -⟩ := insert_spec scoring c.vector h.tidy h.anchored hnew
      rw [hsame.ids, ids_joined]
      exact ⟨List.subset_append_left _ _, hsame.dimensions,
        fun _ => List.mem_append_right _ (List.mem_singleton.mpr rfl)⟩
  · rename_i hlength
    exact ⟨fun _ ha => ha, rfl, fun heq => absurd heq hlength⟩

theorem stored_after (h : self.Ready) (scoring : Scoring V S) (calls : List (IndexCall V))
    (hvalid : ∀ c ∈ calls, scoring.length c.vector = self.dimensions) :
    calls.map IndexCall.id ⊆ (self.after scoring calls).ids ∧
      (self.after scoring calls).dimensions = self.dimensions := by
  induction calls using List.reverseRecOn with
  | nil => exact ⟨List.nil_subset _, rfl⟩
  | append_singleton calls c ih =>
    obtain ⟨hids, hdimensions⟩ := ih fun d hd => hvalid d (List.mem_append_left _ hd)
    obtain ⟨hkept, hsame, hstored⟩ := stored_next (h.after scoring calls) scoring c
    rw [after_concat, List.map_append]
    refine ⟨fun a ha => ?_, hsame.trans hdimensions⟩
    rcases List.mem_append.mp ha with ha | ha
    · exact hkept (hids ha)
    · rw [List.mem_singleton.mp ha]
      exact hstored ((hvalid c (List.mem_append_right _ (List.mem_singleton.mpr rfl))).trans
        hdimensions.symm)

/-- **Equal scores.** With equal scores nothing is lost exactly while the calls name at most one
id more than a list has room for. -/
theorem reached_iff_of_equal (hequal : ∀ a b c d, scoring.cosine a b = scoring.cosine c d)
    (h : self.Ready) (hempty : self.nodes = []) (calls : List (IndexCall V))
    (hvalid : ∀ c ∈ calls, scoring.length c.vector = self.dimensions) :
    (∀ before, before <+: calls → ∀ id ∈ (self.after scoring before).ids,
      (self.after scoring before).Reached id) ↔
      (calls.map IndexCall.id).dedup.length ≤ self.maxNeighbors + 1 := by
  refine ⟨fun hreached => ?_, fun hroom before hbefore a ha =>
    reached_of_full (full_after h hempty scoring hbefore hroom) ha⟩
  induction calls using List.reverseRecOn with
  | nil => exact Nat.zero_le _
  | append_singleton calls c ih =>
    have hroom := ih (fun d hd => hvalid d (List.mem_append_left _ hd)) fun before hbefore =>
      hreached before (hbefore.trans (List.prefix_append calls [c]))
    obtain ⟨hids, hdimensions⟩ := stored_after h scoring calls fun d hd =>
      hvalid d (List.mem_append_left _ hd)
    obtain ⟨hsub, hmax⟩ := ids_after h hempty scoring calls
    have hready := h.after scoring calls
    have hcount : (calls.map IndexCall.id).dedup.length =
        (self.after scoring calls).nodes.length := by
      rw [← length_ids]
      refine List.Perm.length_eq ((List.perm_ext_iff_of_nodup (List.nodup_dedup _)
        hready.tidy.nodup).mpr fun a => ?_)
      rw [List.mem_dedup]
      exact ⟨fun ha => hids ha, fun ha => hsub ha⟩
    have hconcat := (((List.perm_append_singleton c calls).map IndexCall.id).dedup).length_eq
    rw [List.map_cons] at hconcat
    by_cases hmem : c.id ∈ calls.map IndexCall.id
    · rw [List.dedup_cons_of_mem hmem] at hconcat
      rwa [hconcat]
    · rw [List.dedup_cons_of_notMem hmem, List.length_cons] at hconcat
      by_contra hlong
      have hnew : c.id ∉ (self.after scoring calls).ids := fun hc => hmem (hsub hc)
      have hfull := full_after h hempty scoring (List.prefix_refl calls) hroom
      obtain ⟨hstored, hlost⟩ :=
        lost_insert hequal hready hnew hfull (by omega) c.vector
      have hlength := hvalid c (List.mem_append_right _ (List.mem_singleton.mpr rfl))
      have hnext : self.after scoring (calls ++ [c]) =
          (self.after scoring calls).insert scoring c.id c.vector := by
        rw [after_concat, next_eq, if_pos (hlength.trans hdimensions.symm), if_neg hnew]
      have hall := hreached (calls ++ [c]) (List.prefix_refl _) c.id
      rw [hnext] at hall
      exact hlost (hall hstored)

end HnswIndex

end MemphisOS.Embedding
