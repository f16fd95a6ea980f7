import MemphisOS.Ecma.Value
import MemphisOS.Sequences.Parts

/-!
# Maps

A `Map` with string keys is the list of its entries in the order of their first insertion.
`setMember` is `Map.prototype.set`.
-/

namespace Ecma

open Sequences (firsts keys_firsts mem_keys_firsts firsts_concat)

variable {α : Type} {entries : List (JsString × α)} {k k' : JsString} {a : α}

/-- The entry set last is the one found. -/
theorem lookup_setMember (k : JsString) (a : α) (entries : List (JsString × α)) (k' : JsString) :
    (setMember k a entries).lookup k' = if k' = k then some a else entries.lookup k' := by
  induction entries with
  | nil =>
    by_cases hk : k' = k
    · simp [setMember, hk]
    · simp [setMember, hk, List.lookup_cons, beq_false_of_ne hk]
  | cons entry entries ih =>
    obtain ⟨key, b⟩ := entry
    by_cases hkey : key = k
    · subst hkey
      by_cases hk : k' = key
      · simp [setMember, hk]
      · simp [setMember, hk, List.lookup_cons, beq_false_of_ne hk]
    · rw [setMember, if_neg hkey, List.lookup_cons, List.lookup_cons, ih]
      by_cases hk : k' = key
      · subst hk
        simp [hkey]
      · simp [beq_false_of_ne hk]

/-- What a key finds among the entries of some keys. -/
theorem lookup_filter (p : JsString → Bool) (entries : List (JsString × α)) (k : JsString) :
    (entries.filter fun entry => p entry.1).lookup k = if p k then entries.lookup k else none := by
  induction entries with
  | nil => simp
  | cons entry entries ih =>
    obtain ⟨key, b⟩ := entry
    rw [List.filter_cons, List.lookup_cons]
    by_cases hk : k = key
    · subst hk
      by_cases hp : p k = true
      · simp [hp]
      · simpa [hp] using ih
    · by_cases hp : p key = true
      · rw [if_pos hp, List.lookup_cons, ih]
        simp [beq_false_of_ne hk]
      · rw [if_neg hp, ih]
        simp [beq_false_of_ne hk]

/-- What a key finds among converted entries. -/
theorem lookup_map {β : Type} (f : α → β) (members : List (JsString × α)) (k : JsString) :
    (members.map fun m => (m.1, f m.2)).lookup k = (members.lookup k).map f := by
  induction members with
  | nil => rfl
  | cons m members ih =>
    rw [List.map_cons, List.lookup_cons, List.lookup_cons, ih]
    split <;> rfl

/-- What a key finds is an entry. -/
theorem mem_of_lookup_eq_some (h : entries.lookup k = some a) : (k, a) ∈ entries := by
  induction entries with
  | nil => cases h
  | cons entry entries ih =>
    obtain ⟨key, b⟩ := entry
    rw [List.lookup_cons] at h
    split at h
    · next hkey =>
      obtain rfl := eq_of_beq hkey
      obtain rfl := Option.some.inj h
      exact List.mem_cons_self
    · exact List.mem_cons_of_mem _ (ih h)

/-- Setting a key to what it finds changes nothing. -/
theorem setMember_eq_self (h : entries.lookup k = some a) : setMember k a entries = entries := by
  induction entries with
  | nil => cases h
  | cons entry entries ih =>
    obtain ⟨key, b⟩ := entry
    rw [List.lookup_cons] at h
    rw [setMember]
    by_cases hkey : key = k
    · rw [hkey, beq_self_eq_true] at h
      obtain rfl := Option.some.inj h
      rw [if_pos hkey, hkey]
    · rw [beq_false_of_ne (Ne.symm hkey)] at h
      rw [if_neg hkey, ih h]

/-- Of members with one key the last is found. -/
theorem lookup_defineMembers (members : List (JsString × α)) (k : JsString) :
    (defineMembers members).lookup k = members.reverse.lookup k := by
  induction members using List.reverseRecOn with
  | nil => rfl
  | append_singleton members m ih =>
    rw [List.reverse_append, List.reverse_singleton, List.singleton_append, List.lookup_cons, ← ih,
      defineMembers, List.foldl_append]
    exact (lookup_setMember m.1 m.2 (defineMembers members) k).trans (by
      by_cases hk : k = m.1
      · rw [if_pos hk, hk, beq_self_eq_true]
      · rw [if_neg hk, beq_false_of_ne hk])

/-- With different keys, the entries are what the keys find. -/
theorem mem_iff_lookup (hkeys : (entries.map Prod.fst).Nodup) :
    (k, a) ∈ entries ↔ entries.lookup k = some a :=
  ⟨fun h => lookup_of_mem hkeys h, mem_of_lookup_eq_some⟩

/-- Entries named by their keys: setting a key that is among them changes its entry only. -/
theorem setMember_map {E : Type} {key : E → JsString} {f : E → α} {l : List E}
    (hkeys : (l.map key).Nodup) (hk : k ∈ l.map key) (a : α) :
    setMember k a (l.map fun e => (key e, f e)) =
      l.map fun e => (key e, if key e = k then a else f e) := by
  induction l with
  | nil => cases hk
  | cons e l ih =>
    obtain ⟨hnew, hkeys⟩ := List.nodup_cons.mp hkeys
    rw [List.map_cons, List.map_cons, setMember]
    by_cases heq : key e = k
    · rw [if_pos heq, if_pos heq, heq]
      refine congrArg _ (List.map_congr_left fun e' he' => ?_)
      rw [if_neg]
      rintro rfl
      exact hnew (heq ▸ List.mem_map_of_mem he')
    · rw [if_neg heq, if_neg heq, ih hkeys]
      exact (List.mem_cons.mp hk).resolve_left (Ne.symm heq)

/-! ## Series of events -/

section Series

variable {E : Type} (key : E → JsString) (start : E → α) (add : α → E → α)

/-- The entry under the key of an event takes the event in. It is started if there is none. -/
def recordEntry (entries : List (JsString × α)) (e : E) : List (JsString × α) :=
  setMember (key e) (add ((entries.lookup (key e)).getD (start e)) e) entries

/-- The entry an event has started, with all events of its key. -/
def seriesOf (events : List E) (first : E) : JsString × α :=
  (key first, (events.filter fun e => key e = key first).foldl add (start first))

variable {key start add}

theorem seriesOf_concat (events : List E) (e first : E) :
    seriesOf key start add (events ++ [e]) first =
      (key first, if key first = key e then add (seriesOf key start add events first).2 e
        else (seriesOf key start add events first).2) := by
  rw [seriesOf, List.filter_append]
  by_cases hkey : key first = key e
  · rw [if_pos hkey, List.filter_cons_of_pos (by simp [hkey]), List.filter_nil, List.foldl_append]
    rfl
  · rw [if_neg hkey, List.filter_cons_of_neg (by simpa using Ne.symm hkey), List.filter_nil,
      List.append_nil]
    rfl

/-- **The first event of each key starts an entry, which takes in all events of the key.** -/
theorem foldl_recordEntry (events : List E) :
    events.foldl (recordEntry key start add) [] =
      (firsts key [] events).map (seriesOf key start add events) := by
  induction events using List.reverseRecOn with
  | nil => rfl
  | append_singleton events e ih =>
    have hnodup := (keys_firsts key [] events).1
    have hkeys : ((firsts key [] events).map (seriesOf key start add events)).map Prod.fst =
        (firsts key [] events).map key := List.map_map
    have hmem : key e ∈ (firsts key [] events).map key ↔ key e ∈ events.map key := by
      rw [mem_keys_firsts]
      exact and_iff_left List.not_mem_nil
    have hconcat : (firsts key [] events).map (seriesOf key start add (events ++ [e])) =
        (firsts key [] events).map fun first => (key first, if key first = key e
          then add (seriesOf key start add events first).2 e
          else (seriesOf key start add events first).2) :=
      List.map_congr_left fun first _ => seriesOf_concat events e first
    rw [List.foldl_append, List.foldl_cons, List.foldl_nil, ih, recordEntry, firsts_concat,
      List.nil_append]
    by_cases hkey : key e ∈ events.map key
    · obtain ⟨first, hfirst, heq⟩ := List.mem_map.mp (hmem.mpr hkey)
      have hlookup := lookup_of_mem (hkeys ▸ hnodup)
        (List.mem_map_of_mem (f := seriesOf key start add events) hfirst)
      rw [if_pos hkey, hconcat, ← heq]
      change List.lookup (key first) _ = _ at hlookup
      rw [hlookup, Option.getD_some]
      refine (setMember_map hnodup (heq ▸ hmem.mpr hkey) _).trans ?_
      refine List.map_congr_left fun other hother => ?_
      by_cases hother' : key other = key first
      · rw [if_pos hother', if_pos hother', List.inj_on_of_nodup_map hnodup hother hfirst hother']
      · rw [if_neg hother', if_neg hother']
        rfl
    · have hnew : key e ∉
          ((firsts key [] events).map (seriesOf key start add events)).map Prod.fst := by
        rw [hkeys]
        exact mt hmem.mp hkey
      have hnone : ((firsts key [] events).map (seriesOf key start add events)).lookup (key e) =
          none := List.lookup_eq_none_iff.mpr fun entry hentry => by
        rw [bne_iff_ne]
        rintro heq
        exact hnew (heq ▸ List.mem_map_of_mem hentry)
      have hfilter : (events.filter fun e' => key e' = key e) = [] := List.filter_eq_nil_iff.mpr
        fun e' he' heq => hkey (of_decide_eq_true heq ▸ List.mem_map_of_mem he')
      rw [if_neg hkey, setMember_of_not_mem hnew, hnone, Option.getD_none, List.map_append, hconcat,
        List.map_singleton, seriesOf_concat, if_pos rfl, seriesOf, hfilter]
      refine congrArg (· ++ _) (List.map_congr_left fun first hfirst => ?_)
      rw [if_neg fun heq : key first = key e => hkey (hmem.mp (heq ▸ List.mem_map_of_mem hfirst))]
      rfl

end Series

end Ecma
