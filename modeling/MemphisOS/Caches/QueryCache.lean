import Mathlib
import MemphisOS.Ecma.Tallies
import MemphisOS.Systems.Transition

/-!
# The query cache

Results of queries that are kept for some time, by the clock of the system, which may be set back.
Where the cache is full, the entry that was stored first by the clock makes room.
-/

namespace MemphisOS.Caches

open Ecma

structure QueryCacheEntry (T : Type) where
  data : T
  timestamp : ℤ
  hits : ℕ

structure QueryCache (T : Type) where
  cache : List (JsString × QueryCacheEntry T)
  maxAge : JsNumber
  maxSize : JsNumber

/-- The calls, each with what the clock shows. -/
inductive QueryCall (T : Type) where
  | get (query : JsString) (now : ℤ)
  | set (query : JsString) (result : T) (now : ℤ)
  | has (query : JsString) (now : ℤ)
  | prune (now : ℤ)
  | clear

namespace QueryCache

variable {T : Type} (self : QueryCache T)

def new (maxAge maxSize : JsNumber) : QueryCache T := ⟨[], maxAge, maxSize⟩

def isExpired (now : ℤ) (entry : QueryCacheEntry T) : Bool :=
  self.maxAge.exceededBy ((now - entry.timestamp : ℤ) : ℚ)

def get (query : JsString) (now : ℤ) : Option T × QueryCache T :=
  match self.cache.lookup query with
  | none => (none, self)
  | some entry =>
    if self.isExpired now entry then
      (none, { self with cache := deleteEntry query self.cache })
    else
      (some entry.data,
        { self with cache := setMember query { entry with hits := entry.hits + 1 } self.cache })

/-- The loop of `evictOldest`, with the entry that is the oldest so far. -/
def oldestOf : List (JsString × QueryCacheEntry T) → Option (JsString × QueryCacheEntry T) →
    Option (JsString × QueryCacheEntry T)
  | [], oldest => oldest
  | entry :: entries, none => oldestOf entries (some entry)
  | entry :: entries, some oldest =>
    if entry.2.timestamp < oldest.2.timestamp then oldestOf entries (some entry)
    else oldestOf entries (some oldest)

/-- `evictOldest`. An empty query counts as no query. -/
def evictOldest : QueryCache T :=
  match oldestOf self.cache none with
  | some oldest =>
    if oldest.1 = [] then self else { self with cache := deleteEntry oldest.1 self.cache }
  | none => self

def set (query : JsString) (result : T) (now : ℤ) : QueryCache T :=
  let room := if self.maxSize.reachedBy self.cache.length then self.evictOldest else self
  { room with cache := setMember query ⟨result, now, 0⟩ room.cache }

def has (query : JsString) (now : ℤ) : Bool × QueryCache T :=
  match self.cache.lookup query with
  | none => (false, self)
  | some entry =>
    if self.isExpired now entry then
      (false, { self with cache := deleteEntry query self.cache })
    else (true, self)

/-- `prune`, without the number it returns. -/
def prune (now : ℤ) : QueryCache T :=
  { self with cache := self.cache.filter fun entry => !self.isExpired now entry.2 }

def clear : QueryCache T := { self with cache := [] }

def next : QueryCall T → QueryCache T
  | .get query now => (self.get query now).2
  | .set query result now => self.set query result now
  | .has query now => (self.has query now).2
  | .prune now => self.prune now
  | .clear => self.clear

end QueryCache

/-- A cache that starts empty. -/
def queryCacheSystem (T : Type) (maxAge maxSize : JsNumber) :
    TransitionSystem (QueryCache T) (QueryCall T) :=
  .ofFunction (.new maxAge maxSize) QueryCache.next

/-! ## What was stored -/

namespace QueryCall

variable {T : Type}

/-- What the clock shows in a call that asks for it. -/
def now? : QueryCall T → Option ℤ
  | get _ now => some now
  | set _ _ now => some now
  | has _ now => some now
  | prune now => some now
  | clear => none

/-- The query that a result is stored for. -/
def stored? : QueryCall T → Option JsString
  | set query _ _ => some query
  | _ => none

/-- What was stored last for each query, and when, after a further call. -/
def lastStoredStep (stored : JsString → Option (T × ℤ)) : QueryCall T → JsString → Option (T × ℤ)
  | set query result now => Function.update stored query (some (result, now))
  | clear => fun _ => none
  | _ => stored

/-- What was stored last for each query since the cache was cleared, and when. -/
def lastStored (calls : List (QueryCall T)) : JsString → Option (T × ℤ) :=
  calls.foldl lastStoredStep fun _ => none

end QueryCall

namespace QueryCache

open QueryCall

variable {T : Type} {self room : QueryCache T} {maxAge maxSize : JsNumber} {query key : JsString}
  {entry : QueryCacheEntry T} {entries : List (JsString × QueryCacheEntry T)} {now time : ℤ}
  {result : T} {calls : List (QueryCall T)} {call : QueryCall T} {s : QueryCache T}

theorem lastStored_concat (calls : List (QueryCall T)) (call : QueryCall T) :
    lastStored (calls ++ [call]) = lastStoredStep (lastStored calls) call := by
  rw [lastStored, List.foldl_append]
  rfl

/-! ## Entries -/

theorem lookup_deleteEntry (k : JsString) (entries : List (JsString × QueryCacheEntry T))
    (key : JsString) : (deleteEntry k entries).lookup key =
      if key = k then none else entries.lookup key := by
  rw [deleteEntry, lookup_filter (fun key => decide (key ≠ k))]
  by_cases hkey : key = k
  · rw [if_pos hkey, if_neg (by simpa using hkey)]
  · rw [if_neg hkey, if_pos (by simpa using hkey)]

/-- The loop finds an entry, unless there is none. -/
theorem oldestOf_mem {oldest oldest' : Option (JsString × QueryCacheEntry T)}
    (h : oldestOf entries oldest = oldest') :
    (∀ o ∈ oldest', o ∈ entries ∨ o ∈ oldest) ∧
      (oldest' = none → entries = [] ∧ oldest = none) := by
  induction entries generalizing oldest with
  | nil =>
    rw [oldestOf] at h
    rw [← h]
    exact ⟨fun o ho => .inr ho, fun hnone => ⟨rfl, hnone⟩⟩
  | cons entry entries ih =>
    cases oldest with
    | none =>
      rw [oldestOf] at h
      obtain ⟨hmem, hnone⟩ := ih h
      refine ⟨fun o ho => .inl ?_, fun h' => by cases (hnone h').2⟩
      rcases hmem o ho with hmem | hmem
      · exact List.mem_cons_of_mem _ hmem
      · obtain rfl := Option.some.inj hmem
        exact List.mem_cons_self
    | some first =>
      rw [oldestOf] at h
      split at h
      · obtain ⟨hmem, hnone⟩ := ih h
        refine ⟨fun o ho => .inl ?_, fun h' => by cases (hnone h').2⟩
        rcases hmem o ho with hmem | hmem
        · exact List.mem_cons_of_mem _ hmem
        · obtain rfl := Option.some.inj hmem
          exact List.mem_cons_self
      · obtain ⟨hmem, hnone⟩ := ih h
        refine ⟨fun o ho => ?_, fun h' => by cases (hnone h').2⟩
        rcases hmem o ho with hmem | hmem
        · exact .inl (List.mem_cons_of_mem _ hmem)
        · exact .inr hmem

/-- The entry of an evicted query is deleted, or nothing is. -/
theorem evictOldest_cases (self : QueryCache T) :
    self.evictOldest = self ∧ (self.cache = [] ∨ [] ∈ self.cache.map Prod.fst) ∨
      ∃ key ∈ self.cache.map Prod.fst,
        self.evictOldest = { self with cache := deleteEntry key self.cache } := by
  rw [evictOldest]
  cases holdest : oldestOf self.cache none with
  | none => exact .inl ⟨rfl, .inl ((oldestOf_mem holdest).2 rfl).1⟩
  | some oldest =>
    have hmem : oldest ∈ self.cache := ((oldestOf_mem holdest).1 oldest rfl).resolve_right
      fun h => by cases h
    dsimp only
    split
    · next hempty => exact .inl ⟨rfl, .inr (hempty ▸ List.mem_map_of_mem hmem)⟩
    · exact .inr ⟨oldest.1, List.mem_map_of_mem hmem, rfl⟩

/-! ## What holds after any calls -/

/-- The cache has only what was stored last, once for each query. -/
structure Sound (maxAge maxSize : JsNumber) (calls : List (QueryCall T)) (s : QueryCache T) :
    Prop where
  maxAge_eq : s.maxAge = maxAge
  maxSize_eq : s.maxSize = maxSize
  keys : (s.cache.map Prod.fst).Nodup
  stored : ∀ query entry, s.cache.lookup query = some entry →
    lastStored calls query = some (entry.data, entry.timestamp)

/-- Fewer entries of the same cache. -/
theorem Sound.less (h : Sound maxAge maxSize calls self)
    (hsub : entries.Sublist self.cache) :
    Sound maxAge maxSize calls { self with cache := entries } where
  maxAge_eq := h.maxAge_eq
  maxSize_eq := h.maxSize_eq
  keys := h.keys.sublist (hsub.map _)
  stored := fun query entry hlookup => h.stored query entry
    ((mem_iff_lookup h.keys).mp (hsub.subset (mem_of_lookup_eq_some hlookup)))

theorem Sound.evictOldest (h : Sound maxAge maxSize calls self) :
    Sound maxAge maxSize calls self.evictOldest := by
  rcases evictOldest_cases self with ⟨hsame, -⟩ | ⟨key, -, hdelete⟩
  · rw [hsame]
    exact h
  · rw [hdelete]
    exact h.less List.filter_sublist

/-- The calls that store nothing and clear nothing leave what was stored last. -/
theorem Sound.of_eq (h : Sound maxAge maxSize calls self)
    (hcall : lastStoredStep (lastStored calls) call = lastStored calls) :
    Sound maxAge maxSize (calls ++ [call]) self where
  maxAge_eq := h.maxAge_eq
  maxSize_eq := h.maxSize_eq
  keys := h.keys
  stored := by
    rw [lastStored_concat, hcall]
    exact h.stored

theorem Sound.set (h : Sound maxAge maxSize calls self) (query : JsString) (result : T) (now : ℤ) :
    Sound maxAge maxSize (calls ++ [.set query result now]) (self.set query result now) := by
  have hroom : ∀ room : QueryCache T, Sound maxAge maxSize calls room →
      Sound maxAge maxSize (calls ++ [.set query result now])
        { room with cache := setMember query ⟨result, now, 0⟩ room.cache } := by
    intro room hroom
    refine ⟨hroom.maxAge_eq, hroom.maxSize_eq, nodup_setMember hroom.keys _ _, ?_⟩
    intro key entry hlookup
    rw [lastStored_concat, lastStoredStep]
    dsimp only at hlookup
    rw [lookup_setMember] at hlookup
    by_cases hkey : key = query
    · rw [if_pos hkey] at hlookup
      obtain rfl := Option.some.inj hlookup
      rw [hkey, Function.update_self]
    · rw [if_neg hkey] at hlookup
      rw [Function.update_of_ne hkey]
      exact hroom.stored key entry hlookup
  rw [QueryCache.set]
  split
  · exact hroom _ h.evictOldest
  · exact hroom _ h

theorem Sound.next (h : Sound maxAge maxSize calls self) (call : QueryCall T) :
    Sound maxAge maxSize (calls ++ [call]) (self.next call) := by
  cases call with
  | get query now =>
    refine Sound.of_eq ?_ rfl
    rw [QueryCache.next, get]
    cases hlookup : self.cache.lookup query with
    | none => exact h
    | some entry =>
      dsimp only
      split
      · exact h.less List.filter_sublist
      · refine ⟨h.maxAge_eq, h.maxSize_eq, nodup_setMember h.keys _ _, ?_⟩
        intro key hit hhit
        dsimp only at hhit
        rw [lookup_setMember] at hhit
        by_cases hkey : key = query
        · rw [if_pos hkey] at hhit
          obtain rfl := Option.some.inj hhit
          rw [hkey]
          exact h.stored query entry hlookup
        · rw [if_neg hkey] at hhit
          exact h.stored key hit hhit
  | set query result now => exact h.set query result now
  | has query now =>
    refine Sound.of_eq ?_ rfl
    rw [QueryCache.next, has]
    cases hlookup : self.cache.lookup query with
    | none => exact h
    | some entry =>
      dsimp only
      split
      · exact h.less List.filter_sublist
      · exact h
  | prune now => exact Sound.of_eq (h.less List.filter_sublist) rfl
  | clear =>
    refine ⟨h.maxAge_eq, h.maxSize_eq, List.nodup_nil, ?_⟩
    intro key entry hlookup
    cases hlookup

theorem sound_of_run (hrun : (queryCacheSystem T maxAge maxSize).Run calls s) :
    Sound maxAge maxSize calls s := by
  refine hrun.induct (P := Sound maxAge maxSize) ?_ ?_
  · rintro s rfl
    refine ⟨rfl, rfl, List.nodup_nil, ?_⟩
    intro key entry hlookup
    cases hlookup
  · rintro calls s call t - h rfl
    exact h.next call

/-! ## The number of entries -/

theorem reachedBy_mono {limit : JsNumber} {amount amount' : ℚ} (hle : amount ≤ amount')
    (h : limit.reachedBy amount = true) : limit.reachedBy amount' = true := by
  rw [JsNumber.reachedBy, Bool.and_eq_true, decide_eq_true_eq, decide_eq_true_eq] at h ⊢
  refine ⟨h.1, h.2.trans ?_⟩
  exact_mod_cast hle

theorem mem_keys_setMember {k key : JsString} {a : QueryCacheEntry T}
    (h : key ∈ (setMember k a entries).map Prod.fst) : key = k ∨ key ∈ entries.map Prod.fst := by
  rw [keys_setMember] at h
  split at h
  · exact .inr h
  · exact (List.mem_append.mp h).symm.imp_left List.mem_singleton.mp

theorem length_setMember_le (k : JsString) (a : QueryCacheEntry T)
    (entries : List (JsString × QueryCacheEntry T)) :
    (setMember k a entries).length ≤ entries.length + 1 := by
  have hlength := congrArg List.length (keys_setMember k a entries)
  rw [List.length_map] at hlength
  split at hlength
  · rw [hlength, List.length_map]
    omega
  · rw [hlength, List.length_append, List.length_map]
    exact Nat.le_refl _

/-- A number of entries that a limit allows: one, or no more than fit before it is reached. -/
def Allowed (maxSize : JsNumber) (n : ℕ) : Prop :=
  n ≤ 1 ∨ maxSize.reachedBy ((n - 1 : ℕ) : ℚ) = false

theorem Allowed.less {m n : ℕ} (h : Allowed maxSize n) (hle : m ≤ n) : Allowed maxSize m := by
  rcases h with h | h
  · exact .inl (hle.trans h)
  · refine .inr (Bool.eq_false_iff.mpr fun hreached => ?_)
    rw [reachedBy_mono (Nat.cast_le.mpr (Nat.sub_le_sub_right hle 1)) hreached] at h
    cases h

/-- The cache has no entry for the empty query, and no more entries than are allowed. -/
structure Bounded (maxSize : JsNumber) (s : QueryCache T) : Prop where
  maxSize_eq : s.maxSize = maxSize
  named : [] ∉ s.cache.map Prod.fst
  allowed : Allowed maxSize s.cache.length

theorem Bounded.less (h : Bounded maxSize self) (hsub : entries.Sublist self.cache) :
    Bounded maxSize { self with cache := entries } where
  maxSize_eq := h.maxSize_eq
  named := fun hmem => h.named ((hsub.map _).subset hmem)
  allowed := h.allowed.less hsub.length_le

/-- Storing a result evicts an entry where the limit is reached. -/
theorem Bounded.set (h : Bounded maxSize self) (hquery : query ≠ []) (result : T) (now : ℤ) :
    Bounded maxSize (self.set query result now) := by
  have hroom : ∀ room : QueryCache T, room.maxSize = maxSize → [] ∉ room.cache.map Prod.fst →
      Allowed maxSize (room.cache.length + 1) →
      Bounded maxSize { room with cache := setMember query ⟨result, now, 0⟩ room.cache } := by
    intro room hsize hnamed hallowed
    refine ⟨hsize, fun hmem => ?_, hallowed.less (length_setMember_le _ _ _)⟩
    rcases mem_keys_setMember hmem with hempty | hmem
    · exact hquery hempty.symm
    · exact hnamed hmem
  rw [QueryCache.set]
  split
  · next hreached =>
    rcases evictOldest_cases self with ⟨hsame, hempty⟩ | ⟨key, hkey, hdelete⟩
    · have hnil := hempty.resolve_right h.named
      rw [hsame]
      exact hroom self h.maxSize_eq h.named (.inl (by rw [hnil]; exact Nat.le_refl _))
    · have hless : (deleteEntry key self.cache).length < self.cache.length := by
        obtain ⟨entry, hentry, rfl⟩ := List.mem_map.mp hkey
        exact List.length_filter_lt_length_iff_exists.mpr ⟨entry, hentry, by simp⟩
      rw [hdelete]
      exact hroom _ h.maxSize_eq (fun hmem => h.named (mem_keys_deleteEntry.mp hmem).1)
        (h.allowed.less hless)
  · next hreached =>
    rw [h.maxSize_eq, Bool.not_eq_true] at hreached
    exact hroom self h.maxSize_eq h.named (.inr hreached)

theorem Bounded.next (h : Bounded maxSize self) (hcall : call.stored? ≠ some []) :
    Bounded maxSize (self.next call) := by
  cases call with
  | get query now =>
    rw [QueryCache.next, get]
    cases hlookup : self.cache.lookup query with
    | none => exact h
    | some entry =>
      dsimp only
      split
      · exact h.less List.filter_sublist
      · have hkeys : (setMember query { entry with hits := entry.hits + 1 } self.cache).map Prod.fst =
            self.cache.map Prod.fst := by
          rw [keys_setMember, if_pos (lookup_isSome_iff.mp (by rw [hlookup]; rfl))]
        refine ⟨h.maxSize_eq, ?_, ?_⟩
        · rw [hkeys]
          exact h.named
        · have hlength := congrArg List.length hkeys
          rw [List.length_map, List.length_map] at hlength
          rw [hlength]
          exact h.allowed
  | set query result now => exact h.set (fun hempty => hcall (hempty ▸ rfl)) result now
  | has query now =>
    rw [QueryCache.next, has]
    cases hlookup : self.cache.lookup query with
    | none => exact h
    | some entry =>
      dsimp only
      split
      · exact h.less List.filter_sublist
      · exact h
  | prune now => exact h.less List.filter_sublist
  | clear => exact h.less (List.nil_sublist _)

/-- The queries that results were stored for. -/
def storedQueries (calls : List (QueryCall T)) : List JsString := (calls.filterMap stored?).dedup

/-- A cache that was never full has what was stored last, but for what expired. -/
structure Roomy (calls : List (QueryCall T)) (s : QueryCache T) : Prop where
  keys : ∀ key ∈ s.cache.map Prod.fst, key ∈ storedQueries calls
  kept : ∀ query result time, lastStored calls query = some (result, time) →
    (∃ entry, s.cache.lookup query = some entry ∧ entry.data = result ∧
        entry.timestamp = time) ∨
      ∃ now ∈ calls.filterMap now?, s.maxAge.exceededBy ((now - time : ℤ) : ℚ) = true

theorem storedQueries_subset {more : List (QueryCall T)} (h : key ∈ storedQueries calls) :
    key ∈ storedQueries (calls ++ more) := by
  rw [storedQueries, List.mem_dedup] at h ⊢
  rw [List.filterMap_append]
  exact List.mem_append_left _ h

/-- Entries are taken away that are expired at a moment of the last call. -/
theorem Roomy.less {s' : QueryCache T} (h : Roomy calls self) (hmaxAge : s'.maxAge = self.maxAge)
    (hcall : lastStoredStep (lastStored calls) call = lastStored calls)
    (hkeys : ∀ key ∈ s'.cache.map Prod.fst, key ∈ self.cache.map Prod.fst)
    (hkept : ∀ query entry, self.cache.lookup query = some entry →
      (∃ entry', s'.cache.lookup query = some entry' ∧ entry'.data = entry.data ∧
          entry'.timestamp = entry.timestamp) ∨
        ∃ now ∈ call.now?, self.isExpired now entry = true) :
    Roomy (calls ++ [call]) s' where
  keys := fun key hkey => storedQueries_subset (h.keys key (hkeys key hkey))
  kept := by
    intro query result time hstored
    rw [lastStored_concat, hcall] at hstored
    rw [hmaxAge, List.filterMap_append]
    rcases h.kept query result time hstored with ⟨entry, hlookup, rfl, rfl⟩ | ⟨now, hnow, hexpired⟩
    · rcases hkept query entry hlookup with hentry | ⟨now, hnow, hexpired⟩
      · exact .inl hentry
      · refine .inr ⟨now, List.mem_append_right _ ?_, hexpired⟩
        rw [List.filterMap_cons, hnow]
        exact List.mem_cons_self
    · exact .inr ⟨now, List.mem_append_left _ hnow, hexpired⟩

/-- An entry that expired is taken away by the call that finds it so. -/
theorem Roomy.expire (h : Roomy calls self)
    (hcall : lastStoredStep (lastStored calls) call = lastStored calls)
    (hnow : now ∈ call.now?) (hlookup : self.cache.lookup query = some entry)
    (hexpired : self.isExpired now entry = true) :
    Roomy (calls ++ [call]) { self with cache := deleteEntry query self.cache } := by
  refine h.less rfl hcall (fun key hkey => (mem_keys_deleteEntry.mp hkey).1) ?_
  intro key entry' hentry
  by_cases hkey : key = query
  · rw [hkey, hlookup] at hentry
    obtain rfl := Option.some.inj hentry
    exact .inr ⟨now, hnow, hexpired⟩
  · refine .inl ⟨entry', ?_, rfl, rfl⟩
    dsimp only
    rw [lookup_deleteEntry, if_neg hkey, hentry]

theorem Roomy.same (h : Roomy calls self)
    (hcall : lastStoredStep (lastStored calls) call = lastStored calls) :
    Roomy (calls ++ [call]) self :=
  h.less rfl hcall (fun _ hkey => hkey) fun _ entry hlookup => .inl ⟨entry, hlookup, rfl, rfl⟩

/-- No entry is evicted where there is room for the results of all queries. -/
theorem Roomy.set (h : Roomy calls self) (hsound : Sound maxAge maxSize calls self)
    (hroom : maxSize.reachedBy ((storedQueries calls).length : ℚ) = false)
    (query : JsString) (result : T) (now : ℤ) :
    Roomy (calls ++ [.set query result now]) (self.set query result now) := by
  have hlength : self.cache.length ≤ (storedQueries calls).length := by
    rw [← List.length_map (f := Prod.fst)]
    exact (hsound.keys.subperm h.keys).length_le
  have hreached : ¬ self.maxSize.reachedBy (self.cache.length : ℚ) = true := by
    intro hreached
    rw [hsound.maxSize_eq] at hreached
    rw [reachedBy_mono (Nat.cast_le.mpr hlength) hreached] at hroom
    cases hroom
  rw [QueryCache.set, if_neg hreached]
  refine ⟨fun key hkey => ?_, fun key result' time hstored => ?_⟩
  · rcases mem_keys_setMember hkey with rfl | hkey
    · rw [storedQueries, List.mem_dedup, List.filterMap_append]
      exact List.mem_append_right _ List.mem_cons_self
    · exact storedQueries_subset (h.keys key hkey)
  · rw [lastStored_concat, lastStoredStep] at hstored
    dsimp only
    rw [lookup_setMember]
    by_cases hkey : key = query
    · rw [hkey, Function.update_self] at hstored
      obtain ⟨rfl, rfl⟩ := Prod.mk.inj (Option.some.inj hstored)
      rw [if_pos hkey]
      exact .inl ⟨_, rfl, rfl, rfl⟩
    · rw [Function.update_of_ne hkey] at hstored
      rw [if_neg hkey, List.filterMap_append]
      refine (h.kept key result' time hstored).imp_right ?_
      rintro ⟨now, hnow, hexpired⟩
      exact ⟨now, List.mem_append_left _ hnow, hexpired⟩

theorem Roomy.next (h : Roomy calls self) (hsound : Sound maxAge maxSize calls self)
    (hroom : maxSize.reachedBy ((storedQueries calls).length : ℚ) = false)
    (call : QueryCall T) : Roomy (calls ++ [call]) (self.next call) := by
  cases call with
  | get query now =>
    rw [QueryCache.next, get]
    cases hlookup : self.cache.lookup query with
    | none => exact h.same rfl
    | some entry =>
      dsimp only
      split
      · next hexpired => exact h.expire rfl rfl hlookup hexpired
      · refine h.less rfl rfl (fun key hkey => ?_) fun key entry' hentry => .inl ?_
        · rcases mem_keys_setMember hkey with rfl | hkey
          · exact lookup_isSome_iff.mp (by rw [hlookup]; rfl)
          · exact hkey
        · dsimp only
          rw [lookup_setMember]
          by_cases hkey : key = query
          · rw [hkey, hlookup] at hentry
            obtain rfl := Option.some.inj hentry
            rw [if_pos hkey]
            exact ⟨_, rfl, rfl, rfl⟩
          · rw [if_neg hkey]
            exact ⟨entry', hentry, rfl, rfl⟩
  | set query result now => exact h.set hsound hroom query result now
  | has query now =>
    rw [QueryCache.next, has]
    cases hlookup : self.cache.lookup query with
    | none => exact h.same rfl
    | some entry =>
      dsimp only
      split
      · next hexpired => exact h.expire rfl rfl hlookup hexpired
      · exact h.same rfl
  | prune now =>
    refine h.less rfl rfl (fun key hkey => (List.filter_sublist.map _).subset hkey) ?_
    intro key entry hlookup
    by_cases hexpired : self.isExpired now entry = true
    · exact .inr ⟨now, rfl, hexpired⟩
    · rw [Bool.not_eq_true] at hexpired
      refine .inl ⟨entry, (mem_iff_lookup (hsound.keys.sublist
        (List.filter_sublist.map _))).mp ?_, rfl, rfl⟩
      exact List.mem_filter.mpr ⟨mem_of_lookup_eq_some hlookup, by rw [hexpired]; rfl⟩
  | clear =>
    refine ⟨fun key hkey => (by cases hkey), fun query result time hstored => ?_⟩
    rw [lastStored_concat] at hstored
    cases hstored

end QueryCache

end MemphisOS.Caches
