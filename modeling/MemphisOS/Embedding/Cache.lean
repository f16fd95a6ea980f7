import MemphisOS.Sequences.Recency
import Mathlib.Data.List.AList
import Mathlib.Data.List.Induction

/-!
# The cache of embeddings

The Rust cache keeps embeddings by text, with a list of the texts in the order of their last use.
Instants and durations are in nanoseconds. A `HashMap` is an association list without repeated
keys, whose order nothing depends on.
-/

namespace MemphisOS.Embedding

open Sequences

variable {V : Type}

/-! ## The cache -/

structure CachedEmbedding (V : Type) where
  vector : V
  createdAt : ℕ
  deriving DecidableEq

structure EmbeddingCache (V : Type) where
  cache : AList fun _ : String => CachedEmbedding V
  /-- The front of the queue comes first. -/
  accessOrder : List String
  maxSize : ℕ
  ttl : ℕ

namespace EmbeddingCache

def new (maxSize ttlSeconds : ℕ) : EmbeddingCache V := ⟨∅, [], maxSize, ttlSeconds * 1000000000⟩

/-- `elapsed`, which does not go below zero. -/
def elapsed (createdAt now : ℕ) : ℕ := now - createdAt

def get (self : EmbeddingCache V) (key : String) (now : ℕ) : Option V × EmbeddingCache V :=
  match self.cache.lookup key with
  | some cached =>
    if elapsed cached.createdAt now < self.ttl then
      (some cached.vector,
        { self with accessOrder := key :: self.accessOrder.filter (· != key) })
    else
      (none, { self with
        cache := self.cache.erase key, accessOrder := self.accessOrder.filter (· != key) })
  | none => (none, self)

/-- The part of `put` that makes room: the last key of the list is dropped. -/
def evictFor (self : EmbeddingCache V) : EmbeddingCache V :=
  if self.maxSize ≤ self.cache.keys.length then
    match self.accessOrder.getLast? with
    | some lruKey => { self with
        cache := self.cache.erase lruKey, accessOrder := self.accessOrder.dropLast }
    | none => self
  else self

def put (self : EmbeddingCache V) (key : String) (vector : V) (now : ℕ) : EmbeddingCache V :=
  if self.maxSize = 0 then self
  else
    let retained :=
      if key ∈ self.cache then { self with accessOrder := self.accessOrder.filter (· != key) }
      else self
    let evicted := retained.evictFor
    { evicted with
      cache := evicted.cache.insert key ⟨vector, now⟩, accessOrder := key :: evicted.accessOrder }

def isExpired (self : EmbeddingCache V) (now : String → ℕ) (key : String) : Bool :=
  match self.cache.lookup key with
  | some cached => self.ttl ≤ elapsed cached.createdAt (now key)
  | none => false

/-- The keys that are expired; the clock is read again for each of them. -/
def expired (self : EmbeddingCache V) (now : String → ℕ) : List String :=
  self.cache.keys.filter (self.isExpired now)

def remove (self : EmbeddingCache V) (key : String) : EmbeddingCache V :=
  { self with cache := self.cache.erase key, accessOrder := self.accessOrder.filter (· != key) }

def evictExpired (self : EmbeddingCache V) (now : String → ℕ) : ℕ × EmbeddingCache V :=
  let expired := self.expired now
  (expired.length, expired.foldl remove self)

end EmbeddingCache

/-! ## Histories -/

inductive CacheCall (V : Type) where
  | get (key : String) (now : ℕ)
  | put (key : String) (vector : V) (now : ℕ)
  | evictExpired (now : String → ℕ)

namespace EmbeddingCache

def call (self : EmbeddingCache V) : CacheCall V → EmbeddingCache V
  | .get key now => (self.get key now).2
  | .put key vector now => self.put key vector now
  | .evictExpired now => (self.evictExpired now).2

/-- The key that a call uses: the one stored, or the one found. -/
def usedBy (self : EmbeddingCache V) : CacheCall V → Option String
  | .get key now => if (self.get key now).1.isSome then some key else none
  | .put key _ _ => if self.maxSize = 0 then none else some key
  | .evictExpired _ => none

/-- The cache after the calls. -/
def after (self : EmbeddingCache V) (calls : List (CacheCall V)) : EmbeddingCache V :=
  calls.foldl call self

/-- The keys used by the calls, the one used last at the end. -/
def uses (self : EmbeddingCache V) : List (CacheCall V) → List String
  | [] => []
  | c :: calls => (self.usedBy c).toList ++ (self.call c).uses calls

variable {self : EmbeddingCache V} {calls : List (CacheCall V)} {c : CacheCall V} {key : String}

theorem after_concat : self.after (calls ++ [c]) = (self.after calls).call c := by
  rw [after, after, List.foldl_append, List.foldl_cons, List.foldl_nil]

theorem uses_concat :
    self.uses (calls ++ [c]) = self.uses calls ++ ((self.after calls).usedBy c).toList := by
  induction calls generalizing self with
  | nil => simp [uses, after]
  | cons c' calls ih =>
    rw [List.cons_append, uses, ih, uses, List.append_assoc]
    rfl

/-! ## The invariant -/

/-- The cache is within its bound and the list holds its keys in the order of their last use. -/
structure Represents (state : EmbeddingCache V) (uses : List String) : Prop where
  bounded : state.cache.keys.length ≤ state.maxSize
  perm : state.accessOrder.Perm state.cache.keys
  recency : Recency uses state.accessOrder

variable {uses : List String} {vector : V} {now : ℕ}

theorem Represents.mem_iff (h : self.Represents uses) : key ∈ self.accessOrder ↔ key ∈ self.cache :=
  h.perm.mem_iff

theorem filter_eq_erase (h : self.Represents uses) (key : String) :
    self.accessOrder.filter (· != key) = self.accessOrder.erase key :=
  (h.recency.nodup.erase_eq_filter key).symm

theorem Represents.remove (h : self.Represents uses) (key : String) :
    (self.remove key).Represents uses where
  bounded := by
    rw [EmbeddingCache.remove, AList.keys_erase]
    exact Nat.le_trans List.length_erase_le h.bounded
  perm := by
    rw [EmbeddingCache.remove, AList.keys_erase, filter_eq_erase h]
    exact h.perm.erase key
  recency := h.recency.forget List.filter_sublist

theorem Represents.get (h : self.Represents uses) (key : String) (now : ℕ) :
    (self.get key now).2.Represents (uses ++ (self.usedBy (.get key now)).toList) := by
  rw [usedBy]
  cases hcached : self.cache.lookup key with
  | none =>
    have hmiss : self.get key now = (none, self) := by
      rw [EmbeddingCache.get, hcached]
    rw [hmiss]
    simpa using h
  | some cached =>
    by_cases hfresh : elapsed cached.createdAt now < self.ttl
    · have hhit : self.get key now = (some cached.vector,
          { self with accessOrder := key :: self.accessOrder.filter (· != key) }) := by
        rw [EmbeddingCache.get, hcached]
        exact if_pos hfresh
      have hkey : key ∈ self.accessOrder :=
        h.mem_iff.mpr (AList.lookup_isSome.mp (by rw [hcached]; rfl))
      rw [hhit]
      refine ⟨h.bounded, ?_, ?_⟩
      · rw [filter_eq_erase h]
        exact (List.perm_cons_erase hkey).symm.trans h.perm
      · exact (h.recency.forget List.filter_sublist).use (by simp)
    · have hexpired : self.get key now = (none, self.remove key) := by
        rw [EmbeddingCache.get, hcached]
        exact if_neg hfresh
      rw [hexpired]
      simpa using h.remove key

theorem Represents.evictExpired (h : self.Represents uses) (now : String → ℕ) :
    (self.evictExpired now).2.Represents uses := by
  rw [EmbeddingCache.evictExpired]
  generalize self.expired now = keys
  induction keys generalizing self with
  | nil => exact h
  | cons key keys ih => exact ih (h.remove key)

/-! ## Storing -/

/-- A cache that has forgotten when a key was used. -/
def retain (self : EmbeddingCache V) (key : String) : EmbeddingCache V :=
  { self with accessOrder := self.accessOrder.filter (· != key) }

theorem put_eq (h : self.Represents uses) (hmax : self.maxSize ≠ 0) :
    self.put key vector now =
      { (self.retain key).evictFor with
        cache := (self.retain key).evictFor.cache.insert key ⟨vector, now⟩
        accessOrder := key :: (self.retain key).evictFor.accessOrder } := by
  have hretain : (if key ∈ self.cache then self.retain key else self) = self.retain key := by
    by_cases hkey : key ∈ self.cache
    · rw [if_pos hkey]
    · rw [if_neg hkey, retain, List.filter_eq_self.mpr]
      intro k hk
      refine bne_iff_ne.mpr ?_
      rintro rfl
      exact hkey (h.mem_iff.mp hk)
  rw [put, if_neg hmax, ← hretain]
  rfl

/-- While there is room nothing is evicted. -/
theorem put_room (h : self.Represents uses) (hroom : self.cache.keys.length < self.maxSize) :
    self.put key vector now =
      { self with
        cache := self.cache.insert key ⟨vector, now⟩
        accessOrder := key :: self.accessOrder.filter (· != key) } := by
  have hevict : (self.retain key).evictFor = self.retain key := if_neg hroom.not_ge
  rw [put_eq h (by omega), hevict]
  rfl

/-- A full cache evicts the last of the other keys. -/
theorem put_full (h : self.Represents uses) (hmax : self.maxSize ≠ 0) {kept : List String}
    {lruKey : String} (hfull : self.maxSize ≤ self.cache.keys.length)
    (hother : self.accessOrder.filter (· != key) = kept ++ [lruKey]) :
    self.put key vector now =
      { self with
        cache := (self.cache.erase lruKey).insert key ⟨vector, now⟩
        accessOrder := key :: kept } := by
  have hevict : (self.retain key).evictFor =
      { self with cache := self.cache.erase lruKey, accessOrder := kept } := by
    rw [evictFor, retain, if_pos hfull, hother, List.getLast?_concat, List.dropLast_concat]
  rw [put_eq h hmax, hevict]

/-- A full cache without other keys evicts nothing. -/
theorem put_alone (h : self.Represents uses) (hmax : self.maxSize ≠ 0)
    (hother : self.accessOrder.filter (· != key) = []) :
    self.put key vector now =
      { self with cache := self.cache.insert key ⟨vector, now⟩, accessOrder := [key] } := by
  have hevict : (self.retain key).evictFor = { self with accessOrder := [] } := by
    rw [evictFor, retain, hother, List.getLast?_nil, ite_self]
  rw [put_eq h hmax, hevict]

theorem Represents.put (h : self.Represents uses) (key : String) (vector : V) (now : ℕ) :
    (self.put key vector now).Represents
      (uses ++ (self.usedBy (.put key vector now)).toList) := by
  rw [usedBy]
  by_cases hmax : self.maxSize = 0
  · rw [if_pos hmax, EmbeddingCache.put, if_pos hmax]
    simpa using h
  rw [if_neg hmax]
  have hfresh : key ∉ self.accessOrder.filter (· != key) := by simp
  have hothers : Recency uses (self.accessOrder.filter (· != key)) :=
    h.recency.forget List.filter_sublist
  have hkeys : (self.accessOrder.filter (· != key)).Perm (self.cache.keys.erase key) :=
    filter_eq_erase h key ▸ h.perm.erase key
  have hlength := h.bounded
  by_cases hroom : self.cache.keys.length < self.maxSize
  · rw [put_room h hroom]
    refine ⟨?_, ?_, hothers.use hfresh⟩
    · rw [AList.keys_insert, List.length_cons]
      have := List.length_erase_le (a := key) (l := self.cache.keys)
      exact Nat.lt_of_le_of_lt this hroom
    · rw [AList.keys_insert]
      exact hkeys.cons key
  rcases List.eq_nil_or_concat (self.accessOrder.filter (· != key)) with
    hother | ⟨kept, lruKey, hother⟩
  · rw [put_alone h hmax hother]
    rw [hother] at hkeys hothers
    have hnil : self.cache.keys.erase key = [] := hkeys.nil_eq.symm
    refine ⟨?_, ?_, hothers.use List.not_mem_nil⟩
    · rw [AList.keys_insert, hnil]
      exact Nat.one_le_iff_ne_zero.mpr hmax
    · rw [AList.keys_insert, hnil]
  · rw [List.concat_eq_append] at hother
    rw [put_full h hmax (Nat.le_of_not_lt hroom) hother]
    rw [hother] at hkeys hothers hfresh
    have hmem : lruKey ∈ self.cache.keys.erase key :=
      hkeys.subset (List.mem_append_right _ (List.mem_singleton.mpr rfl))
    have hkept : kept.Perm ((self.cache.keys.erase lruKey).erase key) := by
      rw [List.erase_comm]
      refine (List.perm_cons lruKey).mp ?_
      exact ((List.perm_append_singleton _ _).symm.trans hkeys).trans (List.perm_cons_erase hmem)
    refine ⟨?_, ?_, (hothers.forget (List.sublist_append_left kept [lruKey])).use ?_⟩
    · have hcount := hkeys.length_eq
      have herase := List.length_erase_le (a := key) (l := self.cache.keys)
      rw [List.length_append, List.length_singleton] at hcount
      rw [AList.keys_insert, AList.keys_erase, List.length_cons, ← hkept.length_eq]
      change kept.length + 1 ≤ self.maxSize
      omega
    · rw [AList.keys_insert, AList.keys_erase]
      exact hkept.cons key
    · exact fun hmem => hfresh (List.mem_append_left _ hmem)

theorem Represents.call (h : self.Represents uses) (c : CacheCall V) :
    (self.call c).Represents (uses ++ (self.usedBy c).toList) := by
  cases c with
  | get key now => exact h.get key now
  | put key vector now => exact h.put key vector now
  | evictExpired now => exact (List.append_nil uses).symm ▸ h.evictExpired now

theorem represents_new (maxSize ttlSeconds : ℕ) :
    (new maxSize ttlSeconds : EmbeddingCache V).Represents [] :=
  ⟨Nat.zero_le _, List.Perm.refl _, .nil _⟩

/-- **Invariant.** The list holds the stored keys in the order of their last use, after any
calls. -/
theorem represents_after (maxSize ttlSeconds : ℕ) (calls : List (CacheCall V)) :
    ((new maxSize ttlSeconds).after calls).Represents ((new maxSize ttlSeconds).uses calls) := by
  induction calls using List.reverseRecOn with
  | nil => exact represents_new maxSize ttlSeconds
  | append_singleton calls c ih =>
    rw [after_concat, uses_concat]
    exact ih.call c

/-! ## Evictions -/

/-- The cache is full of other keys besides one that is stored. -/
def Crowded (self : EmbeddingCache V) (key : String) : Prop :=
  key ∈ self.cache ∧ self.maxSize ≤ self.cache.keys.length ∧ 1 < self.maxSize

/-- The keys besides one are none, or they are listed with the least recently used one last. -/
theorem others (h : self.Represents uses) (key : String) :
    self.accessOrder.filter (· != key) = [] ∨
      ∃ kept lruKey, self.accessOrder.filter (· != key) = kept ++ [lruKey] ∧ lruKey ≠ key ∧
        lruKey ∈ self.cache := by
  rcases List.eq_nil_or_concat (self.accessOrder.filter (· != key)) with
    hother | ⟨kept, lruKey, hother⟩
  · exact Or.inl hother
  · rw [List.concat_eq_append] at hother
    have hmem : lruKey ∈ self.accessOrder.filter (· != key) :=
      hother ▸ List.mem_append_right _ (List.mem_singleton.mpr rfl)
    obtain ⟨hmem, hne⟩ := List.mem_filter.mp hmem
    exact Or.inr ⟨kept, lruKey, hother, bne_iff_ne.mp hne, h.mem_iff.mp hmem⟩

/-- A `put` evicts a key only for one that is new, and then the least recently used key. -/
theorem least_of_evicted (h : self.Represents uses) (hcrowded : ¬ self.Crowded key) {gone : String}
    (hgone : gone ∈ self.cache) (hevicted : gone ∉ (self.put key vector now).cache) :
    key ∉ self.cache ∧ ∀ k ∈ self.cache, k ≠ gone → UsedLater uses k gone := by
  by_cases hmax : self.maxSize = 0
  · rw [EmbeddingCache.put, if_pos hmax] at hevicted
    exact absurd hgone hevicted
  by_cases hroom : self.cache.keys.length < self.maxSize
  · rw [put_room h hroom] at hevicted
    exact absurd ((AList.mem_insert _).mpr (Or.inr hgone)) hevicted
  rcases others h key with hother | ⟨kept, lruKey, hother, hne, hmem⟩
  · rw [put_alone h hmax hother] at hevicted
    exact absurd ((AList.mem_insert _).mpr (Or.inr hgone)) hevicted
  · rw [put_full h hmax (Nat.le_of_not_lt hroom) hother] at hevicted
    have hlru : gone = lruKey := by
      by_contra hother
      exact hevicted ((AList.mem_insert _).mpr (Or.inr (AList.mem_erase.mpr ⟨hother, hgone⟩)))
    subst hlru
    have hkey : key ∉ self.cache := by
      intro hkey
      have htwo : [key, gone].length ≤ self.cache.keys.length :=
        (List.subperm_of_subset (by simpa using hne.symm)
          (by simp [← AList.mem_keys, hkey, hmem])).length_le
      have hlength := h.bounded
      exact hcrowded ⟨hkey, Nat.le_of_not_lt hroom, Nat.le_trans htwo hlength⟩
    have hall : self.accessOrder = kept ++ [gone] := by
      rw [← hother, List.filter_eq_self.mpr]
      intro k hk
      refine bne_iff_ne.mpr ?_
      rintro rfl
      exact hkey (h.mem_iff.mp hk)
    refine ⟨hkey, fun k hk hne => ?_⟩
    have hk : k ∈ kept ++ [gone] := hall ▸ h.mem_iff.mpr hk
    rcases List.mem_append.mp hk with hk | hk
    · exact (hall ▸ h.recency : Recency uses (kept ++ [gone])).least k hk
    · exact absurd (List.mem_singleton.mp hk) hne

/-- A `put` of a stored key into a cache full of others evicts one of them. -/
theorem exists_evicted (h : self.Represents uses) (hcrowded : self.Crowded key) (vector : V)
    (now : ℕ) : ∃ k ∈ self.cache, k ∉ (self.put key vector now).cache := by
  obtain ⟨hkey, hfull, hmax⟩ := hcrowded
  rcases others h key with hother | ⟨kept, lruKey, hother, hne, hmem⟩
  · have hlength := (h.perm.erase key).length_eq
    rw [← filter_eq_erase h, hother, List.length_erase_of_mem (AList.mem_keys.mp hkey)] at hlength
    simp only [List.length_nil] at hlength
    omega
  · refine ⟨lruKey, hmem, ?_⟩
    rw [put_full h (by omega) hfull hother]
    intro hmem
    rcases (AList.mem_insert _).mp hmem with heq | hmem
    · exact hne heq
    · exact (AList.mem_erase.mp hmem).1 rfl

/-! ## Promises -/

/-- What the cache promises over a history. -/
structure KeepsPromises (start : EmbeddingCache V) (calls : List (CacheCall V)) : Prop where
  represents : ∀ before, before <+: calls → (start.after before).Represents (start.uses before)
  /-- What a `put` evicts is the least recently used key. -/
  evictsLeast : ∀ before key vector now rest, calls = before ++ .put key vector now :: rest →
    ∀ gone ∈ (start.after before).cache,
      gone ∉ ((start.after before).put key vector now).cache →
      ∀ k ∈ (start.after before).cache, k ≠ gone → UsedLater (start.uses before) k gone
  /-- A `put` of a stored key evicts nothing. -/
  keepsOthers : ∀ before key vector now rest, calls = before ++ .put key vector now :: rest →
    key ∈ (start.after before).cache →
    ∀ k ∈ (start.after before).cache, k ∈ ((start.after before).put key vector now).cache

/-- **The cache of embeddings.** A cache keeps its promises over a history exactly when no call
stores a key again that is already stored in a full cache of more than one key. -/
theorem keepsPromises_iff (maxSize ttlSeconds : ℕ) (calls : List (CacheCall V)) :
    (new maxSize ttlSeconds).KeepsPromises calls ↔
      ∀ before key vector now rest, calls = before ++ .put key vector now :: rest →
        ¬ ((new maxSize ttlSeconds).after before).Crowded key := by
  constructor
  · intro h before key vector now rest hcalls hcrowded
    obtain ⟨k, hk, hevicted⟩ :=
      exists_evicted (represents_after maxSize ttlSeconds before) hcrowded vector now
    exact hevicted (h.keepsOthers before key vector now rest hcalls hcrowded.1 k hk)
  · intro h
    refine ⟨fun before _ => represents_after maxSize ttlSeconds before, ?_, ?_⟩
    · intro before key vector now rest hcalls gone hgone hevicted
      exact (least_of_evicted (represents_after maxSize ttlSeconds before)
        (h before key vector now rest hcalls) hgone hevicted).2
    · intro before key vector now rest hcalls hkey k hk
      by_contra hevicted
      exact (least_of_evicted (represents_after maxSize ttlSeconds before)
        (h before key vector now rest hcalls) hk hevicted).1 hkey

/-- Storing the second of two keys again evicts the first one. -/
theorem put_again_evicts :
    ¬ (new 2 60 : EmbeddingCache ℕ).KeepsPromises
      [.put "key1" 1 0, .put "key2" 2 0, .put "key2" 3 0] := by
  intro h
  have hkept := h.keepsOthers [.put "key1" 1 0, .put "key2" 2 0] "key2" 3 0 [] rfl (by decide)
    "key1" (by decide)
  revert hkept
  decide

end EmbeddingCache

end MemphisOS.Embedding
