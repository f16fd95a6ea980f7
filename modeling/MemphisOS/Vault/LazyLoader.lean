import MemphisOS.Ecma.Maps
import MemphisOS.Systems.Transition

/-!
# The lazy loader of the vault

The loader keeps encrypted values and decrypts one when it is asked for it. What was decrypted is
cached. A decryption is awaited, and other calls may come in between. `undefined` is `none`.
-/

namespace MemphisOS

open Ecma

variable {E D : Type}

/-! ## The loader -/

structure VaultLazyLoaderOptions (E D : Type) where
  decrypt : E → Option D
  maxDecryptedCache : Option ℕ
  /-- `roughSize` of an encrypted value. -/
  encryptedSize : Option E → ℕ
  /-- `roughSize` of a decrypted value. -/
  decryptedSize : Option D → ℕ

/-- `Math.max(1, options.maxDecryptedCache ?? 100)`. -/
def VaultLazyLoaderOptions.limit (options : VaultLazyLoaderOptions E D) : ℕ :=
  max 1 (options.maxDecryptedCache.getD 100)

structure VaultLazyLoader (E D : Type) where
  encrypted : List (JsString × Option E) := []
  encryptedSizes : List (JsString × ℕ) := []
  decryptedCache : List (JsString × Option D) := []
  decryptedSizes : List (JsString × ℕ) := []
  decryptOps : ℕ := 0
  cacheHits : ℕ := 0
  cacheMisses : ℕ := 0
  estimatedEncryptedBytes : ℕ := 0
  estimatedDecryptedBytes : ℕ := 0

/-- `Map.prototype.delete`. -/
def deleteMember {α : Type} (id : JsString) (entries : List (JsString × α)) :
    List (JsString × α) := entries.filter fun entry => entry.1 ≠ id

namespace VaultLazyLoader

variable (options : VaultLazyLoaderOptions E D)

/-- The part of `touchCache` that takes a cached value out. -/
def forget (self : VaultLazyLoader E D) (id : JsString) : VaultLazyLoader E D :=
  match self.decryptedSizes.lookup id with
  | some existingSize =>
    { self with
      decryptedCache := deleteMember id self.decryptedCache
      decryptedSizes := deleteMember id self.decryptedSizes
      estimatedDecryptedBytes := self.estimatedDecryptedBytes - existingSize }
  | none => self

/-- The part of `touchCache` that puts a value in. -/
def store (self : VaultLazyLoader E D) (id : JsString) (decrypted : Option D) :
    VaultLazyLoader E D :=
  { self with
    decryptedCache := setMember id decrypted self.decryptedCache
    decryptedSizes := setMember id (options.decryptedSize decrypted) self.decryptedSizes
    estimatedDecryptedBytes := self.estimatedDecryptedBytes + options.decryptedSize decrypted }

/-- The part of `touchCache` that makes room. An empty key counts as false. -/
def evict (self : VaultLazyLoader E D) : VaultLazyLoader E D :=
  if options.limit < self.decryptedCache.length then
    match self.decryptedCache.head? with
    | none => self
    | some (oldestKey, _) =>
      if oldestKey = [] then self
      else
        { self with
          decryptedCache := deleteMember oldestKey self.decryptedCache
          decryptedSizes := deleteMember oldestKey self.decryptedSizes
          estimatedDecryptedBytes :=
            self.estimatedDecryptedBytes - (self.decryptedSizes.lookup oldestKey).getD 0 }
  else self

def touchCache (self : VaultLazyLoader E D) (id : JsString) (decrypted : Option D) :
    VaultLazyLoader E D :=
  ((self.forget id).store options id decrypted).evict options

/-- The part of `put` and `delete` that drops what was decrypted. -/
def dropDecrypted (self : VaultLazyLoader E D) (id : JsString) : VaultLazyLoader E D :=
  match self.decryptedSizes.lookup id with
  | some oldDecryptedSize =>
    { self with
      estimatedDecryptedBytes := self.estimatedDecryptedBytes - oldDecryptedSize
      decryptedSizes := deleteMember id self.decryptedSizes
      decryptedCache := deleteMember id self.decryptedCache }
  | none => { self with decryptedCache := deleteMember id self.decryptedCache }

def put (self : VaultLazyLoader E D) (id : JsString) (encrypted : Option E) :
    VaultLazyLoader E D :=
  let size := options.encryptedSize encrypted
  dropDecrypted
    { self with
      encrypted := setMember id encrypted self.encrypted
      encryptedSizes := setMember id size self.encryptedSizes
      estimatedEncryptedBytes :=
        self.estimatedEncryptedBytes - (self.encryptedSizes.lookup id).getD 0 + size } id

def delete (self : VaultLazyLoader E D) (id : JsString) : Bool × VaultLazyLoader E D :=
  ((self.encrypted.lookup id).isSome,
    dropDecrypted
      { self with
        encrypted := deleteMember id self.encrypted
        encryptedSizes := deleteMember id self.encryptedSizes
        estimatedEncryptedBytes :=
          self.estimatedEncryptedBytes - (self.encryptedSizes.lookup id).getD 0 } id)

/-- The value that is cached, and not `undefined`. -/
def cached (self : VaultLazyLoader E D) (id : JsString) : Option D :=
  (self.decryptedCache.lookup id).join

/-- The entry, when it is not `undefined`. -/
def entry (self : VaultLazyLoader E D) (id : JsString) : Option E :=
  (self.encrypted.lookup id).join

/-- What `get` does until it returns or awaits a decryption. -/
inductive Started (E D : Type) where
  | returned (result : Option D)
  | awaiting (encrypted : E)

def get (self : VaultLazyLoader E D) (id : JsString) : Started E D × VaultLazyLoader E D :=
  match self.cached id with
  | some cached =>
    (.returned (some cached),
      { self with cacheHits := self.cacheHits + 1 }.touchCache options id (some cached))
  | none =>
    let self := { self with cacheMisses := self.cacheMisses + 1 }
    match self.entry id with
    | none => (.returned none, self)
    | some encrypted => (.awaiting encrypted, self)

/-- What `get` does after the decryption. -/
def resume (self : VaultLazyLoader E D) (id : JsString) (decrypted : Option D) :
    VaultLazyLoader E D :=
  { self with decryptOps := self.decryptOps + 1 }.touchCache options id decrypted

end VaultLazyLoader

/-! ## Interleavings -/

/-- A `get` that awaits a decryption. -/
structure PendingGet (E : Type) where
  id : JsString
  encrypted : E

/-- What a `get` returned, with the entry there was when it started. -/
structure GetAnswer (E D : Type) where
  id : JsString
  current : Option E
  result : Option D
  deriving DecidableEq

structure LoaderState (E D : Type) where
  loader : VaultLazyLoader E D := {}
  pending : List (PendingGet E) := []
  answers : List (GetAnswer E D) := []

/-- A call, or the end of one of the awaited decryptions. -/
inductive LoaderEvent (E : Type) where
  | put (id : JsString) (encrypted : Option E)
  | delete (id : JsString)
  | get (id : JsString)
  | resolve (n : ℕ)
  | reject (n : ℕ)

namespace LoaderState

variable (options : VaultLazyLoaderOptions E D)

def startGet (s : LoaderState E D) (id : JsString) : LoaderState E D :=
  let started := s.loader.get options id
  match started.1 with
  | .returned result =>
    { s with
      loader := started.2
      answers := s.answers ++ [{ id, current := s.loader.entry id, result }] }
  | .awaiting encrypted =>
    { s with loader := started.2, pending := s.pending ++ [{ id, encrypted }] }

def endGet (s : LoaderState E D) (n : ℕ) (get : PendingGet E) : LoaderState E D :=
  let result := options.decrypt get.encrypted
  { loader := s.loader.resume options get.id result
    pending := s.pending.eraseIdx n
    answers := s.answers ++ [{ id := get.id, current := some get.encrypted, result }] }

def next (s : LoaderState E D) : LoaderEvent E → LoaderState E D
  | .put id encrypted => { s with loader := s.loader.put options id encrypted }
  | .delete id => { s with loader := (s.loader.delete id).2 }
  | .get id => s.startGet options id
  | .resolve n => (s.pending[n]?).elim s (s.endGet options n)
  | .reject n => { s with pending := s.pending.eraseIdx n }

/-- Each answer is the decryption of the entry there was, or `undefined`, and the cache is within
its limit. -/
structure Coherent (s : LoaderState E D) : Prop where
  answers : ∀ answer ∈ s.answers, answer.result = none ∨
    ∃ encrypted, answer.current = some encrypted ∧ options.decrypt encrypted = answer.result
  bounded : s.loader.decryptedCache.length ≤ options.limit

end LoaderState

/-- The loader under calls and ends of decryptions in any order. -/
def lazyLoaderSystem (options : VaultLazyLoaderOptions E D) :
    TransitionSystem (LoaderState E D) (LoaderEvent E) :=
  .ofFunction {} fun s event => s.next options event

/-! ## The cache -/

section Members

variable {α : Type} {entries : List (JsString × α)} {id key : JsString}

theorem lookup_deleteMember (id : JsString) (entries : List (JsString × α)) (key : JsString) :
    (deleteMember id entries).lookup key = if key = id then none else entries.lookup key := by
  have h := lookup_filter (fun key => decide (key ≠ id)) entries key
  rw [deleteMember, h]
  by_cases hkey : key = id <;> simp [hkey]

theorem not_mem_keys_deleteMember (id : JsString) (entries : List (JsString × α)) :
    id ∉ (deleteMember id entries).map Prod.fst := by
  intro h
  obtain ⟨entry, hentry, hid⟩ := List.mem_map.mp h
  exact of_decide_eq_true (List.mem_filter.mp hentry).2 hid

theorem deleteMember_eq_self (h : entries.lookup id = none) :
    deleteMember id entries = entries := by
  refine List.filter_eq_self.mpr fun entry hentry => decide_eq_true ?_
  rintro rfl
  have hother := List.lookup_eq_none_iff.mp h entry hentry
  simp at hother

theorem nodup_deleteMember (id : JsString) (h : (entries.map Prod.fst).Nodup) :
    ((deleteMember id entries).map Prod.fst).Nodup :=
  h.sublist (List.filter_sublist.map _)

/-- A key that is there is taken out. -/
theorem length_deleteMember_lt (h : entries.lookup id ≠ none) :
    (deleteMember id entries).length < entries.length := by
  obtain ⟨a, ha⟩ := Option.ne_none_iff_exists'.mp h
  refine List.length_filter_lt_length_iff_exists.mpr ⟨_, mem_of_lookup_eq_some ha, ?_⟩
  simp

end Members

namespace VaultLazyLoader

variable {options : VaultLazyLoaderOptions E D} {self : VaultLazyLoader E D} {id key : JsString}
  {decrypted v : Option D}

/-- The cache has no key twice, and sizes for its keys. -/
structure Aligned (loader : VaultLazyLoader E D) : Prop where
  nodup : (loader.decryptedCache.map Prod.fst).Nodup
  sizes : ∀ id, (loader.decryptedSizes.lookup id).isSome = (loader.decryptedCache.lookup id).isSome

theorem Aligned.lookup_none (h : self.Aligned) :
    self.decryptedSizes.lookup id = none ↔ self.decryptedCache.lookup id = none := by
  have := h.sizes id
  rw [← Option.not_isSome_iff_eq_none, ← Option.not_isSome_iff_eq_none, this]

theorem cache_forget (h : self.Aligned) (id : JsString) :
    (self.forget id).decryptedCache = deleteMember id self.decryptedCache := by
  rw [forget]
  cases hsize : self.decryptedSizes.lookup id with
  | none => exact (deleteMember_eq_self (h.lookup_none.mp hsize)).symm
  | some size => rfl

theorem sizes_forget (self : VaultLazyLoader E D) (id : JsString) :
    (self.forget id).decryptedSizes = deleteMember id self.decryptedSizes := by
  rw [forget]
  cases hsize : self.decryptedSizes.lookup id with
  | none => exact (deleteMember_eq_self hsize).symm
  | some size => rfl

theorem encrypted_forget (self : VaultLazyLoader E D) (id : JsString) :
    (self.forget id).encrypted = self.encrypted := by
  rw [forget]
  cases self.decryptedSizes.lookup id <;> rfl

theorem cache_store (options : VaultLazyLoaderOptions E D) (h : self.Aligned) (id : JsString)
    (decrypted : Option D) :
    ((self.forget id).store options id decrypted).decryptedCache =
      deleteMember id self.decryptedCache ++ [(id, decrypted)] := by
  change setMember id decrypted (self.forget id).decryptedCache = _
  rw [cache_forget h, setMember_of_not_mem (not_mem_keys_deleteMember _ _)]

theorem Aligned.store (options : VaultLazyLoaderOptions E D) (h : self.Aligned) (id : JsString)
    (decrypted : Option D) :
    ((self.forget id).store options id decrypted).Aligned where
  nodup := by
    rw [cache_store options h, List.map_append]
    refine List.nodup_append.mpr ⟨nodup_deleteMember id h.nodup, by simp, ?_⟩
    rintro key hkey _ hmem rfl
    obtain rfl : key = id := by simpa using hmem
    exact not_mem_keys_deleteMember key _ hkey
  sizes := by
    intro key
    change ((setMember id _ (self.forget id).decryptedSizes).lookup key).isSome =
      ((setMember id decrypted (self.forget id).decryptedCache).lookup key).isSome
    rw [lookup_setMember, lookup_setMember, cache_forget h, sizes_forget, lookup_deleteMember,
      lookup_deleteMember]
    by_cases hkey : key = id
    · rw [if_pos hkey, if_pos hkey]
      rfl
    · simp only [if_neg hkey]
      exact h.sizes key

/-- What making room does: nothing, or the first key goes. -/
theorem evict_cases (options : VaultLazyLoaderOptions E D) (self : VaultLazyLoader E D) :
    (self.evict options = self ∧ (self.decryptedCache.length ≤ options.limit ∨
      self.decryptedCache = [] ∨ ∃ v, self.decryptedCache.head? = some ([], v))) ∨
    ∃ oldestKey v, self.decryptedCache.head? = some (oldestKey, v) ∧ oldestKey ≠ [] ∧
      (self.evict options).decryptedCache = deleteMember oldestKey self.decryptedCache ∧
      (self.evict options).decryptedSizes = deleteMember oldestKey self.decryptedSizes ∧
      (self.evict options).encrypted = self.encrypted := by
  rw [evict]
  by_cases hlength : options.limit < self.decryptedCache.length
  · rw [if_pos hlength]
    cases hhead : self.decryptedCache.head? with
    | none => exact Or.inl ⟨rfl, Or.inr (Or.inl (List.head?_eq_none_iff.mp hhead))⟩
    | some oldest =>
      obtain ⟨oldestKey, v⟩ := oldest
      dsimp only
      by_cases hempty : oldestKey = []
      · rw [if_pos hempty, hempty]
        exact Or.inl ⟨rfl, Or.inr (Or.inr ⟨v, rfl⟩)⟩
      · rw [if_neg hempty]
        exact Or.inr ⟨oldestKey, v, rfl, hempty, rfl, rfl, rfl⟩
  · rw [if_neg hlength]
    exact Or.inl ⟨rfl, Or.inl (Nat.le_of_not_lt hlength)⟩

theorem Aligned.touchCache (h : self.Aligned) (id : JsString) (decrypted : Option D) :
    (self.touchCache options id decrypted).Aligned := by
  have hstore := h.store options id decrypted
  rw [VaultLazyLoader.touchCache]
  rcases evict_cases options ((self.forget id).store options id decrypted) with
    ⟨hsame, -⟩ | ⟨oldestKey, v, -, -, hcache, hsizes, -⟩
  · rw [hsame]
    exact hstore
  · refine ⟨hcache ▸ nodup_deleteMember oldestKey hstore.nodup, fun key => ?_⟩
    rw [hcache, hsizes, lookup_deleteMember, lookup_deleteMember]
    split
    · rfl
    · exact hstore.sizes key

theorem encrypted_touchCache (self : VaultLazyLoader E D) (id : JsString) (decrypted : Option D) :
    (self.touchCache options id decrypted).encrypted = self.encrypted := by
  rw [touchCache]
  rcases evict_cases options ((self.forget id).store options id decrypted) with
    ⟨hsame, -⟩ | ⟨oldestKey, v, -, -, -, -, hencrypted⟩
  · rw [hsame]
    exact encrypted_forget self id
  · rw [hencrypted]
    exact encrypted_forget self id

/-- What is cached is the value put in, or was cached before. -/
theorem lookup_touchCache (h : self.Aligned)
    (hlookup : (self.touchCache options id decrypted).decryptedCache.lookup key = some v) :
    key = id ∧ v = decrypted ∨ self.decryptedCache.lookup key = some v := by
  have hstored : ((self.forget id).store options id decrypted).decryptedCache.lookup key =
      some v := by
    rw [touchCache] at hlookup
    rcases evict_cases options ((self.forget id).store options id decrypted) with
      ⟨hsame, -⟩ | ⟨oldestKey, _, -, -, hcache, -, -⟩
    · rw [← hsame]
      exact hlookup
    · rw [hcache, lookup_deleteMember] at hlookup
      split at hlookup
      · cases hlookup
      · exact hlookup
  change (setMember id decrypted (self.forget id).decryptedCache).lookup key = some v at hstored
  rw [lookup_setMember, cache_forget h, lookup_deleteMember] at hstored
  by_cases hkey : key = id
  · rw [if_pos hkey] at hstored
    exact Or.inl ⟨hkey, (Option.some.inj hstored).symm⟩
  · rw [if_neg hkey, if_neg hkey] at hstored
    exact Or.inr hstored

/-- What is put in is cached. -/
theorem lookup_touchCache_self (h : self.Aligned) (id : JsString) (decrypted : Option D) :
    (self.touchCache options id decrypted).decryptedCache.lookup id = some decrypted := by
  have hstored := cache_store options h id decrypted
  have hself : ((self.forget id).store options id decrypted).decryptedCache.lookup id =
      some decrypted := (lookup_setMember ..).trans (if_pos rfl)
  rw [touchCache, evict]
  by_cases hlength :
      options.limit < ((self.forget id).store options id decrypted).decryptedCache.length
  · rw [if_pos hlength]
    cases hrest : deleteMember id self.decryptedCache with
    | nil =>
      have hlimit : 1 ≤ options.limit := le_max_left ..
      rw [hstored, hrest, List.nil_append, List.length_singleton] at hlength
      omega
    | cons oldest rest =>
      have hother : oldest.1 ≠ id := fun heq => not_mem_keys_deleteMember id self.decryptedCache
        (by rw [hrest, ← heq]; exact List.mem_cons_self)
      have hhead : ((self.forget id).store options id decrypted).decryptedCache.head? =
          some (oldest.1, oldest.2) := by
        rw [hstored, hrest]
        rfl
      rw [hhead]
      dsimp only
      split
      · exact hself
      · exact (lookup_deleteMember ..).trans ((if_neg (Ne.symm hother)).trans hself)
  · rw [if_neg hlength]
    exact hself

/-- The cache is full, and its oldest key is the empty one, which is never evicted. -/
def FullBehindEmptyId (options : VaultLazyLoaderOptions E D) (loader : VaultLazyLoader E D)
    (id : JsString) : Prop :=
  loader.decryptedCache.lookup id = none ∧ options.limit ≤ loader.decryptedCache.length ∧
    ∃ v, loader.decryptedCache.head? = some ([], v)

theorem one_le_limit (options : VaultLazyLoaderOptions E D) : 1 ≤ options.limit := le_max_left ..

/-- The cache stays within its limit. -/
theorem length_touchCache (h : self.Aligned) (hbound : self.decryptedCache.length ≤ options.limit)
    (hroom : ¬ self.FullBehindEmptyId options id) :
    (self.touchCache options id decrypted).decryptedCache.length ≤ options.limit := by
  have hlimit := one_le_limit options
  have hstored := cache_store options h id decrypted
  have hlength := congrArg List.length hstored
  rw [List.length_append, List.length_singleton] at hlength
  by_cases hcached : self.decryptedCache.lookup id = none
  · -- The value is new, so the cache grows by one key or stays full.
    rw [deleteMember_eq_self hcached] at hstored hlength
    rw [touchCache]
    rcases evict_cases options ((self.forget id).store options id decrypted) with
      ⟨hsame, hfits | hempty | ⟨v, hhead⟩⟩ | ⟨oldestKey, v, hhead, -, hcache, -, -⟩
    · rw [hsame]
      exact hfits
    · rw [hstored] at hempty
      simp at hempty
    · rw [hsame, hlength]
      by_contra hfull
      have hne : self.decryptedCache ≠ [] := by
        intro hnil
        rw [hnil, List.length_nil] at hfull
        omega
      refine hroom ⟨hcached, by omega, v, ?_⟩
      rw [hstored, List.head?_append_of_ne_nil _ hne] at hhead
      exact hhead
    · have hmem : (oldestKey, v) ∈ ((self.forget id).store options id decrypted).decryptedCache :=
        List.mem_of_mem_head? hhead
      have hfound : ((self.forget id).store options id decrypted).decryptedCache.lookup
          oldestKey = some v := lookup_of_mem (h.store options id decrypted).nodup hmem
      have hshorter := length_deleteMember_lt (hfound.trans_ne (Option.some_ne_none v))
      rw [hcache]
      omega
  · have hshorter := length_deleteMember_lt hcached
    rw [touchCache, evict, if_neg (by omega)]
    omega

/-! ## Coherence -/

/-- A value is `undefined` or the decryption of an entry there is now. -/
def CurrentPlaintext (options : VaultLazyLoaderOptions E D) (loader : VaultLazyLoader E D)
    (id : JsString) (decrypted : Option D) : Prop :=
  decrypted = none ∨
    ∃ encrypted, loader.entry id = some encrypted ∧ options.decrypt encrypted = decrypted

/-- What is cached is current, and the cache is within its limit. -/
structure Sound (options : VaultLazyLoaderOptions E D) (loader : VaultLazyLoader E D) : Prop where
  aligned : loader.Aligned
  bounded : loader.decryptedCache.length ≤ options.limit
  current : ∀ id v, loader.decryptedCache.lookup id = some v →
    CurrentPlaintext options loader id v

theorem Sound.touchCache (h : self.Sound options)
    (hcurrent : CurrentPlaintext options self id decrypted)
    (hroom : ¬ self.FullBehindEmptyId options id) :
    (self.touchCache options id decrypted).Sound options where
  aligned := h.aligned.touchCache id decrypted
  bounded := length_touchCache h.aligned h.bounded hroom
  current key v hlookup := by
    rw [CurrentPlaintext, entry, encrypted_touchCache]
    rcases lookup_touchCache h.aligned hlookup with ⟨rfl, rfl⟩ | hbefore
    · exact hcurrent
    · exact h.current key v hbefore

/-- A value that is cached has room. -/
theorem not_full_of_cached (h : self.decryptedCache.lookup id ≠ none) :
    ¬ self.FullBehindEmptyId options id := fun hfull => h hfull.1

theorem dropDecrypted_eq (self : VaultLazyLoader E D) (id : JsString) :
    (self.dropDecrypted id).decryptedCache = deleteMember id self.decryptedCache ∧
      (self.dropDecrypted id).decryptedSizes = deleteMember id self.decryptedSizes ∧
      (self.dropDecrypted id).encrypted = self.encrypted := by
  rw [dropDecrypted]
  cases hsize : self.decryptedSizes.lookup id with
  | none => exact ⟨rfl, (deleteMember_eq_self hsize).symm, rfl⟩
  | some size => exact ⟨rfl, rfl, rfl⟩

/-- Dropping what was decrypted of the one entry that changes keeps the cache sound. -/
theorem Sound.dropDecrypted (h : self.Sound options) {changed : VaultLazyLoader E D}
    (hcache : changed.decryptedCache = self.decryptedCache)
    (hsizes : changed.decryptedSizes = self.decryptedSizes)
    (hentry : ∀ key, key ≠ id → changed.entry key = self.entry key) :
    (changed.dropDecrypted id).Sound options := by
  obtain ⟨hcache', hsizes', hencrypted'⟩ := dropDecrypted_eq changed id
  rw [hcache] at hcache'
  rw [hsizes] at hsizes'
  refine ⟨⟨hcache' ▸ nodup_deleteMember id h.aligned.nodup, fun key => ?_⟩, ?_, fun key v hv => ?_⟩
  · rw [hcache', hsizes', lookup_deleteMember, lookup_deleteMember]
    split
    · rfl
    · exact h.aligned.sizes key
  · rw [hcache']
    exact (List.length_filter_le _ _).trans h.bounded
  · rw [hcache', lookup_deleteMember] at hv
    by_cases hkey : key = id
    · rw [if_pos hkey] at hv
      cases hv
    · rw [if_neg hkey] at hv
      have hcurrent := h.current key v hv
      rw [CurrentPlaintext, entry, hencrypted', ← entry, hentry key hkey]
      exact hcurrent

theorem Sound.put (h : self.Sound options) (id : JsString) (encrypted : Option E) :
    (self.put options id encrypted).Sound options :=
  h.dropDecrypted rfl rfl fun key hkey => by
    rw [entry, lookup_setMember, if_neg hkey, entry]

theorem Sound.delete (h : self.Sound options) (id : JsString) :
    (self.delete id).2.Sound options :=
  h.dropDecrypted rfl rfl fun key hkey => by
    rw [entry, lookup_deleteMember, if_neg hkey, entry]

/-- A `get` returns what is cached, or `undefined` without an entry, or awaits a decryption. -/
theorem get_cases (options : VaultLazyLoaderOptions E D) (self : VaultLazyLoader E D)
    (id : JsString) :
    (∃ cached, self.cached id = some cached ∧
      self.get options id = (.returned (some cached),
        { self with cacheHits := self.cacheHits + 1 }.touchCache options id (some cached))) ∨
    (self.cached id = none ∧ self.entry id = none ∧
      self.get options id = (.returned none, { self with cacheMisses := self.cacheMisses + 1 })) ∨
    ∃ encrypted, self.cached id = none ∧ self.entry id = some encrypted ∧
      self.get options id =
        (.awaiting encrypted, { self with cacheMisses := self.cacheMisses + 1 }) := by
  rw [get]
  cases hcached : self.cached id with
  | some cached => exact Or.inl ⟨cached, rfl, rfl⟩
  | none =>
    have hmissed : ({ self with cacheMisses := self.cacheMisses + 1 } :
        VaultLazyLoader E D).entry id = self.entry id := rfl
    dsimp only
    rw [hmissed]
    cases self.entry id with
    | none => exact Or.inr (Or.inl ⟨rfl, rfl, rfl⟩)
    | some encrypted => exact Or.inr (Or.inr ⟨encrypted, rfl, rfl, rfl⟩)

theorem sound_new (options : VaultLazyLoaderOptions E D) :
    ({} : VaultLazyLoader E D).Sound options where
  aligned := ⟨List.nodup_nil, fun _ => rfl⟩
  bounded := Nat.zero_le _
  current _ _ h := by cases h

/-- Behind the empty key the cache outgrows its limit. -/
theorem limit_lt_length_touchCache (h : self.Aligned) (hfull : self.FullBehindEmptyId options id) :
    options.limit < (self.touchCache options id decrypted).decryptedCache.length := by
  obtain ⟨hnew, hlength, v, hhead⟩ := hfull
  have hstored := cache_store options h id decrypted
  rw [deleteMember_eq_self hnew] at hstored
  have hhead' : ((self.forget id).store options id decrypted).decryptedCache.head? =
      some ([], v) := by
    rw [hstored, List.head?_append, hhead]
    rfl
  rw [touchCache]
  rcases evict_cases options ((self.forget id).store options id decrypted) with
    ⟨hsame, -⟩ | ⟨oldestKey, _, holdest, hne, -, -, -⟩
  · rw [hsame, hstored, List.length_append, List.length_singleton]
    omega
  · rw [hhead'] at holdest
    exact absurd (congrArg Prod.fst (Option.some.inj holdest)).symm hne

end VaultLazyLoader

namespace LoaderState

open VaultLazyLoader

variable {options : VaultLazyLoaderOptions E D} {s : LoaderState E D}

/-- A decryption ends while the entry it was made of is still current, or decrypts to the same,
and there is room for what it gives. -/
def Timely (options : VaultLazyLoaderOptions E D) (s : LoaderState E D) : LoaderEvent E → Prop
  | .resolve n => ∀ get ∈ s.pending[n]?,
      CurrentPlaintext options s.loader get.id (options.decrypt get.encrypted) ∧
        ¬ s.loader.FullBehindEmptyId options get.id
  | _ => True

/-- What a run keeps. -/
structure Inv (options : VaultLazyLoaderOptions E D) (s : LoaderState E D) : Prop where
  sound : s.loader.Sound options
  answers : ∀ answer ∈ s.answers, answer.result = none ∨
    ∃ encrypted, answer.current = some encrypted ∧ options.decrypt encrypted = answer.result

theorem Inv.answer (h : s.Inv options) {loader : VaultLazyLoader E D}
    (hloader : loader.Sound options) (pending : List (PendingGet E)) {answer : GetAnswer E D}
    (hanswer : answer.result = none ∨ ∃ encrypted, answer.current = some encrypted ∧
      options.decrypt encrypted = answer.result) :
    Inv options { loader, pending, answers := s.answers ++ [answer] } := by
  refine ⟨hloader, fun other hother => ?_⟩
  rcases List.mem_append.mp hother with hother | hother
  · exact h.answers other hother
  · rw [List.mem_singleton.mp hother]
    exact hanswer

theorem inv_startGet (h : s.Inv options) (id : JsString) : (s.startGet options id).Inv options := by
  have hcounted : ∀ hits misses, ({ s.loader with cacheHits := hits, cacheMisses := misses } :
      VaultLazyLoader E D).Sound options := fun _ _ =>
    ⟨⟨h.sound.aligned.nodup, h.sound.aligned.sizes⟩, h.sound.bounded, h.sound.current⟩
  rcases get_cases options s.loader id with
    ⟨cached, hcached, hget⟩ | ⟨-, -, hget⟩ | ⟨encrypted, -, -, hget⟩
  · have hlookup : s.loader.decryptedCache.lookup id = some (some cached) :=
      Option.join_eq_some_iff.mp hcached
    have hcurrent := h.sound.current id (some cached) hlookup
    have hroom : ¬ s.loader.FullBehindEmptyId options id :=
      not_full_of_cached (by rw [hlookup]; exact Option.some_ne_none _)
    have hloader := hcounted (s.loader.cacheHits + 1) s.loader.cacheMisses
    rw [startGet, hget]
    exact h.answer (hloader.touchCache hcurrent hroom) s.pending hcurrent
  · rw [startGet, hget]
    exact h.answer (hcounted s.loader.cacheHits (s.loader.cacheMisses + 1)) s.pending (Or.inl rfl)
  · rw [startGet, hget]
    exact ⟨hcounted s.loader.cacheHits (s.loader.cacheMisses + 1), h.answers⟩

theorem inv_endGet (h : s.Inv options) (n : ℕ) {get : PendingGet E}
    (hcurrent : CurrentPlaintext options s.loader get.id (options.decrypt get.encrypted))
    (hroom : ¬ s.loader.FullBehindEmptyId options get.id) :
    (s.endGet options n get).Inv options := by
  have hcounted : ({ s.loader with decryptOps := s.loader.decryptOps + 1 } :
      VaultLazyLoader E D).Sound options :=
    ⟨⟨h.sound.aligned.nodup, h.sound.aligned.sizes⟩, h.sound.bounded, h.sound.current⟩
  exact h.answer (hcounted.touchCache hcurrent hroom) (s.pending.eraseIdx n)
    (Or.inr ⟨get.encrypted, rfl, rfl⟩)

theorem inv_next (h : s.Inv options) {event : LoaderEvent E} (htimely : s.Timely options event) :
    (s.next options event).Inv options := by
  cases event with
  | put id encrypted => exact ⟨h.sound.put id encrypted, h.answers⟩
  | delete id => exact ⟨h.sound.delete id, h.answers⟩
  | get id => exact inv_startGet h id
  | resolve n =>
    rw [next]
    cases hget : s.pending[n]? with
    | none => exact h
    | some get =>
      obtain ⟨hcurrent, hroom⟩ := htimely get hget
      exact inv_endGet h n hcurrent hroom
  | reject n => exact ⟨h.sound, h.answers⟩

/-- **The lazy loader.** In every run in which decryptions end in time, whatever a `get` returns is
the decryption of the entry there was when it started, or `undefined`, and the cache is within its
limit. -/
theorem coherent_of_timely (options : VaultLazyLoaderOptions E D) {s : LoaderState E D}
    (hs : ((lazyLoaderSystem options).restrict (Timely options)).Reachable s) :
    s.Coherent options := by
  have hinv : s.Inv options := by
    refine hs.invariant ?_ ?_
    · rintro s rfl
      exact ⟨sound_new options, List.forall_mem_nil _⟩
    · rintro s event t h ⟨htimely, rfl⟩
      exact inv_next h htimely
  exact ⟨hinv.answers, hinv.sound.bounded⟩

theorem reachable_next (hs : ((lazyLoaderSystem options).restrict (Timely options)).Reachable s)
    (event : LoaderEvent E) (htimely : s.Timely options event) :
    ((lazyLoaderSystem options).restrict (Timely options)).Reachable (s.next options event) :=
  hs.next ⟨htimely, rfl⟩

/-- A decryption that does not end in time breaks coherence: at once, or for the next `get`. -/
theorem incoherent_of_untimely (h : s.Inv options) {n : ℕ}
    (huntimely : ¬ s.Timely options (.resolve n)) :
    ∃ get ∈ s.pending[n]?, ¬ (s.next options (.resolve n)).Coherent options ∨
      ¬ ((s.next options (.resolve n)).next options (.get get.id)).Coherent options := by
  simp only [Timely, not_forall] at huntimely
  obtain ⟨get, hget, hnot⟩ := huntimely
  have hnext : s.next options (.resolve n) = s.endGet options n get := by
    rw [next, Option.mem_def.mp hget]
    rfl
  have haligned : ({ s.loader with decryptOps := s.loader.decryptOps + 1 } :
      VaultLazyLoader E D).Aligned := ⟨h.sound.aligned.nodup, h.sound.aligned.sizes⟩
  refine ⟨get, hget, ?_⟩
  rw [hnext]
  by_cases hfull : s.loader.FullBehindEmptyId options get.id
  · left
    intro hcoherent
    exact absurd hcoherent.bounded (limit_lt_length_touchCache haligned hfull).not_ge
  · right
    have hstale : ¬ CurrentPlaintext options s.loader get.id (options.decrypt get.encrypted) :=
      fun hcurrent => hnot ⟨hcurrent, hfull⟩
    obtain ⟨plaintext, hplaintext⟩ : ∃ plaintext, options.decrypt get.encrypted = some plaintext :=
      Option.ne_none_iff_exists'.mp fun hnone => hstale (Or.inl hnone)
    have hlookup : (s.endGet options n get).loader.cached get.id = some plaintext := by
      rw [cached, endGet, resume, lookup_touchCache_self haligned, hplaintext]
      rfl
    have hentry : (s.endGet options n get).loader.entry get.id = s.loader.entry get.id := by
      rw [entry, endGet, resume, encrypted_touchCache, entry]
    intro hcoherent
    rcases get_cases options (s.endGet options n get).loader get.id with
      ⟨found, hfound, hstart⟩ | ⟨hnone, -, -⟩ | ⟨encrypted, hnone, -, -⟩
    · obtain rfl : plaintext = found := Option.some.inj (hlookup.symm.trans hfound)
      have hanswer := hcoherent.answers ⟨get.id, s.loader.entry get.id, some plaintext⟩ (by
        rw [next, startGet, hstart, hentry]
        exact List.mem_append_right _ (List.mem_singleton.mpr rfl))
      rw [CurrentPlaintext, hplaintext] at hstale
      exact hstale hanswer
    · exact absurd (hlookup.symm.trans hnone) (Option.some_ne_none _)
    · exact absurd (hlookup.symm.trans hnone) (Option.some_ne_none _)

end LoaderState

/-- Values that are stored as they are. -/
def plainOptions : VaultLazyLoaderOptions ℕ ℕ :=
  { decrypt := some, maxDecryptedCache := none, encryptedSize := fun _ => 1
    decryptedSize := fun _ => 1 }

/-- A `get` and one after it, with the decryption in between. -/
def timelyState : LoaderState ℕ ℕ :=
  ((((({} : LoaderState ℕ ℕ).next plainOptions (.put (js "key") (some 1))).next plainOptions
    (.get (js "key"))).next plainOptions (.resolve 0)).next plainOptions (.get (js "key")))

theorem timely_resolve (get : PendingGet ℕ)
    (hget : get ∈ ((({} : LoaderState ℕ ℕ).next plainOptions (.put (js "key") (some 1))).next
      plainOptions (.get (js "key"))).pending[0]?) :
    VaultLazyLoader.CurrentPlaintext plainOptions
        ((({} : LoaderState ℕ ℕ).next plainOptions (.put (js "key") (some 1))).next plainOptions
          (.get (js "key"))).loader get.id (plainOptions.decrypt get.encrypted) ∧
      ¬ ((({} : LoaderState ℕ ℕ).next plainOptions (.put (js "key") (some 1))).next plainOptions
        (.get (js "key"))).loader.FullBehindEmptyId plainOptions get.id := by
  obtain rfl : ⟨js "key", 1⟩ = get := Option.some.inj hget
  exact ⟨Or.inr ⟨1, rfl, rfl⟩, fun hfull => absurd hfull.2.1 (by decide)⟩

theorem coherent_of_timely_sample : timelyState.Coherent plainOptions :=
  have hstart := TransitionSystem.Reachable.of_init
    (S := (lazyLoaderSystem plainOptions).restrict (LoaderState.Timely plainOptions)) rfl
  have hput := LoaderState.reachable_next hstart (.put (js "key") (some 1)) trivial
  have hget := LoaderState.reachable_next hput (.get (js "key")) trivial
  have hresolve := LoaderState.reachable_next hget (.resolve 0) timely_resolve
  LoaderState.coherent_of_timely plainOptions
    (LoaderState.reachable_next hresolve (.get (js "key")) trivial)

/-- A decryption that started before an update ends after it, and the next `get` returns it. -/
theorem overwritten_plaintext_returned :
    ¬ LoaderState.Coherent plainOptions
      ([LoaderEvent.put (js "key") (some 1), .get (js "key"), .put (js "key") (some 2), .resolve 0,
        .get (js "key")].foldl (LoaderState.next plainOptions) {}) := by
  intro h
  have hanswer := h.answers ⟨js "key", some 2, some 1⟩ (by decide)
  revert hanswer
  simp [plainOptions]

end MemphisOS
