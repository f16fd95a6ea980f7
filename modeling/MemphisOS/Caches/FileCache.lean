import Mathlib
import MemphisOS.Ecma.Tallies
import MemphisOS.Ecma.Utf8
import MemphisOS.Systems.Transition

/-!
# The file cache

Reads that wait for the file system, one among others, and a cache of what they read. A read asks
for the modification time of a cached file, or for the content of another one and after that for
its modification time. Meanwhile other programs write the files.
-/

namespace MemphisOS.Caches

open Ecma

/-- A version of a file: the text that it reads as, and its modification time. -/
structure FileVersion where
  content : JsString
  mtimeMs : JsNumber
  deriving DecidableEq

structure FileCacheEntry where
  content : JsString
  mtime : JsNumber
  size : ℕ
  deriving DecidableEq

/-- `Buffer.byteLength` in UTF-8. -/
def byteLength (content : JsString) : ℕ := (encodeUtf8 (wellFormed content)).length

structure FileCache where
  maxSize : JsNumber
  cache : List (JsString × FileCacheEntry) := []
  currentSize : ℤ := 0
  deriving DecidableEq

/-- Where a read is: before the answer to a request to the file system, or after it. -/
inductive Stage where
  /-- It waits for the modification time of a cached file. -/
  | checking (cached : FileCacheEntry)
  | checked (cached : FileCacheEntry) (mtimeMs : JsNumber)
  /-- It waits for the content. -/
  | reading
  /-- It has the content, and waits for the modification time. -/
  | statting (content : JsString)
  | statted (content : JsString) (mtimeMs : JsNumber)
  | returned (content : JsString)
  | rejected
  deriving DecidableEq

namespace FileCache

variable (self : FileCache)

def evict (filePath : JsString) : FileCache :=
  match self.cache.lookup filePath with
  | some entry =>
    { self with
      cache := deleteEntry filePath self.cache
      currentSize := self.currentSize - entry.size }
  | none => self

/-- The loop of `evictOldest`, with the entry that is the oldest so far. -/
def oldestOf : List (JsString × FileCacheEntry) → Option (JsString × FileCacheEntry) →
    Option (JsString × FileCacheEntry)
  | [], oldest => oldest
  | entry :: entries, oldest =>
    if entry.2.mtime.lt ((oldest.map fun o => o.2.mtime).getD (.infinity false)) then
      oldestOf entries (some entry)
    else oldestOf entries oldest

/-- `evictOldest`. An empty path counts as no path. -/
def evictOldest : FileCache :=
  match oldestOf self.cache none with
  | some oldest => if oldest.1 = [] then self else self.evict oldest.1
  | none => self

/-- The loop of `read` that makes room. It does not end where nothing is evicted. -/
def makeRoom (self : FileCache) (size : ℕ) : Option FileCache :=
  if self.maxSize.exceededBy (self.currentSize + size : ℤ) ∧ 0 < self.cache.length then
    if self.evictOldest.cache.length < self.cache.length then self.evictOldest.makeRoom size
    else none
  else some self
termination_by self.cache.length

/-- The end of `read`, after it made room. -/
def store (filePath content : JsString) (mtimeMs : JsNumber) : FileCache :=
  { self with
    cache := setMember filePath ⟨content, mtimeMs, byteLength content⟩ self.cache
    currentSize := self.currentSize + byteLength content }

def invalidate (filePath : JsString) : FileCache := self.evict filePath

def clear : FileCache := { self with cache := [], currentSize := 0 }

/-- `read` up to its first request. -/
def readStart (filePath : JsString) : Stage :=
  match self.cache.lookup filePath with
  | some cached => .checking cached
  | none => .reading

/-- `read` from an answer to the next request, or to its end. -/
def readResume (filePath : JsString) : Stage → Stage × FileCache
  | .checked cached mtimeMs =>
    if mtimeMs.strictEq cached.mtime then (.returned cached.content, self)
    else (.reading, self.evict filePath)
  | .statted content mtimeMs =>
    match self.makeRoom (byteLength content) with
    | some room => (.returned content, room.store filePath content mtimeMs)
    | none => (.statted content mtimeMs, self)
  | stage => (stage, self)

end FileCache

/-- The answer of the file system to the request of a read. -/
def Stage.answered (version : FileVersion) : Stage → Stage
  | .checking cached => .checked cached version.mtimeMs
  | .reading => .statting version.content
  | .statting content => .statted content version.mtimeMs
  | stage => stage

/-- The file system refuses the request of a read. -/
def Stage.refused : Stage → Stage
  | .checking _ => .rejected
  | .reading => .rejected
  | .statting _ => .rejected
  | stage => stage

/-! ## Runs -/

structure FileRead where
  filePath : JsString
  stage : Stage
  deriving DecidableEq

inductive FileCacheStep where
  | read (filePath : JsString)
  | answer (i : ℕ)
  | refuse (i : ℕ)
  | resume (i : ℕ)
  | invalidate (filePath : JsString)
  | clear
  | write (filePath : JsString) (version : FileVersion)
  | unlink (filePath : JsString)

/-- A cache, the reads in the order of their calls, the files, and all versions that they had. -/
structure FileCacheRun where
  cache : FileCache
  reads : List FileRead
  files : List (JsString × FileVersion)
  versions : List (JsString × FileVersion)
  deriving DecidableEq

namespace FileCacheRun

/-- The state after a read has gone on to a stage. -/
def advance (s : FileCacheRun) (i : ℕ) (read : FileRead) (stage : Stage) : FileCacheRun :=
  { s with reads := s.reads.set i { read with stage := stage } }

def next (s : FileCacheRun) : FileCacheStep → FileCacheRun
  | .read filePath => { s with reads := s.reads ++ [⟨filePath, s.cache.readStart filePath⟩] }
  | .answer i =>
    match s.reads[i]? with
    | some read =>
      match s.files.lookup read.filePath with
      | some version => s.advance i read (read.stage.answered version)
      | none => s.advance i read read.stage.refused
    | none => s
  | .refuse i =>
    match s.reads[i]? with
    | some read => s.advance i read read.stage.refused
    | none => s
  | .resume i =>
    match s.reads[i]? with
    | some read =>
      let resumed := s.cache.readResume read.filePath read.stage
      { s.advance i read resumed.1 with cache := resumed.2 }
    | none => s
  | .invalidate filePath => { s with cache := s.cache.invalidate filePath }
  | .clear => { s with cache := s.cache.clear }
  | .write filePath version =>
    { s with
      files := setMember filePath version s.files
      versions := s.versions ++ [(filePath, version)] }
  | .unlink filePath => { s with files := deleteEntry filePath s.files }

/-- A new cache over any files, and steps in any order. -/
def system (maxSize : JsNumber) : TransitionSystem FileCacheRun FileCacheStep where
  init s := s.cache = { maxSize } ∧ s.reads = [] ∧ s.versions = s.files
  step s step t := t = s.next step

/-- A file had a content at a modification time. -/
def Held (s : FileCacheRun) (filePath content : JsString) (mtimeMs : JsNumber) : Prop :=
  (filePath, ⟨content, mtimeMs⟩) ∈ s.versions

/-- A read that serves an entry of the cache when it is resumed. -/
def Serves (read : FileRead) (cached : FileCacheEntry) : Prop :=
  ∃ mtimeMs : JsNumber, read.stage = .checked cached mtimeMs ∧
    mtimeMs.strictEq cached.mtime = true

/-- The counter is the sum of the sizes, and entries are served with what their files held at their
modification times. -/
structure Accounted (s : FileCacheRun) : Prop where
  size : s.cache.currentSize = totalSize FileCacheEntry.size s.cache.cache
  served : ∀ read ∈ s.reads, ∀ cached, Serves read cached →
    s.Held read.filePath cached.content cached.mtime

/-- A file that is asked for its modification time after it was read holds the content that was
read, or held it at that modification time. A file whose content is stored has no entry in the
cache after room was made, or only an empty one. -/
def Undisturbed (s : FileCacheRun) : FileCacheStep → Prop
  | .answer i => ∀ read content version, s.reads[i]? = some read →
      read.stage = .statting content → s.files.lookup read.filePath = some version →
      version.content = content ∨ s.Held read.filePath content version.mtimeMs
  | .resume i => ∀ read content mtimeMs room, s.reads[i]? = some read →
      read.stage = .statted content mtimeMs →
      s.cache.makeRoom (byteLength content) = some room →
      sizeAt FileCacheEntry.size read.filePath room.cache = 0
  | _ => True

end FileCacheRun

/-! ## Operations -/

namespace FileCache

/-- Each file has one entry, and the counter is the sum of the sizes. -/
structure Counted (cache : FileCache) : Prop where
  keys : (cache.cache.map Prod.fst).Nodup
  size : cache.currentSize = totalSize FileCacheEntry.size cache.cache

variable {self room : FileCache} {filePath content : JsString} {mtimeMs : JsNumber} {size : ℕ}

theorem Counted.evict (h : self.Counted) (filePath : JsString) :
    (self.evict filePath).Counted ∧ (self.evict filePath).cache ⊆ self.cache := by
  rw [FileCache.evict]
  cases hlookup : self.cache.lookup filePath with
  | none => exact ⟨h, fun _ hentry => hentry⟩
  | some entry =>
    refine ⟨⟨nodup_deleteEntry filePath h.keys, ?_⟩, List.filter_sublist.subset⟩
    have htotal := totalSize_deleteEntry FileCacheEntry.size filePath h.keys
    rw [sizeAt, hlookup, Option.map_some, Option.getD_some] at htotal
    dsimp only
    rw [h.size, ← htotal, Nat.cast_add, add_sub_cancel_right]

theorem Counted.evictOldest (h : self.Counted) :
    self.evictOldest.Counted ∧ self.evictOldest.cache ⊆ self.cache := by
  rw [FileCache.evictOldest]
  cases oldestOf self.cache none with
  | none => exact ⟨h, fun _ hentry => hentry⟩
  | some oldest =>
    dsimp only
    split
    · exact ⟨h, fun _ hentry => hentry⟩
    · exact h.evict oldest.1

/-- Making room takes entries away. -/
theorem Counted.makeRoom (h : self.Counted) (hroom : self.makeRoom size = some room) :
    room.Counted ∧ room.cache ⊆ self.cache := by
  induction hlength : self.cache.length using Nat.strong_induction_on generalizing self with
  | _ n ih =>
    rw [FileCache.makeRoom] at hroom
    split at hroom
    · split at hroom
      · next hless =>
        have hevicted := h.evictOldest
        obtain ⟨hcounted, hsubset⟩ := ih _ (hlength ▸ hless) hevicted.1 hroom rfl
        exact ⟨hcounted, List.Subset.trans hsubset hevicted.2⟩
      · cases hroom
    · obtain rfl := Option.some.inj hroom
      exact ⟨h, fun _ hentry => hentry⟩

/-- Storing counts the content, if there is none of the file. -/
theorem Counted.store (h : self.Counted)
    (hsize : sizeAt FileCacheEntry.size filePath self.cache = 0) :
    (self.store filePath content mtimeMs).Counted where
  keys := nodup_setMember h.keys _ _
  size := by
    have htotal := totalSize_setMember FileCacheEntry.size filePath
      ⟨content, mtimeMs, byteLength content⟩ h.keys
    rw [hsize, Nat.add_zero] at htotal
    rw [FileCache.store]
    dsimp only
    rw [htotal, Nat.cast_add, h.size]

end FileCache

/-! ## Every run -/

namespace FileCacheRun

/-- What a read has of its file, the file had together. -/
def Known (s : FileCacheRun) (filePath : JsString) : Stage → Prop
  | .checking cached => s.Held filePath cached.content cached.mtime
  | .checked cached _ => s.Held filePath cached.content cached.mtime
  | .statted content mtimeMs => s.Held filePath content mtimeMs
  | _ => True

/-- The counter is exact, and the cache and the reads have only what the files had. -/
structure Sound (s : FileCacheRun) : Prop where
  counted : s.cache.Counted
  cached : ∀ entry ∈ s.cache.cache, s.Held entry.1 entry.2.content entry.2.mtime
  reads : ∀ read ∈ s.reads, s.Known read.filePath read.stage
  files : ∀ filePath version, s.files.lookup filePath = some version →
    (filePath, version) ∈ s.versions

variable {s t : FileCacheRun} {maxSize : JsNumber} {filePath : JsString} {stage : Stage} {i : ℕ}
  {read : FileRead}

/-- Versions that come later take nothing away. -/
theorem Known.mono (h : s.Known filePath stage) (hversions : s.versions ⊆ t.versions) :
    t.Known filePath stage := by
  cases stage with
  | checking cached => exact hversions h
  | checked cached mtimeMs => exact hversions h
  | statted content mtimeMs => exact hversions h
  | reading => trivial
  | statting content => trivial
  | returned content => trivial
  | rejected => trivial

theorem Known.refused (h : s.Known filePath stage) : s.Known filePath stage.refused := by
  cases stage with
  | checked cached mtimeMs => exact h
  | statted content mtimeMs => exact h
  | _ => trivial

/-- A read whose stage becomes another known one. -/
theorem Sound.advance (h : s.Sound) (hstage : s.Known read.filePath stage) :
    (s.advance i read stage).Sound where
  counted := h.counted
  cached := h.cached
  reads other hother := by
    rcases List.mem_or_eq_of_mem_set hother with hmem | rfl
    · exact h.reads other hmem
    · exact hstage
  files := h.files

/-- Another cache that has only what the files had. -/
theorem Sound.cache {cache : FileCache} (h : s.Sound) (hcounted : cache.Counted)
    (hcached : ∀ entry ∈ cache.cache, s.Held entry.1 entry.2.content entry.2.mtime) :
    Sound { s with cache := cache } :=
  ⟨hcounted, hcached, h.reads, h.files⟩

/-- Entries that are taken away. -/
theorem Sound.cache_subset {cache : FileCache} (h : s.Sound)
    (hcache : cache.Counted ∧ cache.cache ⊆ s.cache.cache) : Sound { s with cache := cache } :=
  h.cache hcache.1 fun entry hentry => h.cached entry (hcache.2 hentry)

theorem Sound.start (h : s.Sound) (filePath : JsString) :
    (s.next (.read filePath)).Sound where
  counted := h.counted
  cached := h.cached
  reads other hother := by
    rcases List.mem_append.mp hother with hmem | hmem
    · exact h.reads other hmem
    · obtain rfl := List.mem_singleton.mp hmem
      dsimp only
      rw [FileCache.readStart]
      cases hlookup : s.cache.cache.lookup filePath with
      | none => trivial
      | some cached => exact h.cached (filePath, cached) (mem_of_lookup_eq_some hlookup)
  files := h.files

theorem Sound.answer (h : s.Sound) (hguard : s.Undisturbed (.answer i)) :
    (s.next (.answer i)).Sound := by
  rw [next]
  cases hread : s.reads[i]? with
  | none => exact h
  | some read =>
    have hknown := h.reads read (List.mem_of_getElem? hread)
    dsimp only
    cases hversion : s.files.lookup read.filePath with
    | none => exact h.advance hknown.refused
    | some version =>
      refine h.advance ?_
      have hheld := h.files _ _ hversion
      cases hstage : read.stage with
      | statting content =>
        rcases hguard read content version hread hstage hversion with rfl | hheld'
        · exact hheld
        · exact hheld'
      | checking cached => rwa [hstage] at hknown
      | checked cached mtimeMs => rwa [hstage] at hknown
      | statted content mtimeMs => rwa [hstage] at hknown
      | _ => trivial

theorem Sound.refuse (h : s.Sound) (i : ℕ) : (s.next (.refuse i)).Sound := by
  rw [next]
  cases hread : s.reads[i]? with
  | none => exact h
  | some read => exact h.advance (h.reads read (List.mem_of_getElem? hread)).refused

theorem Sound.resume (h : s.Sound) (hguard : s.Undisturbed (.resume i)) :
    (s.next (.resume i)).Sound := by
  rw [next]
  cases hread : s.reads[i]? with
  | none => exact h
  | some read =>
    have hknown := h.reads read (List.mem_of_getElem? hread)
    dsimp only
    cases hstage : read.stage with
    | checked cached mtimeMs =>
      rw [FileCache.readResume]
      split
      · exact h.advance trivial
      · have hreading : (s.advance i read .reading).Sound := h.advance trivial
        exact hreading.cache_subset (h.counted.evict read.filePath)
    | statted content mtimeMs =>
      rw [hstage] at hknown
      rw [FileCache.readResume]
      cases hroom : s.cache.makeRoom (byteLength content) with
      | none => exact h.advance hknown
      | some room =>
        obtain ⟨hcounted, hsubset⟩ := h.counted.makeRoom hroom
        have hreturned : (s.advance i read (.returned content)).Sound := h.advance trivial
        refine hreturned.cache (hcounted.store
          (hguard read content mtimeMs room hread hstage hroom)) fun entry hentry => ?_
        rcases mem_of_mem_setMember hentry with rfl | hentry
        · exact hknown
        · exact h.cached entry (hsubset hentry)
    | _ =>
      rw [hstage] at hknown
      exact h.advance hknown

theorem Sound.write (h : s.Sound) (filePath : JsString) (version : FileVersion) :
    (s.next (.write filePath version)).Sound where
  counted := h.counted
  cached entry hentry := List.mem_append_left _ (h.cached entry hentry)
  reads read hread := (h.reads read hread).mono (List.subset_append_left _ _)
  files := by
    intro other version' hlookup
    rw [next, lookup_setMember] at hlookup
    split at hlookup
    · next hother =>
      obtain rfl := Option.some.inj hlookup
      rw [hother]
      exact List.mem_append_right _ List.mem_cons_self
    · exact List.mem_append_left _ (h.files other version' hlookup)

theorem Sound.unlink (h : s.Sound) (filePath : JsString) : (s.next (.unlink filePath)).Sound where
  counted := h.counted
  cached := h.cached
  reads := h.reads
  files := by
    intro other version hlookup
    rw [next, deleteEntry, lookup_filter fun key => decide (key ≠ filePath)] at hlookup
    split at hlookup
    · exact h.files other version hlookup
    · cases hlookup

/-- Steps that meet the condition keep the invariant. -/
theorem Sound.next (h : s.Sound) {step : FileCacheStep} (hguard : s.Undisturbed step) :
    (s.next step).Sound := by
  cases step with
  | read filePath => exact h.start filePath
  | answer i => exact h.answer hguard
  | refuse i => exact h.refuse i
  | resume i => exact h.resume hguard
  | invalidate filePath => exact h.cache_subset (h.counted.evict filePath)
  | clear => exact h.cache_subset ⟨⟨List.nodup_nil, rfl⟩, List.nil_subset _⟩
  | write filePath version => exact h.write filePath version
  | unlink filePath => exact h.unlink filePath

theorem sound_of_init (h : (system maxSize).init s) : s.Sound := by
  obtain ⟨hcache, hreads, hversions⟩ := h
  refine ⟨?_, ?_, ?_, fun filePath version hlookup => ?_⟩
  · rw [hcache]
    exact ⟨List.nodup_nil, rfl⟩
  · rw [hcache]
    exact fun _ hentry => absurd hentry List.not_mem_nil
  · rw [hreads]
    exact fun _ hread => absurd hread List.not_mem_nil
  · rw [hversions]
    exact mem_of_lookup_eq_some hlookup

theorem Sound.accounted (h : s.Sound) : s.Accounted where
  size := h.counted.size
  served read hread cached hserves := by
    obtain ⟨mtimeMs, hstage, -⟩ := hserves
    have hknown := h.reads read hread
    rwa [hstage] at hknown

/-- **Accounting.** Where reads and writes of a file do not disturb a read of it, the counter is
exact, and an entry is served only if the file held its content at its modification time, for every
order of the steps. -/
theorem accounted_of_undisturbed (hs : ((system maxSize).restrict Undisturbed).Reachable s) :
    s.Accounted := by
  refine Sound.accounted (hs.invariant (fun s => sound_of_init) ?_)
  rintro s step t hsound ⟨hguard, rfl⟩
  exact hsound.next hguard

/-! ## Sample runs -/

/-- The global cache over one file. -/
def sampleRun : FileCacheRun where
  cache := { maxSize := .ofNat (50 * 1024 * 1024) }
  reads := []
  files := [(js "f", ⟨js "a", .ofNat 1⟩)]
  versions := [(js "f", ⟨js "a", .ofNat 1⟩)]

theorem sampleRun_init : (system (.ofNat (50 * 1024 * 1024))).init sampleRun := ⟨rfl, rfl, rfl⟩

/-- Content that fits is stored without an eviction. -/
theorem resume_of_fits {content : JsString} {mtimeMs : JsNumber}
    (hread : s.reads[i]? = some ⟨filePath, .statted content mtimeMs⟩)
    (hfits : s.cache.maxSize.exceededBy (s.cache.currentSize + byteLength content : ℤ) = false) :
    s.next (.resume i) = { s with
      reads := s.reads.set i ⟨filePath, .returned content⟩
      cache := s.cache.store filePath content mtimeMs } := by
  have hroom : s.cache.makeRoom (byteLength content) = some s.cache := by
    rw [FileCache.makeRoom, if_neg]
    rw [hfits]
    exact fun h => Bool.false_ne_true h.1
  rw [FileCacheRun.next, hread]
  dsimp only
  rw [FileCache.readResume, hroom]
  rfl

/-- Steps from a state that is reached. -/
theorem reachable_foldl (hs : (system maxSize).Reachable s) (steps : List FileCacheStep) :
    (system maxSize).Reachable (steps.foldl FileCacheRun.next s) := by
  induction steps generalizing s with
  | nil => exact hs
  | cons step steps ih => exact ih (hs.next rfl)

/-- A read of a file that nothing disturbs. -/
theorem accounted_of_undisturbed_sample :
    ([.read (js "f"), .answer 0, .answer 0, .resume 0].foldl FileCacheRun.next
      sampleRun).Accounted := by
  have hinit : ((system (.ofNat (50 * 1024 * 1024))).restrict Undisturbed).Reachable sampleRun :=
    .of_init sampleRun_init
  have hread : sampleRun.Undisturbed (.read (js "f")) := trivial
  have hstart : ((system (.ofNat (50 * 1024 * 1024))).restrict Undisturbed).Reachable
      (sampleRun.next (.read (js "f"))) := hinit.next ⟨hread, rfl⟩
  rw [List.foldl_cons, List.foldl_cons, List.foldl_cons, List.foldl_cons]
  refine accounted_of_undisturbed (((hstart.next ⟨?_, rfl⟩).next ⟨?_, rfl⟩).next ⟨?_, rfl⟩)
  · intro read content version hread hstage
    obtain rfl := Option.some.inj hread
    cases hstage
  · intro read content version hread hstage hversion
    obtain rfl := Option.some.inj hread
    obtain rfl := Stage.statting.inj hstage
    obtain rfl := Option.some.inj hversion
    exact .inl rfl
  · intro read content mtimeMs room hread hstage hroom
    obtain rfl := Option.some.inj hread
    rw [FileCache.makeRoom, if_neg (fun h => absurd h.2 (Nat.lt_irrefl 0))] at hroom
    obtain rfl := Option.some.inj hroom
    rfl

/-- Two reads of a file that have its content and its modification time. -/
def bothRead : FileCacheRun where
  cache := { maxSize := .ofNat (50 * 1024 * 1024) }
  reads := [⟨js "f", .statted (js "a") (.ofNat 1)⟩, ⟨js "f", .statted (js "a") (.ofNat 1)⟩]
  files := sampleRun.files
  versions := sampleRun.versions

theorem bothRead_reachable : (system (.ofNat (50 * 1024 * 1024))).Reachable bothRead := by
  have hrun : [.read (js "f"), .read (js "f"), .answer 0, .answer 1, .answer 0,
      .answer 1].foldl FileCacheRun.next sampleRun = bothRead := by decide +kernel
  rw [← hrun]
  exact reachable_foldl (.of_init sampleRun_init) _

/-- A read that has the modification time of a later write. -/
def staleRead : FileCacheRun where
  cache := { maxSize := .ofNat (50 * 1024 * 1024) }
  reads := [⟨js "f", .statted (js "a") (.ofNat 2)⟩]
  files := [(js "f", ⟨js "b", .ofNat 2⟩)]
  versions := [(js "f", ⟨js "a", .ofNat 1⟩), (js "f", ⟨js "b", .ofNat 2⟩)]

theorem staleRead_reachable : (system (.ofNat (50 * 1024 * 1024))).Reachable staleRead := by
  have hrun : [.read (js "f"), .answer 0, .write (js "f") ⟨js "b", .ofNat 2⟩,
      .answer 0].foldl FileCacheRun.next sampleRun = staleRead := by decide +kernel
  rw [← hrun]
  exact reachable_foldl (.of_init sampleRun_init) _

/-- Two reads of one file count it twice; and a file that is written after it was read, before its
modification time is asked for, is served with the old content afterwards. -/
theorem counted_twice_and_stale :
    (¬∀ maxSize s, (system maxSize).Reachable s →
      s.cache.currentSize = totalSize FileCacheEntry.size s.cache.cache) ∧
    ¬∀ maxSize s, (system maxSize).Reachable s → ∀ read ∈ s.reads, ∀ cached, Serves read cached →
      s.Held read.filePath cached.content cached.mtime := by
  constructor
  · intro hsize
    have hfirst : bothRead.next (.resume 0) = _ := resume_of_fits rfl (by decide +kernel)
    have hreached := reachable_foldl bothRead_reachable [.resume 0, .resume 1]
    rw [List.foldl_cons, hfirst, List.foldl_cons,
      resume_of_fits rfl (by decide +kernel)] at hreached
    have hcount := hsize _ _ hreached
    revert hcount
    decide +kernel
  · intro hserved
    have hstored : staleRead.next (.resume 0) = _ := resume_of_fits rfl (by decide +kernel)
    have hreached := reachable_foldl staleRead_reachable [.resume 0, .read (js "f"), .answer 1]
    rw [List.foldl_cons, hstored] at hreached
    have hheld := hserved _ _ hreached ⟨js "f", .checked ⟨js "a", .ofNat 2, 1⟩ (.ofNat 2)⟩
      (by decide +kernel) ⟨js "a", .ofNat 2, 1⟩ ⟨_, rfl, by decide +kernel⟩
    rw [Held] at hheld
    revert hheld
    decide +kernel

end FileCacheRun

end MemphisOS.Caches
