import Mathlib
import MemphisOS.Ecma.Tallies
import MemphisOS.Systems.Transition

/-!
# The buffer pool

Buffers that were released wait in buckets by their sizes. A bucket for a request is found by binary
search among configured sizes. Statistics that only `getStats` reads are left out.
-/

namespace MemphisOS.Caches

open Ecma

/-- A buffer, with its identity. -/
structure Buffer where
  id : ℕ
  byteLength : ℕ
  deriving DecidableEq

structure BufferPoolOptions where
  maxBytes : Option JsNumber
  bucketSizes : Option (List JsNumber)
  maxBuffersPerBucket : Option JsNumber

structure BufferPool where
  maxBytes : JsNumber
  bucketSizes : List JsNumber
  maxBuffersPerBucket : JsNumber
  /-- The buckets by their sizes, in each the buffer pushed last in front. -/
  buckets : List (ℕ × List Buffer) := []
  pooledBytes : ℕ := 0

/-- `Buffer.allocUnsafe`: how many bytes it allocates, or that it throws. -/
def allocUnsafe (maxLength : ℕ) (size : JsNumber) : Option ℕ :=
  match size.toRat? with
  | some q => if 0 ≤ q ∧ q ≤ maxLength then some ⌊q⌋.toNat else none
  | none => none

/-- `Map.prototype.set` on buckets. -/
def setBucket (size : ℕ) (list : List Buffer) : List (ℕ × List Buffer) → List (ℕ × List Buffer)
  | [] => [(size, list)]
  | entry :: buckets =>
    if entry.1 = size then (size, list) :: buckets else entry :: setBucket size list buckets

/-- The loop of `bucketFor`; `stop` is `hi + 1`. A missing size compares like `NaN`. -/
def bucketLoop (sizes : List JsNumber) (size : JsNumber) (lo stop : ℕ) (best : JsNumber) :
    JsNumber :=
  if lo < stop then
    let mid := (lo + (stop - 1)) / 2
    if size.le (sizes.getD mid .nan) then bucketLoop sizes size lo mid (sizes.getD mid .nan)
    else bucketLoop sizes size (mid + 1) stop best
  else best
termination_by stop - lo

/-- The loop of `trim` over the buffers of one size. -/
def popWhile (targetBytes : JsNumber) (bucketSize : ℕ) : List Buffer → ℕ → List Buffer × ℕ
  | [], pooledBytes => ([], pooledBytes)
  | buffer :: list, pooledBytes =>
    if targetBytes.exceededBy pooledBytes then
      popWhile targetBytes bucketSize list (pooledBytes - bucketSize)
    else (buffer :: list, pooledBytes)

namespace BufferPool

/-- The configured sizes in ascending order. None of them is `NaN`. -/
def ascending (sizes : List JsNumber) : List JsNumber :=
  (sizes.filter fun size => (JsNumber.ofNat 0).lt size).insertionSort fun a b => a.rank ≤ b.rank

def new (options : BufferPoolOptions) : BufferPool where
  maxBytes := (JsNumber.ofNat 1024).max (options.maxBytes.getD (.ofNat (4 * 1024 * 1024)))
  bucketSizes := ascending (options.bucketSizes.getD
    ([256, 512, 1024, 4096, 16384, 65536, 262144].map JsNumber.ofNat))
  maxBuffersPerBucket := (JsNumber.ofNat 1).max (options.maxBuffersPerBucket.getD (.ofNat 64))

variable (self : BufferPool)

def bucketFor (size : JsNumber) : JsNumber :=
  let best := bucketLoop self.bucketSizes size 0 self.bucketSizes.length (JsNumber.ofNat 1).neg
  if (JsNumber.ofNat 0).lt best then best else size

/-- The buffers in the bucket of a number. -/
def listAt (bucket : JsNumber) : Option (List Buffer) :=
  match bucket.toRat? with
  | some q => if (⌊q⌋.toNat : ℚ) = q then self.buckets.lookup ⌊q⌋.toNat else none
  | none => none

/-- `acquire`: the buffer it returns, unless it throws. A buffer that is allocated gets the fresh
identity. -/
def acquire (maxLength : ℕ) (size : JsNumber) (fresh : ℕ) : Option Buffer × BufferPool :=
  let bucket := self.bucketFor ((JsNumber.ofNat 1).max size)
  match self.listAt bucket with
  | some (buffer :: list) =>
    (some buffer, { self with
      buckets := setBucket buffer.byteLength list self.buckets
      pooledBytes := self.pooledBytes - buffer.byteLength })
  | _ => ((allocUnsafe maxLength bucket).map (⟨fresh, ·⟩), self)

/-- The part of `trim` for one bucket. -/
def trimBucket (targetBytes : JsNumber) (bucketSize : ℕ) : BufferPool :=
  match self.buckets.lookup bucketSize with
  | none => self
  | some list =>
    let trimmed := popWhile targetBytes bucketSize list self.pooledBytes
    { self with
      buckets := if trimmed.1 = [] then self.buckets.filter fun entry => entry.1 ≠ bucketSize
        else setBucket bucketSize trimmed.1 self.buckets
      pooledBytes := trimmed.2 }

/-- `pooledBytes <= targetBytes`. -/
def within (targetBytes : JsNumber) : Bool :=
  targetBytes ≠ .nan && !targetBytes.exceededBy self.pooledBytes

/-- The loop of `trim` over the buckets. -/
def trimLoop (targetBytes : JsNumber) : List ℕ → BufferPool → BufferPool
  | [], self => self
  | bucketSize :: bucketSizes, self =>
    let trimmed := self.trimBucket targetBytes bucketSize
    if (self.buckets.lookup bucketSize).isSome ∧ trimmed.within targetBytes then trimmed
    else trimLoop targetBytes bucketSizes trimmed

/-- `Math.floor(this.maxBytes * 0.75)`. -/
def defaultTarget : JsNumber :=
  match self.maxBytes with
  | .finite q _ => (JsNumber.ofRat (q * (3 / 4)) false).trunc
  | maxBytes => maxBytes

def trim (targetBytes : JsNumber) : BufferPool :=
  if self.within targetBytes then self
  else trimLoop targetBytes ((self.buckets.map Prod.fst).insertionSort (· ≥ ·)) self

def release (buffer : Buffer) : BufferPool :=
  let bucket := buffer.byteLength
  if self.maxBytes.exceededBy (self.pooledBytes + bucket : ℕ) then self
  else
    let list := (self.buckets.lookup bucket).getD []
    let listed := { self with buckets := setBucket bucket list self.buckets }
    if self.maxBuffersPerBucket.reachedBy list.length then listed
    else
      let pushed := { listed with
        buckets := setBucket bucket (buffer :: list) listed.buckets
        pooledBytes := listed.pooledBytes + bucket }
      if self.maxBytes.exceededBy pushed.pooledBytes then pushed.trim pushed.defaultTarget
      else pushed

/-- The buffers in all buckets. -/
def pooled : List Buffer := self.buckets.flatMap Prod.snd

end BufferPool

/-! ## Runs -/

inductive PoolCall where
  | acquire (size : JsNumber)
  | release (buffer : Buffer)
  | trim (targetBytes : Option JsNumber)

/-- A pool, the buffers that were acquired and not released since, and how many identities were
given out. -/
structure PoolRun where
  pool : BufferPool
  outstanding : List Buffer
  allocated : ℕ

namespace PoolRun

def next (maxLength : ℕ) (s : PoolRun) : PoolCall → PoolRun
  | .acquire size =>
    ⟨(s.pool.acquire maxLength size s.allocated).2,
      ((s.pool.acquire maxLength size s.allocated).1).toList ++ s.outstanding, s.allocated + 1⟩
  | .release buffer => ⟨s.pool.release buffer, s.outstanding.erase buffer, s.allocated⟩
  | .trim targetBytes =>
    ⟨s.pool.trim (targetBytes.getD s.pool.defaultTarget), s.outstanding, s.allocated⟩

/-- A new pool, and calls in any order that release a buffer at most once after it was acquired. -/
def system (maxLength : ℕ) (options : BufferPoolOptions) : TransitionSystem PoolRun PoolCall where
  init s := s = ⟨.new options, [], 0⟩
  step s call t := (∀ buffer, call = .release buffer → buffer ∈ s.outstanding) ∧
    t = s.next maxLength call

end PoolRun

/-- The bytes of some buffers together. -/
def totalBytes : List Buffer → ℕ
  | [] => 0
  | buffer :: buffers => buffer.byteLength + totalBytes buffers

/-! ## Buckets -/

/-- Each bucket has its own size, and holds buffers of exactly that size. -/
structure Filed (buckets : List (ℕ × List Buffer)) : Prop where
  sizes : (buckets.map Prod.fst).Nodup
  exact : ∀ entry ∈ buckets, ∀ buffer ∈ entry.2, buffer.byteLength = entry.1

section Buckets

variable {buckets : List (ℕ × List Buffer)} {size : ℕ} {list list' : List Buffer} {buffer : Buffer}

/-- A bucket that is set takes the place of the one there was. -/
theorem setBucket_of_lookup (h : buckets.lookup size = some list) :
    ∃ front back, buckets = front ++ (size, list) :: back ∧
      ∀ list', setBucket size list' buckets = front ++ (size, list') :: back := by
  induction buckets with
  | nil => cases h
  | cons entry buckets ih =>
    obtain ⟨key, other⟩ := entry
    rw [List.lookup_cons] at h
    by_cases hkey : key = size
    · subst hkey
      rw [beq_self_eq_true] at h
      obtain rfl := Option.some.inj h
      exact ⟨[], buckets, rfl, fun list' => by rw [setBucket, if_pos rfl]; rfl⟩
    · rw [beq_false_of_ne (Ne.symm hkey)] at h
      obtain ⟨front, back, rfl, hset⟩ := ih h
      exact ⟨(key, other) :: front, back, rfl, fun list' => by
        rw [setBucket, if_neg hkey, hset]
        rfl⟩

/-- A new bucket comes to the end. -/
theorem setBucket_of_none (h : buckets.lookup size = none) (list : List Buffer) :
    size ∉ buckets.map Prod.fst ∧ setBucket size list buckets = buckets ++ [(size, list)] := by
  induction buckets with
  | nil => exact ⟨List.not_mem_nil, rfl⟩
  | cons entry buckets ih =>
    obtain ⟨key, other⟩ := entry
    rw [List.lookup_cons] at h
    by_cases hkey : key = size
    · rw [hkey, beq_self_eq_true] at h
      cases h
    · rw [beq_false_of_ne (Ne.symm hkey)] at h
      obtain ⟨hnot, hset⟩ := ih h
      rw [setBucket, if_neg hkey, hset, List.map_cons, List.mem_cons, not_or]
      exact ⟨⟨Ne.symm hkey, hnot⟩, rfl⟩

theorem Filed.replace {front back : List (ℕ × List Buffer)}
    (h : Filed (front ++ (size, list) :: back))
    (hlist : ∀ buffer ∈ list', buffer.byteLength = size) :
    Filed (front ++ (size, list') :: back) where
  sizes := by
    have hsizes := h.sizes
    rwa [List.map_append, List.map_cons] at hsizes ⊢
  exact := by
    intro entry hentry buffer hbuffer
    rcases List.mem_append.mp hentry with hmem | hmem
    · exact h.exact entry (List.mem_append_left _ hmem) buffer hbuffer
    · rcases List.mem_cons.mp hmem with rfl | hmem
      · exact hlist buffer hbuffer
      · exact h.exact entry (List.mem_append_right _ (List.mem_cons_of_mem _ hmem)) buffer hbuffer

/-- The buffers of a bucket are of its size. -/
theorem Filed.of_lookup (h : Filed buckets) (hlookup : buckets.lookup size = some list) :
    ∀ buffer ∈ list, buffer.byteLength = size := by
  obtain ⟨front, back, rfl, -⟩ := setBucket_of_lookup hlookup
  exact h.exact (size, list) (List.mem_append_right _ List.mem_cons_self)

/-- Taking buffers out of a bucket. -/
theorem Filed.take_out (h : Filed buckets) {dropped : List Buffer}
    (hlookup : buckets.lookup size = some (dropped ++ list)) :
    Filed (setBucket size list buckets) ∧
      (buckets.flatMap Prod.snd).Perm
        (dropped ++ (setBucket size list buckets).flatMap Prod.snd) := by
  have hsize := h.of_lookup hlookup
  obtain ⟨front, back, rfl, hset⟩ := setBucket_of_lookup hlookup
  rw [hset]
  refine ⟨h.replace fun buffer hbuffer => hsize buffer (List.mem_append_right _ hbuffer), ?_⟩
  rw [List.flatMap_append, List.flatMap_cons, List.flatMap_append, List.flatMap_cons]
  dsimp only
  rw [List.append_assoc dropped, ← List.append_assoc, ← List.append_assoc dropped]
  exact List.perm_append_comm.append_right _

/-- Putting a buffer into the bucket of its size. -/
theorem Filed.put (h : Filed buckets) (hlookup : buckets.lookup buffer.byteLength = some list) :
    Filed (setBucket buffer.byteLength (buffer :: list) buckets) ∧
      ((setBucket buffer.byteLength (buffer :: list) buckets).flatMap Prod.snd).Perm
        (buffer :: buckets.flatMap Prod.snd) := by
  have hsize := h.of_lookup hlookup
  obtain ⟨front, back, rfl, hset⟩ := setBucket_of_lookup hlookup
  rw [hset]
  refine ⟨h.replace (List.forall_mem_cons.mpr ⟨rfl, hsize⟩), ?_⟩
  rw [List.flatMap_append, List.flatMap_cons, List.flatMap_append, List.flatMap_cons]
  exact List.perm_middle

/-- Taking away a bucket. -/
theorem Filed.drop (h : Filed buckets) (hlookup : buckets.lookup size = some list) :
    Filed (buckets.filter fun entry => entry.1 ≠ size) ∧
      (buckets.flatMap Prod.snd).Perm
        (list ++ (buckets.filter fun entry => entry.1 ≠ size).flatMap Prod.snd) := by
  refine ⟨⟨h.sizes.sublist (List.filter_sublist.map _), fun entry hentry =>
    h.exact entry (List.mem_of_mem_filter hentry)⟩, ?_⟩
  obtain ⟨front, back, rfl, -⟩ := setBucket_of_lookup hlookup
  have hsizes := h.sizes
  rw [List.map_append, List.map_cons, List.nodup_middle, List.nodup_cons] at hsizes
  have hother : (front ++ (size, list) :: back).filter (fun entry => entry.1 ≠ size) =
      front ++ back := by
    rw [List.filter_append, List.filter_cons_of_neg (by simp), ← List.filter_append,
      List.filter_eq_self]
    intro entry hentry
    refine decide_eq_true fun hsize => hsizes.1 ?_
    have hkey := List.mem_map_of_mem (f := Prod.fst) hentry
    rwa [hsize, List.map_append] at hkey
  rw [hother, List.flatMap_append, List.flatMap_cons, List.flatMap_append, ← List.append_assoc,
    ← List.append_assoc]
  exact List.perm_append_comm.append_right _

/-- What was set is found. -/
theorem lookup_setBucket (size : ℕ) (list : List Buffer) (buckets : List (ℕ × List Buffer)) :
    (setBucket size list buckets).lookup size = some list := by
  induction buckets with
  | nil => rw [setBucket, List.lookup_cons, beq_self_eq_true]
  | cons entry buckets ih =>
    rw [setBucket]
    split
    · rw [List.lookup_cons, beq_self_eq_true]
    · next hkey =>
      rw [List.lookup_cons, beq_false_of_ne (Ne.symm hkey)]
      exact ih

/-- A bucket that is looked up or made empty changes no buffers. -/
theorem Filed.listed (h : Filed buckets) (size : ℕ) :
    Filed (setBucket size ((buckets.lookup size).getD []) buckets) ∧
      (setBucket size ((buckets.lookup size).getD []) buckets).flatMap Prod.snd =
        buckets.flatMap Prod.snd := by
  cases hlookup : buckets.lookup size with
  | none =>
    obtain ⟨hnot, hset⟩ := setBucket_of_none hlookup []
    rw [Option.getD_none, hset]
    refine ⟨⟨?_, ?_⟩, ?_⟩
    · rw [List.map_append]
      exact List.nodup_append.mpr ⟨h.sizes, List.nodup_singleton _, by
        rintro k hk k' hk' rfl
        have hkey : k = size := List.mem_singleton.mp hk'
        exact hnot (hkey ▸ hk)⟩
    · intro entry hentry
      rcases List.mem_append.mp hentry with hmem | hmem
      · exact h.exact entry hmem
      · obtain rfl := List.mem_singleton.mp hmem
        exact fun buffer hbuffer => absurd hbuffer List.not_mem_nil
    · rw [List.flatMap_append]
      exact List.append_nil _
  | some list =>
    obtain ⟨front, back, rfl, hset⟩ := setBucket_of_lookup hlookup
    rw [Option.getD_some, hset]
    exact ⟨h, rfl⟩

theorem totalBytes_append (buffers buffers' : List Buffer) :
    totalBytes (buffers ++ buffers') = totalBytes buffers + totalBytes buffers' := by
  induction buffers with
  | nil => rw [List.nil_append, totalBytes, Nat.zero_add]
  | cons buffer buffers ih => rw [List.cons_append, totalBytes, ih, totalBytes, Nat.add_assoc]

theorem totalBytes_perm {buffers buffers' : List Buffer} (h : buffers.Perm buffers') :
    totalBytes buffers = totalBytes buffers' := by
  induction h with
  | nil => rfl
  | cons buffer _ ih => rw [totalBytes, totalBytes, ih]
  | swap a b l => rw [totalBytes, totalBytes, totalBytes, totalBytes, Nat.add_left_comm]
  | trans _ _ ih ih' => exact ih.trans ih'

/-- The loop takes buffers off the front, and counts their bytes. -/
theorem popWhile_spec (targetBytes : JsNumber) (pooledBytes : ℕ)
    (hlist : ∀ buffer ∈ list, buffer.byteLength = size) :
    ∃ dropped, list = dropped ++ (popWhile targetBytes size list pooledBytes).1 ∧
      (popWhile targetBytes size list pooledBytes).2 = pooledBytes - totalBytes dropped := by
  induction list generalizing pooledBytes with
  | nil => exact ⟨[], rfl, rfl⟩
  | cons buffer list ih =>
    rw [popWhile]
    split
    · obtain ⟨dropped, hdropped, hbytes⟩ := ih (pooledBytes - size) fun buffer hbuffer =>
        hlist buffer (List.mem_cons_of_mem _ hbuffer)
      refine ⟨buffer :: dropped, congrArg (buffer :: ·) hdropped, ?_⟩
      rw [hbytes, totalBytes, hlist buffer List.mem_cons_self, Nat.sub_sub]
    · exact ⟨[], rfl, rfl⟩

end Buckets

/-! ## Operations -/

namespace BufferPool

/-- The buckets are filed, and the counter is the size of the buffers in them. -/
structure Counted (pool : BufferPool) : Prop where
  filed : Filed pool.buckets
  bytes : pool.pooledBytes = totalBytes pool.pooled

/-- The same settings, and some buffers less. -/
structure Shrinks (pool after : BufferPool) : Prop where
  maxBytes : after.maxBytes = pool.maxBytes
  bucketSizes : after.bucketSizes = pool.bucketSizes
  counted : after.Counted
  dropped : ∃ dropped, pool.pooled.Perm (dropped ++ after.pooled)

variable {self other after : BufferPool} {targetBytes : JsNumber} {buffer : Buffer} {maxLength : ℕ}
  {size : JsNumber} {fresh : ℕ}

theorem Counted.shrinks (h : self.Counted) : self.Shrinks self :=
  ⟨rfl, rfl, h, [], .refl _⟩

theorem Shrinks.trans (h : self.Shrinks other) (h' : other.Shrinks after) :
    self.Shrinks after := by
  obtain ⟨dropped, hdropped⟩ := h.dropped
  obtain ⟨dropped', hdropped'⟩ := h'.dropped
  refine ⟨h'.maxBytes.trans h.maxBytes, h'.bucketSizes.trans h.bucketSizes, h'.counted,
    dropped ++ dropped', ?_⟩
  rw [List.append_assoc]
  exact hdropped.trans (hdropped'.append_left dropped)

theorem Shrinks.subperm (h : self.Shrinks after) : after.pooled.Subperm self.pooled := by
  obtain ⟨dropped, hdropped⟩ := h.dropped
  exact (List.sublist_append_right dropped _).subperm.trans hdropped.symm.subperm

theorem Counted.trimBucket (h : self.Counted) (targetBytes : JsNumber) (bucketSize : ℕ) :
    self.Shrinks (self.trimBucket targetBytes bucketSize) := by
  rw [BufferPool.trimBucket]
  cases hlookup : self.buckets.lookup bucketSize with
  | none => exact h.shrinks
  | some list =>
    obtain ⟨dropped, hlist, hbytes⟩ := popWhile_spec targetBytes self.pooledBytes
      (h.filed.of_lookup hlookup)
    dsimp only
    set trimmed := popWhile targetBytes bucketSize list self.pooledBytes with htrimmed
    have hcount {buckets : List (ℕ × List Buffer)}
        (hperm : self.pooled.Perm (dropped ++ buckets.flatMap Prod.snd)) :
        trimmed.2 = totalBytes (buckets.flatMap Prod.snd) := by
      rw [hbytes, h.bytes, totalBytes_perm hperm, totalBytes_append, Nat.add_sub_cancel_left]
    by_cases hempty : trimmed.1 = []
    · rw [if_pos hempty]
      rw [hempty, List.append_nil] at hlist
      obtain ⟨hfiled, hperm⟩ := h.filed.drop hlookup
      rw [hlist] at hperm
      exact ⟨rfl, rfl, ⟨hfiled, hcount hperm⟩, dropped, hperm⟩
    · rw [if_neg hempty]
      obtain ⟨hfiled, hperm⟩ := h.filed.take_out (hlookup.trans (congrArg some hlist))
      exact ⟨rfl, rfl, ⟨hfiled, hcount hperm⟩, dropped, hperm⟩

theorem Counted.trimLoop (h : self.Counted) (targetBytes : JsNumber) (bucketSizes : List ℕ) :
    self.Shrinks (trimLoop targetBytes bucketSizes self) := by
  induction bucketSizes generalizing self with
  | nil => exact h.shrinks
  | cons bucketSize bucketSizes ih =>
    have htrimmed := h.trimBucket targetBytes bucketSize
    rw [BufferPool.trimLoop]
    split
    · exact htrimmed
    · exact htrimmed.trans (ih htrimmed.counted)

/-- Trimming takes buffers away. -/
theorem Counted.trim (h : self.Counted) (targetBytes : JsNumber) :
    self.Shrinks (self.trim targetBytes) := by
  rw [BufferPool.trim]
  split
  · exact h.shrinks
  · exact h.trimLoop _ _

/-- A buffer that is released is dropped, or put into the bucket of its size if it fits. -/
theorem Counted.release (h : self.Counted) (buffer : Buffer) :
    self.Shrinks (self.release buffer) ∨
      self.maxBytes.exceededBy (self.pooledBytes + buffer.byteLength : ℕ) = false ∧
        (self.release buffer).maxBytes = self.maxBytes ∧
        (self.release buffer).bucketSizes = self.bucketSizes ∧
        (self.release buffer).Counted ∧
        (self.release buffer).pooledBytes = self.pooledBytes + buffer.byteLength ∧
        (self.release buffer).pooled.Perm (buffer :: self.pooled) := by
  obtain ⟨hlisted, hsame⟩ := h.filed.listed buffer.byteLength
  have hcount : self.pooledBytes = totalBytes ((setBucket buffer.byteLength
      ((self.buckets.lookup buffer.byteLength).getD []) self.buckets).flatMap Prod.snd) := by
    rw [hsame]
    exact h.bytes
  rw [BufferPool.release]
  dsimp only
  split
  · exact .inl h.shrinks
  next hfits =>
  rw [Bool.not_eq_true] at hfits
  split
  · refine .inl ⟨rfl, rfl, ⟨hlisted, hcount⟩, [], ?_⟩
    rw [List.nil_append, BufferPool.pooled, BufferPool.pooled, hsame]
  obtain ⟨hfiled, hperm⟩ := hlisted.put (lookup_setBucket _ _ _)
  refine .inr ⟨hfits, rfl, rfl, ⟨hfiled, ?_⟩, rfl, ?_⟩
  · rw [BufferPool.pooled, totalBytes_perm hperm, totalBytes, ← hcount, Nat.add_comm]
  · rwa [hsame] at hperm

/-- A buffer that is acquired is taken out of the bucket of its size, or allocated. -/
theorem Counted.acquire (h : self.Counted) (maxLength : ℕ) (size : JsNumber) (fresh : ℕ) :
    (∃ buffer, (self.acquire maxLength size fresh).1 = some buffer ∧
      (self.bucketFor ((JsNumber.ofNat 1).max size)).toRat? = some (buffer.byteLength : ℚ) ∧
      self.Shrinks (self.acquire maxLength size fresh).2 ∧
      self.pooled.Perm (buffer :: (self.acquire maxLength size fresh).2.pooled)) ∨
    (self.acquire maxLength size fresh).1 =
        (allocUnsafe maxLength (self.bucketFor ((JsNumber.ofNat 1).max size))).map (⟨fresh, ·⟩) ∧
      (self.acquire maxLength size fresh).2 = self := by
  rw [BufferPool.acquire]
  set bucket := self.bucketFor ((JsNumber.ofNat 1).max size)
  rcases hlist : self.listAt bucket with - | - | ⟨buffer, list⟩
  · exact .inr ⟨rfl, rfl⟩
  · exact .inr ⟨rfl, rfl⟩
  rw [listAt] at hlist
  cases hrat : bucket.toRat? with
  | none =>
    rw [hrat] at hlist
    cases hlist
  | some q =>
    rw [hrat] at hlist
    dsimp only at hlist
    split at hlist
    · next hq =>
      have hbytes := h.filed.of_lookup hlist buffer List.mem_cons_self
      rw [← hbytes] at hlist hq
      obtain ⟨hfiled, hperm⟩ := @Filed.take_out _ _ list h.filed [buffer] hlist
      refine .inl ⟨buffer, rfl, congrArg some hq.symm, ⟨rfl, rfl, ⟨hfiled, ?_⟩, [buffer], hperm⟩,
        hperm⟩
      have hone : totalBytes [buffer] = buffer.byteLength := rfl
      dsimp only
      rw [h.bytes, BufferPool.pooled, totalBytes_perm hperm, totalBytes_append, hone]
      exact Nat.add_sub_cancel_left _ _
    · cases hlist

end BufferPool

/-! ## Bucket selection -/

/-- The configured sizes: positive numbers in ascending order. -/
structure Ascending (sizes : List JsNumber) : Prop where
  sorted : sizes.Pairwise fun a b => a.rank ≤ b.rank
  positive : ∀ size ∈ sizes, (JsNumber.ofNat 0).lt size = true

theorem mem_ascending {sizes : List JsNumber} {size : JsNumber} :
    size ∈ BufferPool.ascending sizes ↔ size ∈ sizes ∧ (JsNumber.ofNat 0).lt size = true := by
  rw [BufferPool.ascending, (List.perm_insertionSort _ _).mem_iff, List.mem_filter]

theorem ascending_ascending (sizes : List JsNumber) :
    Ascending (BufferPool.ascending sizes) where
  sorted := by
    have htotal : Std.Total fun a b : JsNumber => a.rank ≤ b.rank :=
      ⟨fun a b => le_total a.rank b.rank⟩
    have htrans : IsTrans JsNumber fun a b => a.rank ≤ b.rank := ⟨fun _ _ _ => le_trans⟩
    exact List.pairwise_insertionSort _ _
  positive := fun _ hmem => (mem_ascending.mp hmem).2

section Selection

variable {sizes : List JsNumber} {size best start : JsNumber} {lo stop : ℕ}

/-- The least size that is at least the request, or the start value where there is none. -/
def SelectsFrom (sizes : List JsNumber) (size start best : JsNumber) : Prop :=
  best = start ∧ (∀ c ∈ sizes, size.le c = false) ∨
    best ∈ sizes ∧ size.le best = true ∧ ∀ c ∈ sizes, size.le c = true → best.rank ≤ c.rank

/-- The binary search. All sizes before `lo` are too small, and `best` is the size at `stop`. -/
theorem bucketLoop_selects (h : Ascending sizes) (hle : lo ≤ stop)
    (hbelow : ∀ i (hi : i < sizes.length), i < lo → size.le sizes[i] = false)
    (hbest : stop = sizes.length ∧ best = start ∨
      ∃ hlt : stop < sizes.length, best = sizes[stop] ∧ size.le best = true) :
    SelectsFrom sizes size start (bucketLoop sizes size lo stop best) := by
  have hmono : ∀ i j (hi : i < sizes.length) (hj : j < sizes.length), i ≤ j →
      sizes[i].rank ≤ sizes[j].rank := by
    intro i j hi hj hij
    rcases hij.eq_or_lt with rfl | hlt
    · exact le_rfl
    · exact List.pairwise_iff_getElem.mp h.sorted i j hi hj hlt
  have hnumber : ∀ i (hi : i < sizes.length), sizes[i] ≠ .nan := fun i hi =>
    (JsNumber.lt_iff.mp (h.positive _ (List.getElem_mem hi))).2.1
  induction hwidth : stop - lo using Nat.strong_induction_on generalizing lo stop best with
  | _ width ih =>
    rw [bucketLoop]
    by_cases hlt : lo < stop
    · rw [if_pos hlt]
      have hmid : lo ≤ (lo + (stop - 1)) / 2 ∧ (lo + (stop - 1)) / 2 < stop := by omega
      set mid := (lo + (stop - 1)) / 2
      have hlength : mid < sizes.length := by
        rcases hbest with ⟨rfl, -⟩ | ⟨hstop, -⟩
        · exact hmid.2
        · exact hmid.2.trans hstop
      dsimp only
      rw [List.getD_eq_getElem _ _ hlength]
      split
      · next hfits =>
        exact ih (mid - lo) (by omega) hmid.1 hbelow (.inr ⟨hlength, rfl, hfits⟩) rfl
      · next hsmall =>
        refine ih (stop - (mid + 1)) (by omega) hmid.2 (fun i hi hilt => ?_) hbest rfl
        rw [← Bool.not_eq_true]
        intro hfits
        obtain ⟨hsize, -, hrank⟩ := JsNumber.le_iff.mp hfits
        exact hsmall (JsNumber.le_iff.mpr ⟨hsize, hnumber mid hlength,
          hrank.trans (hmono i mid hi hlength (Nat.le_of_lt_succ hilt))⟩)
    · rw [if_neg hlt]
      obtain rfl : lo = stop := by omega
      rcases hbest with ⟨rfl, rfl⟩ | ⟨hstop, rfl, hfits⟩
      · refine .inl ⟨rfl, fun c hc => ?_⟩
        obtain ⟨i, hi, rfl⟩ := List.mem_iff_getElem.mp hc
        exact hbelow i hi hi
      · refine .inr ⟨List.getElem_mem hstop, hfits, fun c hc hcfits => ?_⟩
        obtain ⟨i, hi, rfl⟩ := List.mem_iff_getElem.mp hc
        refine hmono lo i hstop hi (not_lt.mp fun hilt => ?_)
        rw [hbelow i hi hilt] at hcfits
        cases hcfits

/-- The bucket for a request is the least size that holds it, or its own size. -/
theorem bucketFor_selects {self : BufferPool} (h : Ascending self.bucketSizes) (size : JsNumber) :
    SelectsFrom self.bucketSizes size size (self.bucketFor size) := by
  have hloop : SelectsFrom self.bucketSizes size (JsNumber.ofNat 1).neg
      (bucketLoop self.bucketSizes size 0 self.bucketSizes.length (JsNumber.ofNat 1).neg) :=
    bucketLoop_selects h (Nat.zero_le _) (fun i _ hi => absurd hi (Nat.not_lt_zero i))
      (.inl ⟨rfl, rfl⟩)
  have hminus : (JsNumber.ofNat 0).lt (JsNumber.ofNat 1).neg = false := by decide +kernel
  rw [BufferPool.bucketFor]
  rcases hloop with ⟨hbest, hnone⟩ | ⟨hmem, hfits⟩
  · rw [hbest, hminus]
    exact .inl ⟨rfl, hnone⟩
  · rw [h.positive _ hmem]
    exact .inr ⟨hmem, hfits⟩

end Selection

/-! ## Buffers that are large enough -/

/-- The requested size is whole or at most 1, or there is a bucket for it, and every one that is
large enough for the size is so for the size rounded up. -/
def HasWholeBucket (sizes : List JsNumber) (size : JsNumber) : Prop :=
  ∀ q, size.toRat? = some q → q ≤ 1 ∨ q.den = 1 ∨
    (∃ c ∈ sizes, ((q : WithTop ℚ) : WithBot (WithTop ℚ)) ≤ c.rank) ∧
      ∀ c ∈ sizes, ((q : WithTop ℚ) : WithBot (WithTop ℚ)) ≤ c.rank →
        (((⌈q⌉ : ℚ) : WithTop ℚ) : WithBot (WithTop ℚ)) ≤ c.rank

section Requests

variable {sizes : List JsNumber} {size bucket : JsNumber} {q r : ℚ}

/-- What `Math.max(1, size)` is. -/
theorem toRat?_max_one (hsize : size.toRat? = some q) :
    ((JsNumber.ofNat 1).max size).toRat? = some (max 1 q) := by
  have hone : (JsNumber.ofNat 1).toRat? = some ((1 : ℕ) : ℚ) := JsNumber.toRat?_ofNat (by norm_num)
  have hone' : JsNumber.ofNat 1 ≠ .nan := JsNumber.ofRat_ne_nan _ _
  rw [JsNumber.max, if_neg (not_or.mpr ⟨hone', (JsNumber.toRat?_eq_some hsize).1⟩),
    JsNumber.lt_of_toRat? hone hsize, Nat.cast_one]
  by_cases hlt : 1 < q
  · rw [if_pos (decide_eq_true hlt), max_eq_right hlt.le, hsize]
  · rw [if_neg (by rwa [decide_eq_true_eq]), max_eq_left (not_lt.mp hlt), hone, Nat.cast_one]

theorem rat_le_iff {p q : ℚ} :
    ((p : WithTop ℚ) : WithBot (WithTop ℚ)) ≤ ((q : WithTop ℚ) : WithBot (WithTop ℚ)) ↔ p ≤ q := by
  rw [WithBot.coe_le_coe, WithTop.coe_le_coe]

/-- The whole bytes of a bucket hold a request exactly when the bucket holds the request rounded
up. -/
theorem floor_holds_iff (hr : 0 ≤ r) : q ≤ (⌊r⌋.toNat : ℚ) ↔ (⌈q⌉ : ℚ) ≤ r := by
  have hcast : (⌊r⌋.toNat : ℚ) = (⌊r⌋ : ℚ) := by
    rw [← Int.cast_natCast, Int.toNat_of_nonneg (Int.floor_nonneg.mpr hr)]
  rw [hcast, ← Int.ceil_le, ← Int.le_floor]

/-- The bucket that is selected for a request holds it rounded up exactly when the condition is
met. -/
theorem holds_ceil_iff (hsizes : ∀ c ∈ sizes, c ≠ .nan) (hsize : size.toRat? = some q)
    (hselect : SelectsFrom sizes ((JsNumber.ofNat 1).max size) ((JsNumber.ofNat 1).max size) bucket)
    (hbucket : bucket.toRat? = some r) : (⌈q⌉ : ℚ) ≤ r ↔ HasWholeBucket sizes size := by
  have hrequest := toRat?_max_one hsize
  obtain ⟨hnumber, hrank⟩ := JsNumber.toRat?_eq_some hrequest
  obtain ⟨-, hbucketRank⟩ := JsNumber.toRat?_eq_some hbucket
  have hfits : ∀ c ∈ sizes, ((JsNumber.ofNat 1).max size).le c = true ↔
      (((max 1 q : ℚ) : WithTop ℚ) : WithBot (WithTop ℚ)) ≤ c.rank := fun c hc => by
    rw [JsNumber.le_iff, hrank]
    exact ⟨fun h => h.2.2, fun h => ⟨hnumber, hsizes c hc, h⟩⟩
  have hheld : max 1 q ≤ r := by
    rcases hselect with ⟨rfl, -⟩ | ⟨hmem, hle, -⟩
    · exact (Option.some.inj (hrequest.symm.trans hbucket)).le
    · exact rat_le_iff.mp (hbucketRank ▸ (hfits bucket hmem).mp hle)
  constructor
  · intro hceil p hp
    obtain rfl := Option.some.inj (hsize.symm.trans hp)
    refine or_iff_not_imp_left.mpr fun hlarge => ?_
    have hmax : max 1 q = q := max_eq_right (not_le.mp hlarge).le
    rw [hmax] at hfits hrequest
    rcases hselect with ⟨rfl, -⟩ | ⟨hmem, hle, hleast⟩
    · -- Without a bucket the request itself is the bucket, so it is whole.
      obtain rfl := Option.some.inj (hrequest.symm.trans hbucket)
      have hwhole : (⌈q⌉ : ℚ) = q := hceil.antisymm (Int.le_ceil q)
      rw [← hwhole]
      exact .inl (Rat.den_intCast _)
    · refine .inr ⟨⟨bucket, hmem, (hfits bucket hmem).mp hle⟩, fun c hc hqc => ?_⟩
      have hrc := hleast c hc ((hfits c hc).mpr hqc)
      rw [hbucketRank] at hrc
      exact (rat_le_iff.mpr hceil).trans hrc
  · intro hwhole
    rcases le_or_gt q 1 with hsmall | hlarge
    · have hone : (⌈q⌉ : ℚ) ≤ 1 := by
        rw [← Int.cast_one, Int.cast_le, Int.ceil_le, Int.cast_one]
        exact hsmall
      exact hone.trans ((le_max_left 1 q).trans hheld)
    rw [max_eq_right hlarge.le] at hfits hheld
    rcases hwhole q hsize with hsmall | hden | ⟨⟨c, hc, hqc⟩, hall⟩
    · exact absurd hsmall (not_le.mpr hlarge)
    · rw [← (Rat.den_eq_one_iff q).mp hden, Int.ceil_intCast, (Rat.den_eq_one_iff q).mp hden]
      exact hheld
    · rcases hselect with ⟨-, hnone⟩ | ⟨hmem, -, -⟩
      · have hnot := hnone c hc
        rw [(hfits c hc).mpr hqc] at hnot
        cases hnot
      · exact rat_le_iff.mp (hbucketRank ▸ hall bucket hmem
          (hbucketRank ▸ rat_le_iff.mpr hheld))

/-- A request that is no rational number gets a buffer only where every size is large enough. -/
theorem rank_le_of_toRat?_none (hsize : size.toRat? = none)
    (hselect : SelectsFrom sizes ((JsNumber.ofNat 1).max size) ((JsNumber.ofNat 1).max size) bucket)
    (hbucket : bucket.toRat? = some r) (n : ℕ) :
    size.rank ≤ (((n : ℚ) : WithTop ℚ) : WithBot (WithTop ℚ)) := by
  cases size with
  | nan => exact bot_le
  | infinity negative =>
    cases negative with
    | true => exact bot_le
    | false =>
      -- An infinite bucket is no rational number.
      exfalso
      have hrequest : (JsNumber.ofNat 1).max (.infinity false) = .infinity false := by
        decide +kernel
      rw [hrequest] at hselect
      rcases hselect with ⟨rfl, -⟩ | ⟨-, hle, -⟩
      · cases hbucket
      · have htop := (JsNumber.le_iff.mp hle).2.2
        rw [(JsNumber.toRat?_eq_some hbucket).2] at htop
        exact absurd (WithBot.coe_le_coe.mp htop) (not_le.mpr (WithTop.coe_lt_top r))
  | negZero => cases hsize
  | finite => cases hsize

/-- The bytes of a bucket hold the request exactly when the condition is met. -/
theorem floor_bucket_holds_iff (h : Ascending sizes)
    (hselect : SelectsFrom sizes ((JsNumber.ofNat 1).max size) ((JsNumber.ofNat 1).max size) bucket)
    (hbucket : bucket.toRat? = some r) (hr : 0 ≤ r) :
    size.rank ≤ (((⌊r⌋.toNat : ℚ) : WithTop ℚ) : WithBot (WithTop ℚ)) ↔
      HasWholeBucket sizes size := by
  cases hsize : size.toRat? with
  | none =>
    refine ⟨fun _ p hp => ?_, fun _ => rank_le_of_toRat?_none hsize hselect hbucket _⟩
    rw [hsize] at hp
    cases hp
  | some q =>
    rw [(JsNumber.toRat?_eq_some hsize).2, rat_le_iff, floor_holds_iff hr]
    exact holds_ceil_iff (fun c hc => (JsNumber.lt_iff.mp (h.positive c hc)).2.1) hsize hselect
      hbucket

end Requests

/-! ## Every run -/

namespace PoolRun

/-- The counter is exact and within the limit, and no buffer is at two places. -/
structure Sound (s : PoolRun) : Prop where
  counted : s.pool.Counted
  within : s.pool.maxBytes.exceededBy s.pool.pooledBytes = false
  distinct : ((s.outstanding ++ s.pool.pooled).map Buffer.id).Nodup
  given : ∀ buffer ∈ s.outstanding ++ s.pool.pooled, buffer.id < s.allocated
  bucketSizes : Ascending s.pool.bucketSizes

variable {s t : PoolRun} {maxLength : ℕ} {options : BufferPoolOptions} {pool : BufferPool}

/-- A counter below one that is within the limit. -/
theorem within_of_shrinks {after : BufferPool} (h : pool.Counted) (hshrinks : pool.Shrinks after)
    (hwithin : pool.maxBytes.exceededBy pool.pooledBytes = false) :
    after.maxBytes.exceededBy after.pooledBytes = false := by
  obtain ⟨dropped, hperm⟩ := hshrinks.dropped
  rw [hshrinks.maxBytes]
  refine JsNumber.not_exceededBy_mono (Nat.cast_le.mpr ?_) hwithin
  rw [h.bytes, hshrinks.counted.bytes, totalBytes_perm hperm, totalBytes_append]
  exact Nat.le_add_left _ _

/-- Fewer buffers in a pool within its limit. -/
theorem Sound.of_subperm (h : s.Sound) (hcounted : t.pool.Counted)
    (hwithin : t.pool.maxBytes.exceededBy t.pool.pooledBytes = false)
    (hsizes : t.pool.bucketSizes = s.pool.bucketSizes) (hallocated : s.allocated ≤ t.allocated)
    (hsub : (t.outstanding ++ t.pool.pooled).Subperm (s.outstanding ++ s.pool.pooled)) :
    t.Sound where
  counted := hcounted
  within := hwithin
  distinct := by
    obtain ⟨kept, hperm, hkept⟩ := hsub
    exact (hperm.map Buffer.id).nodup_iff.mp (h.distinct.sublist (hkept.map _))
  given buffer hbuffer := (h.given buffer (hsub.subset hbuffer)).trans_le hallocated
  bucketSizes := hsizes ▸ h.bucketSizes

/-- An empty pool is within the least limit. -/
theorem not_exceededBy_zero (maxBytes : JsNumber) :
    ((JsNumber.ofNat 1024).max maxBytes).exceededBy (0 : ℕ) = false := by
  have hzero : (JsNumber.ofNat 1024).lt (JsNumber.ofNat 0) = false := by
    rw [JsNumber.lt_ofNat (by norm_num) (by norm_num)]
    exact decide_eq_false (by omega)
  rw [JsNumber.exceededBy_natCast _ (by norm_num), JsNumber.max]
  split
  · rfl
  · split
    · next hlt =>
      rw [← Bool.not_eq_true]
      intro hnegative
      rw [JsNumber.lt_trans hlt hnegative] at hzero
      cases hzero
    · exact hzero

/-- A new pool. -/
theorem sound_new (options : BufferPoolOptions) : Sound ⟨.new options, [], 0⟩ where
  counted := ⟨⟨List.nodup_nil, fun _ hmem => absurd hmem List.not_mem_nil⟩, rfl⟩
  within := not_exceededBy_zero _
  distinct := List.nodup_nil
  given _ hmem := absurd hmem List.not_mem_nil
  bucketSizes := ascending_ascending _

theorem Sound.acquire (h : s.Sound) (maxLength : ℕ) (size : JsNumber) :
    (s.next maxLength (.acquire size)).Sound := by
  rcases h.counted.acquire maxLength size s.allocated with
    ⟨buffer, hbuffer, -, hshrinks, hperm⟩ | ⟨hfresh, hsame⟩
  · refine h.of_subperm hshrinks.counted (within_of_shrinks h.counted hshrinks h.within)
      hshrinks.bucketSizes (Nat.le_succ _) (List.Perm.subperm ?_)
    rw [next, hbuffer]
    exact List.perm_middle.symm.trans (hperm.symm.append_left s.outstanding)
  · rw [next, hfresh, hsame]
    cases allocUnsafe maxLength (s.pool.bucketFor ((JsNumber.ofNat 1).max size)) with
    | none => exact h.of_subperm h.counted h.within rfl (Nat.le_succ _) (List.Subperm.refl _)
    | some byteLength =>
      refine ⟨h.counted, h.within, List.nodup_cons.mpr ⟨fun hmem => ?_, h.distinct⟩,
        fun buffer hbuffer => ?_, h.bucketSizes⟩
      · obtain ⟨other, hother, hid⟩ := List.mem_map.mp hmem
        exact absurd hid (h.given other hother).ne
      · rcases List.mem_cons.mp hbuffer with rfl | hbuffer
        · exact Nat.lt_succ_self _
        · exact (h.given buffer hbuffer).trans (Nat.lt_succ_self _)

theorem Sound.release (h : s.Sound) (maxLength : ℕ) {buffer : Buffer}
    (hbuffer : buffer ∈ s.outstanding) : (s.next maxLength (.release buffer)).Sound := by
  rcases h.counted.release buffer with hshrinks |
    ⟨hwithin, hmax, hsizes, hcounted, hbytes, hperm⟩
  · refine h.of_subperm hshrinks.counted (within_of_shrinks h.counted hshrinks h.within)
      hshrinks.bucketSizes le_rfl ?_
    exact List.Subperm.append List.erase_sublist.subperm hshrinks.subperm
  · refine h.of_subperm hcounted ?_ hsizes le_rfl (List.Perm.subperm ?_)
    · rw [next, hmax, hbytes]
      exact hwithin
    · refine (hperm.append_left _).trans (List.perm_middle.trans ?_)
      rw [← List.cons_append]
      exact (List.perm_cons_erase hbuffer).symm.append_right _

theorem Sound.trim (h : s.Sound) (maxLength : ℕ) (targetBytes : Option JsNumber) :
    (s.next maxLength (.trim targetBytes)).Sound := by
  have hshrinks := h.counted.trim (targetBytes.getD s.pool.defaultTarget)
  exact h.of_subperm hshrinks.counted (within_of_shrinks h.counted hshrinks h.within)
    hshrinks.bucketSizes le_rfl (List.Subperm.append (List.Subperm.refl _) hshrinks.subperm)

/-- Every run of calls keeps the counter exact and the buffers apart. -/
theorem sound_of_reachable (hs : (system maxLength options).Reachable s) : s.Sound := by
  refine hs.invariant ?_ ?_
  · rintro - rfl
    exact sound_new options
  · rintro s (size | buffer | targetBytes) t hsound ⟨hreleased, rfl⟩
    · exact hsound.acquire maxLength size
    · exact hsound.release maxLength (hreleased buffer rfl)
    · exact hsound.trim maxLength targetBytes

/-- A buffer that is acquired is not outstanding. -/
theorem Sound.acquired_fresh (h : s.Sound) {size : JsNumber} {buffer : Buffer}
    (hbuffer : (s.pool.acquire maxLength size s.allocated).1 = some buffer) :
    ∀ other ∈ s.outstanding, other.id ≠ buffer.id := by
  have hdistinct := (h.acquire maxLength size).distinct
  rw [next, hbuffer] at hdistinct
  intro other hother hid
  refine (List.nodup_cons.mp hdistinct).1 ?_
  rw [← hid]
  exact List.mem_map_of_mem (List.mem_append_left _ hother)

/-- A buffer that is acquired has the whole bytes of its bucket. -/
theorem Sound.acquired_bytes (h : s.Sound) {size : JsNumber} {buffer : Buffer}
    (hbuffer : (s.pool.acquire maxLength size s.allocated).1 = some buffer) :
    ∃ r : ℚ, (s.pool.bucketFor ((JsNumber.ofNat 1).max size)).toRat? = some r ∧ 0 ≤ r ∧
      buffer.byteLength = ⌊r⌋.toNat := by
  rcases h.counted.acquire maxLength size s.allocated with
    ⟨other, hother, hbucket, -, -⟩ | ⟨hfresh, -⟩
  · obtain rfl := Option.some.inj (hother.symm.trans hbuffer)
    refine ⟨_, hbucket, Nat.cast_nonneg _, ?_⟩
    rw [Int.floor_natCast, Int.toNat_natCast]
  · rw [hfresh, Option.map_eq_some_iff] at hbuffer
    obtain ⟨byteLength, halloc, rfl⟩ := hbuffer
    rw [allocUnsafe] at halloc
    cases hbucket : (s.pool.bucketFor ((JsNumber.ofNat 1).max size)).toRat? with
    | none =>
      rw [hbucket] at halloc
      cases halloc
    | some r =>
      rw [hbucket] at halloc
      dsimp only at halloc
      split at halloc
      · next hr => exact ⟨r, rfl, hr.1, (Option.some.inj halloc).symm⟩
      · cases halloc

/-- **Accounting.** After any calls in which a buffer is released at most once after it was
acquired, the counter is the size of the pooled buffers and within the limit, each of them waits in
the bucket of its size, and the next acquired buffer is one that nobody holds. It is as large as
requested exactly when there is a whole bucket for the size. -/
theorem accounted_and_large_iff (hs : (system maxLength options).Reachable s) :
    s.Sound ∧ ∀ size buffer, (s.pool.acquire maxLength size s.allocated).1 = some buffer →
      (∀ other ∈ s.outstanding, other.id ≠ buffer.id) ∧
      (size.rank ≤ (((buffer.byteLength : ℚ) : WithTop ℚ) : WithBot (WithTop ℚ)) ↔
        HasWholeBucket s.pool.bucketSizes size) := by
  have hsound := sound_of_reachable hs
  refine ⟨hsound, fun size buffer hbuffer => ⟨hsound.acquired_fresh hbuffer, ?_⟩⟩
  obtain ⟨r, hbucket, hr, hbytes⟩ := hsound.acquired_bytes hbuffer
  rw [hbytes]
  exact floor_bucket_holds_iff hsound.bucketSizes (bucketFor_selects
    hsound.bucketSizes _) hbucket hr

/-- A pool without configured sizes. -/
def bare : PoolRun := ⟨.new ⟨none, some [], none⟩, [], 0⟩

/-- Without configured sizes a buffer of the requested size is allocated. -/
theorem bare_acquire {size : JsNumber} {q : ℚ} (hsize : size.toRat? = some q) (hq : 1 < q)
    (hlimit : q ≤ maxLength) :
    (bare.pool.acquire maxLength size 0).1 = some ⟨0, ⌊q⌋.toNat⟩ := by
  have hone : (JsNumber.ofNat 1).toRat? = some ((1 : ℕ) : ℚ) := JsNumber.toRat?_ofNat (by norm_num)
  have hrequest : (JsNumber.ofNat 1).max size = size := by
    rw [JsNumber.max, if_neg (not_or.mpr ⟨(JsNumber.toRat?_eq_some hone).1,
      (JsNumber.toRat?_eq_some hsize).1⟩), JsNumber.lt_of_toRat? hone hsize, Nat.cast_one,
      if_pos (decide_eq_true hq)]
  have hbucket : bare.pool.bucketFor size = size := by
    have hsizes : Ascending bare.pool.bucketSizes := ascending_ascending []
    rcases bucketFor_selects hsizes size with ⟨h, -⟩ | ⟨hmem, -⟩
    · exact h
    · exact absurd hmem List.not_mem_nil
  rcases (sound_new ⟨none, some [], none⟩).counted.acquire maxLength size 0 with
    ⟨buffer, -, -, -, hperm⟩ | ⟨hfresh, -⟩
  · exact absurd hperm.length_eq (by rw [List.length_cons]; exact (Nat.succ_ne_zero _).symm)
  · rw [bare, hfresh, hrequest]
    change (allocUnsafe maxLength (bare.pool.bucketFor size)).map _ = _
    rw [hbucket, allocUnsafe, hsize]
    dsimp only
    rw [if_pos ⟨zero_le_one.trans hq.le, hlimit⟩]
    rfl

theorem accounted_and_large_iff_sample :
    let s := (bare.next 4096 (.acquire (.ofNat 300))).next 4096 (.release ⟨0, 300⟩)
    s.Sound ∧ ∀ size buffer, (s.pool.acquire 4096 size s.allocated).1 = some buffer →
      (∀ other ∈ s.outstanding, other.id ≠ buffer.id) ∧
      (size.rank ≤ (((buffer.byteLength : ℚ) : WithTop ℚ) : WithBot (WithTop ℚ)) ↔
        HasWholeBucket s.pool.bucketSizes size) := by
  have hacquired : (bare.pool.acquire 4096 (.ofNat 300) 0).1 = some ⟨0, 300⟩ :=
    bare_acquire (JsNumber.toRat?_ofNat (by norm_num)) (by norm_num) (by norm_num)
  have hfirst : (system 4096 ⟨none, some [], none⟩).Run ([] ++ [.acquire (.ofNat 300)])
      (bare.next 4096 (.acquire (.ofNat 300))) := .next (.start rfl) ⟨nofun, rfl⟩
  refine accounted_and_large_iff ⟨_, hfirst.next ⟨?_, rfl⟩⟩
  rintro buffer ⟨⟩
  rw [next]
  change _ ∈ (bare.pool.acquire 4096 (.ofNat 300) 0).1.toList ++ _
  rw [hacquired]
  exact List.mem_cons_self

/-- A buffer of 262144 bytes is returned for a request of 262144.5 bytes. -/
theorem fractional_request_short : ¬ ∀ (maxLength : ℕ) (options : BufferPoolOptions) (s : PoolRun),
    (system maxLength options).Reachable s → ∀ size buffer,
      (s.pool.acquire maxLength size s.allocated).1 = some buffer →
      size.rank ≤ (((buffer.byteLength : ℚ) : WithTop ℚ) : WithBot (WithTop ℚ)) := by
  intro hlarge
  have hsize : (JsNumber.ofRat (524289 / 2) false).toRat? = some (524289 / 2) :=
    JsNumber.toRat?_ofRat (by decide +kernel) _
  have hbuffer := @bare_acquire (2 ^ 32) _ _ hsize (by norm_num) (by norm_num)
  have hle := hlarge _ _ bare ⟨[], .start rfl⟩ _ _ hbuffer
  rw [(JsNumber.toRat?_eq_some hsize).2, rat_le_iff] at hle
  have hfloor : ⌊(524289 / 2 : ℚ)⌋.toNat = 262144 := by decide +kernel
  rw [hfloor] at hle
  norm_num at hle

end PoolRun

end MemphisOS.Caches
