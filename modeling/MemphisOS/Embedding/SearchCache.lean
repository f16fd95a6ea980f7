import MemphisOS.Bridge.Envelope
import MemphisOS.Ecma.Documents
import MemphisOS.Ecma.Maps
import MemphisOS.Ecma.NumberOrder
import MemphisOS.Ecma.NumeralLaws
import MemphisOS.Systems.Transition

/-!
# The cache of searches

The adapter of the native index keeps the answers of searches for a while. The index is in some
state, which its functions read and change; their answers are JSON texts.
-/

namespace MemphisOS.Embedding

open Ecma Bridge

variable {σ : Type}

/-! ## The bridge -/

/-- The functions of the native index. Numbers arrive there as unsigned integers. -/
structure EmbedBridge (σ : Type) where
  embedStore : σ → JsString → JsString → Text × σ
  embedSearch : σ → JsString → ℕ → Text
  embedSearchTuned : σ → JsString → ℕ → Text
  embedReset : σ → Text × σ

/-- A number as an unsigned integer of 32 bits. -/
def toUint32 : JsNumber → ℕ
  | .finite q _ => ((if q < 0 then ⌈q⌉ else ⌊q⌋) % 2 ^ 32).toNat
  | _ => 0

/-- What `parseEnvelope` throws. -/
inductive EnvelopeError where
  | syntaxError
  /-- The `TypeError` of `out.ok` for an answer that is `null`. -/
  | nullAnswer
  /-- `out.error ?? 'rust bridge error'`. -/
  | bridge (error : Option Plain)
  | emptyData

def parseEnvelope (raw : Text) : Except EnvelopeError Plain :=
  match parseJson raw with
  | none => .error .syntaxError
  | some .null => .error .nullAnswer
  | some out =>
    if truthy (property out "ok") then
      match property out "data" with
      | some data => .ok data
      | none => .error .emptyData
    else .error (.bridge (property out "error"))

/-! ## The cache -/

structure CacheEntry where
  value : Plain
  expiresAt : JsNumber

abbrev SearchCache := List (JsString × CacheEntry)

def embedCacheMaxEntries : ℕ := 128

def cacheKey (query : JsString) (topK : JsNumber) (tuned : Bool) : JsString :=
  js (if tuned then "tuned" else "base") ++ js "::" ++ ofText (numberText topK) ++ js "::" ++ query

/-- `Map.prototype.delete`. -/
def deleteKey (key : JsString) (cache : SearchCache) : SearchCache :=
  cache.filter fun entry => entry.1 ≠ key

def getFromCache (cache : SearchCache) (key : JsString) (now : JsNumber) :
    Option Plain × SearchCache :=
  match cache.lookup key with
  | none => (none, cache)
  | some entry =>
    if entry.expiresAt.le now then (none, deleteKey key cache)
    else (some entry.value, setMember key entry (deleteKey key cache))

/-- The loop of `setToCache`: the oldest keys go while there are too many. -/
def dropOldest : SearchCache → SearchCache
  | [] => []
  | (oldestKey, entry) :: rest =>
    if embedCacheMaxEntries < rest.length + 1 then
      if oldestKey = [] then (oldestKey, entry) :: rest else dropOldest rest
    else (oldestKey, entry) :: rest

def setToCache (cache : SearchCache) (key : JsString) (value : Plain) (ttlMs now : JsNumber) :
    SearchCache :=
  dropOldest (setMember key { value, expiresAt := now.add ttlMs } cache)

/-! ## The adapter -/

/-- The cache of the module and the state of the index. -/
structure EmbedState (σ : Type) where
  embedSearchCache : SearchCache
  index : σ

/-- What the adapter finds in its environment: the bridge, and how long answers are kept. -/
structure EmbedAdapter (σ : Type) where
  bridge : EmbedBridge σ
  ttlMs : JsNumber

namespace EmbedAdapter

variable (adapter : EmbedAdapter σ)

/-- `metrics.recordEmbedQuery(out.count)`, which throws for data that are `null`. -/
def recordEmbedQuery : Plain → Except EnvelopeError Plain
  | .null => .error .nullAnswer
  | out => .ok out

/-- What a search of the index answers. -/
def nativeAnswer (index : σ) (tuned : Bool) (query : JsString) (topK : JsNumber) :
    Except EnvelopeError Plain :=
  parseEnvelope <|
    if tuned then adapter.bridge.embedSearchTuned index query (toUint32 topK)
    else adapter.bridge.embedSearch index query (toUint32 topK)

/-- A search without a cache. -/
def nativeSearch (index : σ) (tuned : Bool) (query : JsString) (topK : JsNumber) :
    Except EnvelopeError Plain :=
  adapter.nativeAnswer index tuned query topK >>= recordEmbedQuery

/-- The common body of the searches. -/
def search (tuned : Bool) (s : EmbedState σ) (query : JsString) (topK now : JsNumber) :
    Except EnvelopeError Plain × EmbedState σ :=
  let key := cacheKey query topK tuned
  let found := getFromCache s.embedSearchCache key now
  if truthy found.1 then (.ok (found.1.getD .null), { s with embedSearchCache := found.2 })
  else
    match adapter.nativeAnswer s.index tuned query topK with
    | .error e => (.error e, { s with embedSearchCache := found.2 })
    | .ok out =>
      (recordEmbedQuery out,
        { s with embedSearchCache := setToCache found.2 key out adapter.ttlMs now })

def embedSearch := adapter.search false

def embedSearchTuned := adapter.search true

def embedStore (s : EmbedState σ) (id text : JsString) :
    Except EnvelopeError Plain × EmbedState σ :=
  let stored := adapter.bridge.embedStore s.index id text
  (parseEnvelope stored.1, { s with index := stored.2 })

def embedReset (s : EmbedState σ) : Except EnvelopeError Plain × EmbedState σ :=
  let cleared := adapter.bridge.embedReset s.index
  (parseEnvelope cleared.1, { embedSearchCache := [], index := cleared.2 })

end EmbedAdapter

/-! ## Histories -/

inductive EmbedCall where
  | store (id text : JsString)
  | search (tuned : Bool) (query : JsString) (topK now : JsNumber)
  | reset

namespace EmbedAdapter

variable (adapter : EmbedAdapter σ)

def next (s : EmbedState σ) : EmbedCall → EmbedState σ
  | .store id text => (adapter.embedStore s id text).2
  | .search tuned query topK now => (adapter.search tuned s query topK now).2
  | .reset => (adapter.embedReset s).2

/-- The adapter over an index in a first state. -/
def system (index : σ) : TransitionSystem (EmbedState σ) EmbedCall :=
  .ofFunction { embedSearchCache := [], index } adapter.next

/-- Every search answers what the index answers. -/
def Transparent (s : EmbedState σ) : Prop :=
  ∀ tuned query topK now, (adapter.search tuned s query topK now).1 =
    adapter.nativeSearch s.index tuned query topK

/-- A `store` leaves the answers of the searches that are cached. -/
def Unaffected (s : EmbedState σ) : EmbedCall → Prop
  | .store id text => ∀ tuned query topK entry,
      (cacheKey query topK tuned, entry) ∈ s.embedSearchCache → truthy (some entry.value) = true →
      adapter.nativeSearch (adapter.embedStore s id text).2.index tuned query topK =
        adapter.nativeSearch s.index tuned query topK
  | _ => True

end EmbedAdapter

/-! ## Keys -/

theorem toUint32_dropZeroSign (n : JsNumber) : toUint32 n.dropZeroSign = toUint32 n := by
  cases n with
  | negZero =>
    change toUint32 (.ofNat 0) = 0
    rw [JsNumber.ofNat_eq (by norm_num)]
    rfl
  | _ => rfl

/-- The text in front of the query in a key. -/
def keyFront (topK : JsNumber) (tuned : Bool) : Text :=
  (if tuned then "tuned" else "base").toList ++ "::".toList ++ numberText topK ++ "::".toList

theorem cacheKey_eq (query : JsString) (topK : JsNumber) (tuned : Bool) :
    cacheKey query topK tuned = ofText (keyFront topK tuned) ++ query := by
  rw [cacheKey, keyFront]
  simp only [js, ofText_append, List.append_assoc]

/-- Searches with one key ask the index for the same. -/
theorem same_of_cacheKey {query query' : JsString} {topK topK' : JsNumber} {tuned tuned' : Bool}
    (h : cacheKey query topK tuned = cacheKey query' topK' tuned') :
    tuned = tuned' ∧ query = query' ∧ toUint32 topK = toUint32 topK' := by
  rw [cacheKey_eq, cacheKey_eq] at h
  have htext := congrArg wellFormed h
  rw [wellFormed_ofText_append, wellFormed_ofText_append] at htext
  have htuned : tuned = tuned' := by
    cases tuned <;> cases tuned' <;> simp_all [keyFront]
  subst htuned
  have hnumber : numberText topK = numberText topK' := by
    unfold keyFront at htext
    simp only [List.append_assoc, List.append_cancel_left_eq] at htext
    have hfront := congrArg (List.takeWhile (· ≠ ':')) htext
    have htake : ∀ (n : JsNumber) (rest : Text), (numberText n ++ ':' :: rest).takeWhile (· ≠ ':') =
        numberText n := by
      intro n rest
      rw [List.takeWhile_append_of_pos (fun c hc => by
        refine decide_eq_true ?_
        rintro rfl
        exact colon_not_mem_numberText n hc), List.takeWhile_cons_of_neg (by simp),
        List.append_nil]
    have hcolons : ∀ rest : Text, "::".toList ++ rest = ':' :: ':' :: rest := fun _ => rfl
    rwa [hcolons, hcolons, htake, htake] at hfront
  have hfront : keyFront topK tuned = keyFront topK' tuned := by
    rw [keyFront, keyFront, hnumber]
  rw [hfront, List.append_cancel_left_eq] at h
  refine ⟨rfl, h, ?_⟩
  rw [← toUint32_dropZeroSign topK, ← toUint32_dropZeroSign topK',
    dropZeroSign_eq_of_numberText hnumber]

/-! ## Entries -/

section Entries

variable {cache : SearchCache} {key : JsString} {entry : CacheEntry} {e : JsString × CacheEntry}

theorem mem_of_mem_deleteKey (h : e ∈ deleteKey key cache) : e ∈ cache := List.mem_of_mem_filter h

theorem mem_of_mem_dropOldest (h : e ∈ dropOldest cache) : e ∈ cache := by
  induction cache with
  | nil => exact h
  | cons e' cache ih =>
    rw [dropOldest] at h
    split at h
    · split at h
      · exact h
      · exact List.mem_cons_of_mem _ (ih h)
    · exact h

/-- What is found in the cache is the value of an entry, and the entries stay. -/
theorem getFromCache_spec (cache : SearchCache) (key : JsString) (now : JsNumber) :
    (∀ value, (getFromCache cache key now).1 = some value →
      ∃ entry, (key, entry) ∈ cache ∧ entry.value = value) ∧
    ∀ e ∈ (getFromCache cache key now).2, e ∈ cache := by
  rw [getFromCache]
  cases hentry : cache.lookup key with
  | none => exact ⟨fun _ h => (by cases h), fun _ h => h⟩
  | some entry =>
    have hmem := mem_of_lookup_eq_some hentry
    dsimp only
    split
    · exact ⟨fun _ h => (by cases h), fun _ h => mem_of_mem_deleteKey h⟩
    · refine ⟨fun value h => ⟨entry, hmem, Option.some.inj h⟩, fun e he => ?_⟩
      rcases mem_of_mem_setMember he with rfl | he
      · exact hmem
      · exact mem_of_mem_deleteKey he

end Entries

/-! ## Transparency -/

namespace EmbedAdapter

variable {adapter : EmbedAdapter σ} {s : EmbedState σ}

theorem recordEmbedQuery_of_truthy {out : Plain} (h : truthy (some out) = true) :
    recordEmbedQuery out = .ok out := by
  cases out with
  | null => cases h
  | _ => rfl

/-- What is cached, and counts as true, is what the index answers. -/
def Fresh (adapter : EmbedAdapter σ) (cache : SearchCache) (index : σ) : Prop :=
  ∀ tuned query topK entry, (cacheKey query topK tuned, entry) ∈ cache →
    truthy (some entry.value) = true →
    adapter.nativeSearch index tuned query topK = .ok entry.value

/-- A search answers what the index answers, and keeps the cache fresh. -/
theorem search_spec (h : adapter.Fresh s.embedSearchCache s.index) (tuned : Bool)
    (query : JsString) (topK now : JsNumber) :
    (adapter.search tuned s query topK now).1 = adapter.nativeSearch s.index tuned query topK ∧
      adapter.Fresh (adapter.search tuned s query topK now).2.embedSearchCache s.index ∧
      (adapter.search tuned s query topK now).2.index = s.index := by
  obtain ⟨hvalue, hkept⟩ :=
    getFromCache_spec s.embedSearchCache (cacheKey query topK tuned) now
  have hfound : adapter.Fresh
      (getFromCache s.embedSearchCache (cacheKey query topK tuned) now).2 s.index :=
    fun tuned query topK entry hmem => h tuned query topK entry (hkept _ hmem)
  rw [search]
  by_cases hhit :
      truthy (getFromCache s.embedSearchCache (cacheKey query topK tuned) now).1 = true
  · rw [if_pos hhit]
    refine ⟨?_, hfound, rfl⟩
    cases hcached : (getFromCache s.embedSearchCache (cacheKey query topK tuned) now).1 with
    | none =>
      rw [hcached] at hhit
      cases hhit
    | some value =>
      obtain ⟨entry, hmem, rfl⟩ := hvalue value hcached
      rw [hcached] at hhit
      exact (h tuned query topK entry hmem hhit).symm
  · rw [if_neg hhit]
    cases hnative : adapter.nativeAnswer s.index tuned query topK with
    | error e =>
      rw [nativeSearch, hnative]
      exact ⟨rfl, hfound, rfl⟩
    | ok out =>
      rw [nativeSearch, hnative]
      refine ⟨rfl, fun tuned' query' topK' entry hmem htruthy => ?_, rfl⟩
      rcases mem_of_mem_setMember (mem_of_mem_dropOldest hmem) with heq | hmem
      · obtain ⟨hkey, rfl⟩ := Prod.mk.inj heq
        obtain ⟨rfl, rfl, hnumber⟩ := same_of_cacheKey hkey
        rw [nativeSearch, nativeAnswer, hnumber]
        exact (congrArg (· >>= recordEmbedQuery) hnative).trans (recordEmbedQuery_of_truthy htruthy)
      · exact hfound tuned' query' topK' entry hmem htruthy

theorem fresh_next (h : adapter.Fresh s.embedSearchCache s.index) {call : EmbedCall}
    (hcall : adapter.Unaffected s call) :
    adapter.Fresh (adapter.next s call).embedSearchCache (adapter.next s call).index := by
  cases call with
  | store id text =>
    intro tuned query topK entry hmem htruthy
    exact (hcall tuned query topK entry hmem htruthy).trans (h tuned query topK entry hmem htruthy)
  | search tuned query topK now =>
    obtain ⟨-, hfresh, hindex⟩ := search_spec h tuned query topK now
    exact hindex ▸ hfresh
  | reset => exact fun _ _ _ _ hmem => absurd hmem List.not_mem_nil

/-- What is cached, and not yet too old, is the answer. -/
theorem search_hit {tuned : Bool} {query : JsString} {topK now : JsNumber} {entry : CacheEntry}
    (hentry : s.embedSearchCache.lookup (cacheKey query topK tuned) = some entry)
    (hlive : entry.expiresAt.le now = false) (htruthy : truthy (some entry.value) = true) :
    (adapter.search tuned s query topK now).1 = .ok entry.value := by
  have hcached : (getFromCache s.embedSearchCache (cacheKey query topK tuned) now).1 =
      some entry.value := by
    rw [getFromCache, hentry]
    dsimp only
    rw [hlive]
    rfl
  rw [search, hcached, if_pos htruthy]
  rfl

/-- A cached answer that the index no longer gives is still given until it is too old. -/
theorem not_transparent_of_stale {tuned : Bool} {query : JsString} {topK now : JsNumber}
    {entry : CacheEntry}
    (hentry : s.embedSearchCache.lookup (cacheKey query topK tuned) = some entry)
    (hlive : entry.expiresAt.le now = false) (htruthy : truthy (some entry.value) = true)
    (hstale : adapter.nativeSearch s.index tuned query topK ≠ .ok entry.value) :
    ¬ adapter.Transparent s := fun h =>
  hstale ((h tuned query topK now).symm.trans (search_hit hentry hlive htruthy))

/-- **The cache of searches.** In every run in which each `store` leaves the answers of the cached
searches, every search answers what the index answers at that moment. -/
theorem transparent_of_unaffected (adapter : EmbedAdapter σ) (index : σ) {s : EmbedState σ}
    (hs : ((adapter.system index).restrict adapter.Unaffected).Reachable s) :
    adapter.Transparent s := by
  have hfresh : adapter.Fresh s.embedSearchCache s.index := by
    refine TransitionSystem.Reachable.invariant
      (I := fun s => adapter.Fresh s.embedSearchCache s.index) hs ?_ ?_
    · rintro s rfl
      exact fun _ _ _ _ hmem => absurd hmem List.not_mem_nil
    · rintro s call t h ⟨hcall, rfl⟩
      exact fresh_next h hcall
  exact fun tuned query topK now => (search_spec hfresh tuned query topK now).1

end EmbedAdapter

/-! ## An index of documents -/

/-- What the sample index answers with the given data. -/
def sampleAnswer (data : Plain) : Plain := .obj [(js "ok", .bool true), (js "data", data)]

def sampleHit (doc : JsString × JsString) : Plain :=
  .obj [(js "id", .str doc.1), (js "score", .num (.ofNat 1)), (js "text_preview", .str doc.2)]

/-- The documents with the text that is searched. -/
def sampleHits (docs : List (JsString × JsString)) (query : JsString) : Plain :=
  .obj [(js "query", .str query),
    (js "hits", .arr ((docs.filter fun doc => doc.2 = query).map sampleHit))]

def sampleSearch (docs : List (JsString × JsString)) (query : JsString) (_ : ℕ) : Text :=
  jsonText [] (sampleAnswer (sampleHits docs query))

def sampleAdapter : EmbedAdapter (List (JsString × JsString)) where
  bridge :=
    { embedStore := fun docs id text =>
        (jsonText [] (sampleAnswer (.obj [(js "id", .str id)])), setMember id text docs)
      embedSearch := sampleSearch
      embedSearchTuned := sampleSearch
      embedReset := fun _ => (jsonText [] (sampleAnswer (.obj [(js "cleared", .bool true)])), []) }
  ttlMs := .ofNat 15000

theorem nativeAnswer_sample (docs : List (JsString × JsString)) (tuned : Bool) (query : JsString)
    (topK : JsNumber) :
    sampleAdapter.nativeAnswer docs tuned query topK = .ok (sampleHits docs query) := by
  have hhit : ∀ doc, IsDocument (sampleHit doc) := fun doc =>
    @isDocument_of_names ["id", "score", "text_preview"] _ rfl (by decide) (by decide)
      (by simp [isDocument_ofNat])
  have hhits : IsDocument (sampleHits docs query) :=
    @isDocument_of_names ["query", "hits"] _ rfl (by decide) (by decide)
      (by simp [hhit, -isDocument_obj])
  have hanswer : IsDocument (sampleAnswer (sampleHits docs query)) :=
    @isDocument_of_names ["ok", "data"] _ rfl (by decide) (by decide)
      (by simp [hhits, -isDocument_obj])
  have hparse := @IsDocument.parseJson _ [] hanswer (by simp [Json.Blank])
  have hsearch : sampleAdapter.nativeAnswer docs tuned query topK =
      parseEnvelope (jsonText [] (sampleAnswer (sampleHits docs query))) := by
    cases tuned <;> rfl
  rw [hsearch, parseEnvelope, hparse]
  rfl

theorem nativeSearch_sample (docs : List (JsString × JsString)) (tuned : Bool) (query : JsString)
    (topK : JsNumber) :
    sampleAdapter.nativeSearch docs tuned query topK = .ok (sampleHits docs query) := by
  rw [EmbedAdapter.nativeSearch, nativeAnswer_sample]
  rfl

/-- The document is stored before it is searched. -/
theorem transparent_of_unaffected_sample : sampleAdapter.Transparent
    (sampleAdapter.next ⟨[], [(js "doc", js "x")]⟩
      (.search false (js "x") (.ofNat 5) (.ofNat 0))) := by
  let system := (sampleAdapter.system []).restrict sampleAdapter.Unaffected
  have hstart : system.Reachable ⟨[], []⟩ := .of_init rfl
  have hstore : sampleAdapter.Unaffected ⟨[], []⟩ (.store (js "doc") (js "x")) :=
    fun _ _ _ _ hmem _ => absurd hmem List.not_mem_nil
  have hsearch : sampleAdapter.Unaffected ⟨[], [(js "doc", js "x")]⟩
      (.search false (js "x") (.ofNat 5) (.ofNat 0)) := trivial
  have hstored : system.Reachable
      (sampleAdapter.next ⟨[], []⟩ (.store (js "doc") (js "x"))) :=
    hstart.next ⟨hstore, rfl⟩
  have hsearched : system.Reachable
      (sampleAdapter.next ⟨[], [(js "doc", js "x")]⟩
        (.search false (js "x") (.ofNat 5) (.ofNat 0))) :=
    hstored.next ⟨hsearch, rfl⟩
  exact EmbedAdapter.transparent_of_unaffected sampleAdapter [] hsearched

/-- The only entry after a search of the empty index. -/
def sampleEntry (query : JsString) : CacheEntry :=
  { value := sampleHits [] query, expiresAt := (JsNumber.ofNat 0).add (.ofNat 15000) }

theorem search_sample (query : JsString) (topK : JsNumber) :
    sampleAdapter.next ⟨[], []⟩ (.search false query topK (.ofNat 0)) =
      ⟨[(cacheKey query topK false, sampleEntry query)], []⟩ := by
  have hmiss : (sampleAdapter.search false ⟨[], []⟩ query topK (.ofNat 0)).2 =
      ⟨setToCache [] (cacheKey query topK false) (sampleHits [] query) (.ofNat 15000) (.ofNat 0),
        []⟩ := by
    rw [EmbedAdapter.search, nativeAnswer_sample]
    rfl
  exact hmiss

theorem le_expiresAt_sample (query : JsString) :
    ((sampleEntry query).expiresAt).le (.ofNat 0) = false := by
  rw [sampleEntry, JsNumber.add_ofNat (by norm_num),
    JsNumber.le_ofNat (by norm_num) (by norm_num)]
  rfl

/-- A document stored after a search is missing from the next answer to it. -/
theorem stored_document_missed :
    ¬ ∀ s, (sampleAdapter.system []).Reachable s → sampleAdapter.Transparent s := by
  intro h
  have hstart : (sampleAdapter.system []).Reachable ⟨[], []⟩ := .of_init rfl
  have hsearched : (sampleAdapter.system []).Reachable
      (sampleAdapter.next ⟨[], []⟩ (.search false (js "x") (.ofNat 5) (.ofNat 0))) :=
    hstart.next rfl
  rw [search_sample] at hsearched
  have hstored : (sampleAdapter.system []).Reachable
      (sampleAdapter.next _ (.store (js "doc") (js "x"))) := hsearched.next rfl
  have hcached : List.lookup (cacheKey (js "x") (.ofNat 5) false)
      [(cacheKey (js "x") (.ofNat 5) false, sampleEntry (js "x"))] = some (sampleEntry (js "x")) :=
    List.lookup_cons_self
  refine EmbedAdapter.not_transparent_of_stale hcached (le_expiresAt_sample _) rfl ?_
    (h _ hstored)
  rw [nativeSearch_sample]
  intro hanswer
  have hhits := congrArg (fun answer : Except EnvelopeError Plain =>
    answer.toOption.bind fun data => property data "hits") hanswer
  cases hhits

end MemphisOS.Embedding
