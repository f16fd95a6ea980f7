import MemphisOS.Core.Replay

/-!
# The memory store

A chain that is only extended by `append_entry`, which fills in the index, the name and the hashes
of a block, and that is recalled from its newest block back.
-/

namespace MemphisCore

open Ecma

structure MemoryStore where
  chain : MemoryChain

/-- The arguments of `append_entry`. -/
structure Entry where
  blockType : BlockType
  content : Text
  tags : List Text
  timestamp : Text

namespace MemoryStore

def new (name : Text) : MemoryStore := ⟨.new name⟩

variable (crates : Crates) (self : MemoryStore)

/-- The block of an entry, before its hash is set. -/
def unhashed (entry : Entry) : Block where
  index := UInt64.ofNat self.chain.blocks.length
  timestamp := entry.timestamp
  chain := self.chain.name
  data := ⟨entry.blockType, entry.content, entry.tags⟩
  prevHash := (self.chain.blocks.getLast?.map Block.hash).getD zeroHash
  hash := []
  signer := none
  signature := none

def blockOf (entry : Entry) : Block :=
  { self.unhashed entry with hash := computeHash crates (self.unhashed entry) }

/-- The block that is appended, or the errors of the validator, and the store after the call. -/
def appendEntry (entry : Entry) : Except (List Text) Block × MemoryStore :=
  match self.chain.append crates (self.blockOf crates entry) with
  | .ok chain => (.ok (self.blockOf crates entry), { self with chain })
  | .error errors => (.error errors, self)

/-- The store after one call after another. -/
def after (entries : List Entry) : MemoryStore :=
  entries.foldl (fun store entry => (store.appendEntry crates entry).2) self

/-! ## Recalling -/

variable (toLowercase : Text → Text)

/-- The content contains the keyword, whatever the case of its letters. -/
def Mentions (keyword : Text) (block : Block) : Prop :=
  toLowercase keyword <:+: toLowercase block.data.content

/-- One of the tags is the tag, whatever the case of its letters. -/
def Tagged (tag : Text) (block : Block) : Prop :=
  ∃ t ∈ block.data.tags, toLowercase t = toLowercase tag

instance (keyword : Text) : DecidablePred (Mentions toLowercase keyword) := fun block =>
  inferInstanceAs (Decidable (toLowercase keyword <:+: toLowercase block.data.content))

instance (tag : Text) : DecidablePred (Tagged toLowercase tag) := fun block =>
  inferInstanceAs (Decidable (∃ t ∈ block.data.tags, toLowercase t = toLowercase tag))

/-- `iter().rev().filter(..).take(limit)`. -/
def recallBy (wanted : Block → Bool) (limit : ℕ) : List Block :=
  (self.chain.blocks.reverse.filter wanted).take limit

def recallByKeyword (keyword : Text) (limit : ℕ) : List Block :=
  self.recallBy (fun block => Mentions toLowercase keyword block) limit

def recallByTag (tag : Text) (limit : ℕ) : List Block :=
  self.recallBy (fun block => Tagged toLowercase tag block) limit

/-! ## What a call does -/

variable {crates self} {entry : Entry}

/-- The hash is computed of the fields that are already set. -/
theorem hash_blockOf : (self.blockOf crates entry).hash =
    computeHash crates (self.blockOf crates entry) :=
  computeHash_congr crates rfl rfl rfl rfl rfl

/-- A call is rejected without a change, or its block is pushed. -/
theorem appendEntry_cases (crates : Crates) (self : MemoryStore) (entry : Entry) :
    (∃ errors, validateBlock crates (self.blockOf crates entry) self.chain.blocks.getLast? =
        .error errors ∧ self.appendEntry crates entry = (.error errors, self)) ∨
      validateBlock crates (self.blockOf crates entry) self.chain.blocks.getLast? = .ok () ∧
        self.appendEntry crates entry = (.ok (self.blockOf crates entry),
          ⟨{ self.chain with blocks := self.chain.blocks ++ [self.blockOf crates entry] }⟩) := by
  cases hvalid :
      validateBlock crates (self.blockOf crates entry) self.chain.blocks.getLast? with
  | error errors =>
    have happend : self.chain.append crates (self.blockOf crates entry) = .error errors := by
      simp only [MemoryChain.append, hvalid]
      rfl
    exact .inl ⟨errors, rfl, by rw [appendEntry, happend]⟩
  | ok u =>
    have happend : self.chain.append crates (self.blockOf crates entry) =
        .ok { self.chain with blocks := self.chain.blocks ++ [self.blockOf crates entry] } := by
      simp only [MemoryChain.append, hvalid]
      rfl
    exact .inr ⟨rfl, by rw [appendEntry, happend]⟩

/-! ## Runs -/

variable (crates) in
/-- What holds after any calls. -/
structure Sound (name : Text) (store : MemoryStore) : Prop where
  name_eq : store.chain.name = name
  /-- Every block was valid after the ones before it. -/
  appended : Appended crates store.chain.blocks
  chain : ∀ block ∈ store.chain.blocks, block.chain = name
  index : ∀ i block, store.chain.blocks[i]? = some block → block.index = UInt64.ofNat i

theorem Sound.push {name : Text} (h : Sound crates name self)
    (hvalid : validateBlock crates (self.blockOf crates entry) self.chain.blocks.getLast? =
      .ok ()) :
    Sound crates name
      ⟨{ self.chain with blocks := self.chain.blocks ++ [self.blockOf crates entry] }⟩ := by
  refine ⟨h.name_eq, h.appended.concat hvalid, fun block hblock => ?_, fun i block hblock => ?_⟩
  · rcases List.mem_append.mp hblock with hblock | hblock
    · exact h.chain block hblock
    · rw [List.mem_singleton.mp hblock]
      exact h.name_eq
  · dsimp only at hblock
    rcases lt_or_ge i self.chain.blocks.length with hlt | hge
    · rw [List.getElem?_append_left hlt] at hblock
      exact h.index i block hblock
    · rw [List.getElem?_append_right hge] at hblock
      obtain ⟨hi, rfl⟩ := List.getElem?_eq_some_iff.mp hblock
      rw [List.length_singleton, Nat.lt_one_iff] at hi
      obtain rfl : i = self.chain.blocks.length := by omega
      rw [List.getElem_singleton]
      rfl

theorem Sound.appendEntry {name : Text} (h : Sound crates name self) (entry : Entry) :
    Sound crates name (self.appendEntry crates entry).2 := by
  rcases appendEntry_cases crates self entry with ⟨errors, -, heq⟩ | ⟨hvalid, heq⟩
  · rw [heq]
    exact h
  · rw [heq]
    exact h.push hvalid

theorem sound_new (name : Text) : Sound crates name (new name) := by
  refine ⟨rfl, .nil, fun block hblock => ?_, fun i block hblock => ?_⟩
  · cases hblock
  · cases hblock

theorem Sound.after {name : Text} (h : Sound crates name self) (entries : List Entry) :
    Sound crates name (self.after crates entries) := by
  induction entries generalizing self with
  | nil => exact h
  | cons entry entries ih => exact ih (h.appendEntry entry)

/-! ## What is accepted -/

/-- The rules on the name of a chain. -/
def NameAllowed (name : Text) : Prop :=
  trim name ≠ [] ∧ '\x00' ∉ name ∧ ¬ ['.', '.'] <:+: name ∧ '/' ∉ name ∧ '\\' ∉ name

variable (crates) in
/-- The name is allowed, the content is not blank, and the timestamp is not before the last. -/
def Accepts (store : MemoryStore) (entry : Entry) : Prop :=
  NameAllowed store.chain.name ∧ trim entry.content ≠ [] ∧
    ∃ later, crates.parseFromRfc3339 entry.timestamp = some later ∧
      ∀ last ∈ store.chain.blocks.getLast?, ∀ earlier ∈ crates.parseFromRfc3339 last.timestamp,
        earlier ≤ later

theorem fieldErrors_blockOf : fieldErrors crates (self.blockOf crates entry) = [] ↔
    NameAllowed self.chain.name ∧ trim entry.content ≠ [] ∧
      crates.parseFromRfc3339 entry.timestamp ≠ none := by
  simp only [fieldErrors, List.append_eq_nil_iff, errorIf_eq_nil, not_not, not_or,
    hash_blockOf.symm, NameAllowed]
  tauto

/-- A sequence of valid blocks has timestamps that can be parsed. -/
theorem exists_timestamp {blocks : List Block} {block : Block} (h : Appended crates blocks)
    (hblock : block ∈ blocks) : ∃ ts, crates.parseFromRfc3339 block.timestamp = some ts := by
  induction h with
  | nil => cases hblock
  | concat h hvalid ih =>
    rcases List.mem_append.mp hblock with hblock | hblock
    · exact ih hblock
    · obtain ⟨⟨hfields, -⟩, -⟩ := validateBlock_eq_ok.mp hvalid
      simp only [fieldErrors, List.append_eq_nil_iff, errorIf_eq_nil] at hfields
      rw [List.mem_singleton.mp hblock]
      exact Option.ne_none_iff_exists'.mp hfields.1.2

/-- The index and the previous hash are those the validator asks for. -/
theorem linkErrors_blockOf {name : Text} (h : Sound crates name self) {later : ℤ}
    (hlater : crates.parseFromRfc3339 entry.timestamp = some later) :
    linkErrors crates (self.blockOf crates entry) self.chain.blocks.getLast? = [] ↔
      ∀ last ∈ self.chain.blocks.getLast?, ∀ earlier ∈ crates.parseFromRfc3339 last.timestamp,
        earlier ≤ later := by
  rcases List.eq_nil_or_concat' self.chain.blocks with hblocks | ⟨init, last, hblocks⟩
  · have hgenesis : linkErrors crates (self.blockOf crates entry) none = [] := by
      simp only [linkErrors, List.append_eq_nil_iff, errorIf_eq_nil, blockOf, unhashed, hblocks]
      exact ⟨fun hindex => hindex.1 rfl, fun hprev => hprev rfl⟩
    rw [hblocks, List.getLast?_nil]
    exact ⟨fun _ last hlast => (by cases hlast), fun _ => hgenesis⟩
  · have hlast : self.chain.blocks.getLast? = some last := by
      rw [hblocks, List.getLast?_concat]
    have hindex : last.index = UInt64.ofNat init.length := by
      refine h.index init.length last ?_
      rw [hblocks, List.getElem?_concat_length]
    have hnext : (self.blockOf crates entry).index = last.index + 1 := by
      rw [hindex, blockOf, unhashed, hblocks, List.length_append, List.length_singleton,
        UInt64.ofNat_add]
      rfl
    have hprev : (self.blockOf crates entry).prevHash = last.hash := by
      rw [blockOf, unhashed, hlast]
      rfl
    obtain ⟨earlier, hearlier⟩ :=
      exists_timestamp h.appended (List.mem_of_getLast? hlast)
    have htimestamp : crates.parseFromRfc3339 (self.blockOf crates entry).timestamp =
        some later := hlater
    rw [hlast, linkErrors, hnext, hprev, hearlier, htimestamp]
    simp only [List.append_eq_nil_iff, errorIf_eq_nil, not_true_eq_false, ne_eq, not_false_eq_true,
      true_and, not_lt, Option.mem_def, Option.some.injEq, forall_eq', hearlier]

/-- A call is accepted exactly when the name, the content and the timestamp are. -/
theorem appendEntry_accepts {name : Text} (h : Sound crates name self) (entry : Entry) :
    (∃ block, (self.appendEntry crates entry).1 = .ok block) ↔ Accepts crates self entry := by
  have hsigned : verifyBlockSignature crates (self.blockOf crates entry) = .ok false := rfl
  have hvalid : validateBlock crates (self.blockOf crates entry) self.chain.blocks.getLast? =
      .ok () ↔ Accepts crates self entry := by
    rw [validateBlock_eq_ok, OtherRulesHold, fieldErrors_blockOf, Accepts]
    constructor
    · rintro ⟨⟨⟨hname, hcontent, hparsed⟩, hlink⟩, -⟩
      obtain ⟨later, hlater⟩ := Option.ne_none_iff_exists'.mp hparsed
      exact ⟨hname, hcontent, later, hlater, (linkErrors_blockOf h hlater).mp hlink⟩
    · rintro ⟨hname, hcontent, later, hlater, horder⟩
      exact ⟨⟨⟨hname, hcontent, by simp [hlater]⟩, (linkErrors_blockOf h hlater).mpr horder⟩,
        false, hsigned⟩
  rw [← hvalid]
  rcases appendEntry_cases crates self entry with ⟨errors, hfails, heq⟩ | ⟨hok, heq⟩
  · rw [heq, hfails]
    constructor
    · rintro ⟨_, hblock⟩
      cases hblock
    · intro hok
      cases hok
  · rw [heq, hok]
    exact ⟨fun _ => rfl, fun _ => ⟨_, rfl⟩⟩

/-! ## What is recalled -/

variable {toLowercase}

/-- The blocks that match, newest first, cut at the limit. -/
theorem recallBy_eq (self : MemoryStore) (wanted : Block → Bool) (limit : ℕ) :
    self.recallBy wanted limit = (self.chain.blocks.filter wanted).reverse.take limit := by
  rw [recallBy, List.filter_reverse]

/-- Blocks at later positions have higher indices, as long as a position is a `u64`. -/
theorem Sound.sorted {name : Text} (h : Sound crates name self)
    (hcount : self.chain.blocks.length ≤ 2 ^ 64) :
    self.chain.blocks.Pairwise fun a b => a.index < b.index := by
  refine List.pairwise_iff_getElem.mpr fun i j hi hj hij => ?_
  rw [h.index i _ (List.getElem?_eq_getElem hi), h.index j _ (List.getElem?_eq_getElem hj),
    UInt64.lt_iff_toNat_lt, UInt64.toNat_ofNat', UInt64.toNat_ofNat',
    Nat.mod_eq_of_lt (by omega), Nat.mod_eq_of_lt (by omega)]
  exact hij

/-- The newest blocks that match, newest first. -/
structure Recalled (wanted : Block → Prop) [DecidablePred wanted] (limit : ℕ)
    (blocks recalled : List Block) : Prop where
  eq : recalled = (blocks.filter wanted).reverse.take limit
  length : recalled.length = min limit (blocks.countP wanted)
  /-- A block that matches is recalled, or `limit` newer ones are. -/
  newest : blocks.length ≤ 2 ^ 64 → recalled.Pairwise (fun a b => b.index < a.index) ∧
    ∀ block ∈ blocks, wanted block → block ∈ recalled ∨
      recalled.length = limit ∧ ∀ newer ∈ recalled, block.index < newer.index

theorem Sound.recalled {name : Text} (h : Sound crates name self) (wanted : Block → Prop)
    [DecidablePred wanted] (limit : ℕ) :
    Recalled wanted limit self.chain.blocks
      (self.recallBy (fun block => wanted block) limit) := by
  have heq := self.recallBy_eq (fun block => wanted block) limit
  refine ⟨heq, ?_, fun hcount => ?_⟩
  · rw [heq, List.length_take, List.length_reverse, List.countP_eq_length_filter]
  have hsorted : (self.chain.blocks.filter fun block => wanted block).reverse.Pairwise
      fun a b => b.index < a.index :=
    List.pairwise_reverse.mpr ((h.sorted hcount).filter _)
  rw [heq]
  refine ⟨hsorted.sublist (List.take_sublist _ _), fun block hblock hwanted => ?_⟩
  set matching := (self.chain.blocks.filter fun block => wanted block).reverse
  have hmem : block ∈ matching :=
    List.mem_reverse.mpr (List.mem_filter.mpr ⟨hblock, decide_eq_true hwanted⟩)
  rw [← List.take_append_drop limit matching] at hmem hsorted
  rcases List.mem_append.mp hmem with hmem | hmem
  · exact .inl hmem
  · refine .inr ⟨?_, fun newer hnewer => ?_⟩
    · have hpos := List.length_pos_of_mem hmem
      rw [List.length_drop] at hpos
      rw [List.length_take, Nat.min_eq_left (by omega)]
    · exact (List.pairwise_append.mp hsorted).2.2 newer hnewer block hmem

/-- **The memory store.** After any calls the chain is valid, every block has its position as its
index and the name of the store as its chain, a rejected call changes nothing, and the newest
blocks that match are recalled. -/
theorem store_sound (crates : Crates) (toLowercase : Text → Text) (name : Text)
    (entries : List Entry) :
    let store := (new name).after crates entries
    ValidChain crates store.chain.blocks ∧ Appended crates store.chain.blocks ∧
      store.chain.name = name ∧
      (∀ i block, store.chain.blocks[i]? = some block →
        block.chain = name ∧ block.index = UInt64.ofNat i ∧
          (i < 2 ^ 64 → block.index.toNat = i)) ∧
      (∀ entry, (∃ block, (store.appendEntry crates entry).1 = .ok block) ↔
        Accepts crates store entry) ∧
      (∀ entry block, (store.appendEntry crates entry).1 = .ok block →
        block.data = ⟨entry.blockType, entry.content, entry.tags⟩ ∧
          block.timestamp = entry.timestamp ∧
          (store.appendEntry crates entry).2.chain.blocks = store.chain.blocks ++ [block]) ∧
      (∀ entry errors, (store.appendEntry crates entry).1 = .error errors →
        (store.appendEntry crates entry).2 = store) ∧
      (∀ keyword limit, Recalled (Mentions toLowercase keyword) limit store.chain.blocks
        (store.recallByKeyword toLowercase keyword limit)) ∧
      ∀ tag limit, Recalled (Tagged toLowercase tag) limit store.chain.blocks
        (store.recallByTag toLowercase tag limit) := by
  intro store
  have h : Sound crates name store := (sound_new name).after entries
  refine ⟨h.appended.validChain, h.appended, h.name_eq, fun i block hblock => ?_,
    appendEntry_accepts h, fun entry block hok => ?_, fun entry errors hfails => ?_,
    fun keyword limit => h.recalled _ limit, fun tag limit => h.recalled _ limit⟩
  · have hindex := h.index i block hblock
    refine ⟨h.chain block (List.mem_of_getElem? hblock), hindex, fun hi => ?_⟩
    rw [hindex, UInt64.toNat_ofNat', Nat.mod_eq_of_lt hi]
  · rcases appendEntry_cases crates store entry with ⟨errors, -, heq⟩ | ⟨-, heq⟩
    · rw [heq] at hok
      cases hok
    · rw [heq] at hok ⊢
      obtain rfl := Except.ok.inj hok
      exact ⟨rfl, rfl, rfl⟩
  · rcases appendEntry_cases crates store entry with ⟨_, -, heq⟩ | ⟨-, heq⟩
    · rw [heq]
    · rw [heq] at hfails
      cases hfails

/-- A store to which one entry is appended; the second is blank. -/
def sampleStore : MemoryStore :=
  (new "journal".toList).after sampleCrates
    [⟨.journal, "ok".toList, [], "2026-03-08T21:00:00Z".toList⟩,
      ⟨.journal, " ".toList, [], "2026-03-08T21:00:00Z".toList⟩]

theorem store_sound_sample : sampleStore.chain.blocks.length = 1 ∧
    ValidChain sampleCrates sampleStore.chain.blocks ∧
    ∀ block, sampleStore.chain.blocks[0]? = some block → block.index.toNat = 0 := by
  have hsound := store_sound sampleCrates id "journal".toList
    [⟨.journal, "ok".toList, [], "2026-03-08T21:00:00Z".toList⟩,
      ⟨.journal, " ".toList, [], "2026-03-08T21:00:00Z".toList⟩]
  refine ⟨by decide, hsound.1, fun block hblock => ?_⟩
  obtain ⟨-, -, hindex⟩ := hsound.2.2.2.1 0 block hblock
  exact hindex (by decide)

end MemoryStore

end MemphisCore
