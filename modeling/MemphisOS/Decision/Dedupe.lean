import MemphisOS.Ecma.Date
import MemphisOS.Ecma.Digests
import MemphisOS.Ecma.Documents
import MemphisOS.Ecma.StringMethods

/-!
# Creating decisions

`DecisionLifecycle.create` tells decisions apart by a key, their three texts joined by `::`, and
takes their hash from it. Joined texts need not tell the texts apart.
-/

namespace MemphisOS.Decision

open Ecma

/-! ## Decisions -/

structure DecisionInput where
  question : JsString
  choice : JsString
  reasoning : JsString
  tags : Option (List JsString)
  deriving DecidableEq

structure ChainRef where
  chain : JsString
  index : ℕ
  deriving DecidableEq

structure DecisionRecord extends DecisionInput where
  hash : Text
  timestamp : Text
  chainRef : ChainRef
  deriving DecidableEq

/-- `key`. -/
def DecisionInput.key (input : DecisionInput) : JsString :=
  input.question ++ js "::" ++ input.choice ++ js "::" ++ input.reasoning

/-- The same question, choice and reasoning. -/
def DecisionInput.SameTexts (a b : DecisionInput) : Prop :=
  a.question = b.question ∧ a.choice = b.choice ∧ a.reasoning = b.reasoning

/-! ## Validation -/

/-- A text that is missing or has nothing but white space. -/
def isBlank (s : JsString) : Bool := s.trim = []

/-- `/^[a-f0-9]{64}$/`. -/
def isSha256 (t : Text) : Bool :=
  t.length = 64 && t.all fun c => c.isDigit || ('a' ≤ c && c ≤ 'f')

/-- The errors of `DecisionValidator.validate`. A timestamp of `toISOString` is never invalid. -/
def validate (decision : DecisionRecord) : List Text :=
  (if isBlank decision.question then ["Question is required".toList] else []) ++
    (if isBlank decision.choice then ["Choice is required".toList] else []) ++
    (if isSha256 decision.hash then []
      else ["Invalid decision hash (expected SHA-256)".toList]) ++
    if decision.chainRef.chain = [] then ["Invalid chain reference".toList] else []

/-! ## Creation -/

inductive CreateError where
  /-- `Duplicate decision`. -/
  | duplicate
  /-- `Invalid decision: ` and the errors. -/
  | invalid (errors : List Text)
  deriving DecidableEq

section Creation

variable (sha256 : Text → Text)

/-- The decision of an input at a moment, after so many others. `update` hashes the UTF-8 encoding
of the key, in which surrogates without a partner are replaced. -/
def decisionOf (input : DecisionInput) (date : ℤ) (size : ℕ) : DecisionRecord where
  toDecisionInput := input
  hash := sha256 (wellFormed input.key)
  timestamp := isoText date
  chainRef := ⟨js "decisions", size⟩

/-- `create`, with the keys of the decisions accepted so far. -/
def create (seen : List JsString) (input : DecisionInput) (date : ℤ) :
    Except CreateError DecisionRecord :=
  if input.key ∈ seen then .error .duplicate
  else if validate (decisionOf sha256 input date seen.length) = [] then
    .ok (decisionOf sha256 input date seen.length)
  else .error (.invalid (validate (decisionOf sha256 input date seen.length)))

/-- What is created, and the moment. -/
structure CreateCall where
  input : DecisionInput
  date : ℤ

/-- The decisions accepted so far. -/
structure DecisionLifecycle where
  seen : List JsString
  accepted : List DecisionRecord

def DecisionLifecycle.next (self : DecisionLifecycle) (call : CreateCall) : DecisionLifecycle :=
  match create sha256 self.seen call.input call.date with
  | .ok decision => ⟨self.seen ++ [call.input.key], self.accepted ++ [decision]⟩
  | .error _ => self

/-- The decisions accepted of some calls. -/
def lifecycleAfter (calls : List CreateCall) : DecisionLifecycle :=
  calls.foldl (DecisionLifecycle.next sha256) ⟨[], []⟩

/-- Duplicates are rejected exactly, and accepted decisions get consecutive references and
different hashes. -/
structure DedupesExactly (calls : List CreateCall) : Prop where
  duplicate_iff : ∀ before call after, calls = before ++ call :: after →
    (create sha256 (lifecycleAfter sha256 before).seen call.input call.date = .error .duplicate ↔
      ∃ decision ∈ (lifecycleAfter sha256 before).accepted,
        decision.SameTexts call.input)
  references : (lifecycleAfter sha256 calls).accepted.map (fun decision => decision.chainRef) =
    (List.range (lifecycleAfter sha256 calls).accepted.length).map (⟨js "decisions", ·⟩)
  hashes : ((lifecycleAfter sha256 calls).accepted.map DecisionRecord.hash).Nodup

/-- An input that passes the validator. -/
def Valid (input : DecisionInput) : Prop := validate (decisionOf sha256 input 0 0) = []

/-- Keys tell the texts apart: a call with the key of an earlier valid one has its texts, and two
valid calls with the same UTF-8 encoding of the key have the same key. -/
def KeysSeparate (calls : List CreateCall) : Prop :=
  calls.Pairwise fun earlier call => Valid sha256 earlier.input →
    (earlier.input.key = call.input.key → earlier.input.SameTexts call.input) ∧
      (Valid sha256 call.input →
        wellFormed earlier.input.key = wellFormed call.input.key →
          earlier.input.key = call.input.key)

end Creation

variable {sha256 : Text → Text} {calls : List CreateCall} {call : CreateCall}
  {a b c input : DecisionInput}

theorem DecisionInput.SameTexts.symm (h : a.SameTexts b) : b.SameTexts a :=
  ⟨h.1.symm, h.2.1.symm, h.2.2.symm⟩

theorem DecisionInput.SameTexts.trans (h : a.SameTexts b) (h' : b.SameTexts c) : a.SameTexts c :=
  ⟨h.1.trans h'.1, h.2.1.trans h'.2.1, h.2.2.trans h'.2.2⟩

theorem DecisionInput.SameTexts.key_eq (h : a.SameTexts b) : a.key = b.key := by
  rw [DecisionInput.key, DecisionInput.key, h.1, h.2.1, h.2.2]

/-- The validator asks neither for the moment nor for the place. -/
theorem validate_decisionOf (input : DecisionInput) (date : ℤ) (size : ℕ) :
    validate (decisionOf sha256 input date size) = [] ↔ Valid sha256 input := Iff.rfl

/-- A call is a duplicate exactly if its key was seen. -/
theorem create_eq_duplicate {seen : List JsString} {date : ℤ} :
    create sha256 seen input date = .error .duplicate ↔ input.key ∈ seen := by
  rw [create]
  by_cases hseen : input.key ∈ seen
  · rw [if_pos hseen]
    exact iff_of_true rfl hseen
  · rw [if_neg hseen]
    refine iff_of_false ?_ hseen
    split
    · exact fun h => by cases h
    · exact fun h => by cases h

/-! ## Runs -/

/-- What a call adds: its decision, if its key is new and it is valid. -/
theorem next_cases (self : DecisionLifecycle) (call : CreateCall) :
    call.input.key ∉ self.seen ∧ Valid sha256 call.input ∧
        self.next sha256 call = ⟨self.seen ++ [call.input.key],
          self.accepted ++ [decisionOf sha256 call.input call.date self.seen.length]⟩ ∨
      (call.input.key ∈ self.seen ∨ ¬Valid sha256 call.input) ∧ self.next sha256 call = self := by
  rw [DecisionLifecycle.next, create]
  by_cases hseen : call.input.key ∈ self.seen
  · rw [if_pos hseen]
    exact .inr ⟨.inl hseen, rfl⟩
  · rw [if_neg hseen]
    by_cases hvalid : Valid sha256 call.input
    · rw [if_pos ((validate_decisionOf _ _ _).mpr hvalid)]
      exact .inl ⟨hseen, hvalid, rfl⟩
    · rw [if_neg fun h => hvalid ((validate_decisionOf _ _ _).mp h)]
      exact .inr ⟨.inr hvalid, rfl⟩

theorem lifecycleAfter_concat (calls : List CreateCall) (call : CreateCall) :
    lifecycleAfter sha256 (calls ++ [call]) = (lifecycleAfter sha256 calls).next sha256 call := by
  rw [lifecycleAfter, List.foldl_append]
  rfl

/-- What the accepted decisions are, and which calls they stand for. -/
structure Represents (sha256 : Text → Text) (calls : List CreateCall)
    (lifecycle : DecisionLifecycle) : Prop where
  seen : lifecycle.seen = lifecycle.accepted.map fun decision => decision.key
  seen_nodup : lifecycle.seen.Nodup
  references : lifecycle.accepted.map (fun decision => decision.chainRef) =
    (List.range lifecycle.accepted.length).map (⟨js "decisions", ·⟩)
  hash : ∀ decision ∈ lifecycle.accepted, decision.hash = sha256 (wellFormed decision.key)
  inputs : (lifecycle.accepted.map DecisionRecord.toDecisionInput).Sublist
    (calls.map CreateCall.input)
  valid : ∀ decision ∈ lifecycle.accepted, Valid sha256 decision.toDecisionInput
  covers : ∀ call ∈ calls, Valid sha256 call.input → call.input.key ∈ lifecycle.seen

theorem Represents.next {self : DecisionLifecycle} (h : Represents sha256 calls self)
    (call : CreateCall) : Represents sha256 (calls ++ [call]) (self.next sha256 call) := by
  obtain ⟨hnew, hvalid, hnext⟩ | ⟨hold, hnext⟩ := @next_cases sha256 self call
  · rw [hnext]
    have hlength : self.seen.length = self.accepted.length := by rw [h.seen, List.length_map]
    refine ⟨?_, ?_, ?_, ?_, ?_, ?_, ?_⟩
    · rw [List.map_append, ← h.seen]
      rfl
    · exact List.nodup_append.mpr ⟨h.seen_nodup, List.nodup_singleton _, by
        rintro k hk k' hk' rfl
        exact hnew (List.mem_singleton.mp hk' ▸ hk)⟩
    · rw [List.map_append, h.references, List.length_append, List.length_singleton,
        List.range_succ, List.map_append, List.map_singleton, List.map_singleton, decisionOf,
        hlength]
    · intro decision hmem
      rcases List.mem_append.mp hmem with hmem | hmem
      · exact h.hash decision hmem
      · rw [List.mem_singleton.mp hmem]
        rfl
    · rw [List.map_append, List.map_append]
      exact h.inputs.append (.refl _)
    · intro decision hmem
      rcases List.mem_append.mp hmem with hmem | hmem
      · exact h.valid decision hmem
      · rw [List.mem_singleton.mp hmem]
        exact hvalid
    · intro earlier hmem hearlier
      rcases List.mem_append.mp hmem with hmem | hmem
      · exact List.mem_append_left _ (h.covers earlier hmem hearlier)
      · rw [List.mem_singleton.mp hmem]
        exact List.mem_append_right _ List.mem_cons_self
  · rw [hnext]
    refine { h with inputs := ?_, covers := ?_ }
    · rw [List.map_append]
      exact h.inputs.trans (List.sublist_append_left _ _)
    · intro earlier hmem hearlier
      rcases List.mem_append.mp hmem with hmem | hmem
      · exact h.covers earlier hmem hearlier
      · obtain rfl := List.mem_singleton.mp hmem
        exact hold.resolve_right fun hnot => hnot hearlier

theorem represents (sha256 : Text → Text) (calls : List CreateCall) :
    Represents sha256 calls (lifecycleAfter sha256 calls) := by
  induction calls using List.reverseRecOn with
  | nil => exact ⟨rfl, .nil, rfl, by simp [lifecycleAfter], .refl _, by simp [lifecycleAfter],
      by simp⟩
  | append_singleton calls call ih =>
    rw [lifecycleAfter_concat]
    exact ih.next call

/-! ## Exact runs -/

/-- The decisions of fewer calls are some of the decisions. -/
theorem accepted_concat (calls : List CreateCall) (call : CreateCall) :
    (lifecycleAfter sha256 calls).accepted <+:
      (lifecycleAfter sha256 (calls ++ [call])).accepted := by
  rw [lifecycleAfter_concat]
  obtain ⟨-, -, hnext⟩ | ⟨-, hnext⟩ := @next_cases sha256 (lifecycleAfter sha256 calls) call
  · rw [hnext]
    exact List.prefix_append _ _
  · rw [hnext]

theorem accepted_append (before after : List CreateCall) :
    (lifecycleAfter sha256 before).accepted <+:
      (lifecycleAfter sha256 (before ++ after)).accepted := by
  induction after using List.reverseRecOn with
  | nil => rw [List.append_nil]
  | append_singleton after call ih =>
    rw [← List.append_assoc]
    exact ih.trans (accepted_concat _ _)

/-- Runs stay exact when the last call is left out. -/
theorem DedupesExactly.of_concat (h : DedupesExactly sha256 (calls ++ [call])) :
    DedupesExactly sha256 calls where
  duplicate_iff := by
    rintro before call' after rfl
    exact h.duplicate_iff before call' (after ++ [call]) (by simp)
  references := (represents sha256 calls).references
  hashes := h.hashes.sublist ((accepted_concat calls call).sublist.map _)

/-- In an exact run the texts of each valid call are those of an accepted decision. -/
theorem DedupesExactly.exists_accepted (h : DedupesExactly sha256 calls) (hmem : call ∈ calls)
    (hvalid : Valid sha256 call.input) :
    ∃ decision ∈ (lifecycleAfter sha256 calls).accepted, decision.SameTexts call.input := by
  obtain ⟨before, after, rfl⟩ := List.append_of_mem hmem
  have hsome : ∃ decision ∈ (lifecycleAfter sha256 (before ++ [call])).accepted,
      decision.SameTexts call.input := by
    rw [lifecycleAfter_concat]
    obtain ⟨-, -, hnext⟩ | ⟨hold, hnext⟩ := @next_cases sha256 (lifecycleAfter sha256 before) call
    · rw [hnext]
      exact ⟨_, List.mem_append_right _ List.mem_cons_self, rfl, rfl, rfl⟩
    · rw [hnext]
      have hseen := hold.resolve_right fun hnot => hnot hvalid
      exact (h.duplicate_iff before call after rfl).mp (create_eq_duplicate.mpr hseen)
  obtain ⟨decision, hdecision, htexts⟩ := hsome
  rw [List.append_cons]
  exact ⟨decision, (accepted_append _ after).subset hdecision, htexts⟩

/-- Accepted decisions have different keys. -/
theorem eq_of_key_eq {d d' : DecisionRecord} (hd : d ∈ (lifecycleAfter sha256 calls).accepted)
    (hd' : d' ∈ (lifecycleAfter sha256 calls).accepted) (h : d.key = d'.key) : d = d' := by
  have hnodup := (represents sha256 calls).seen_nodup
  rw [(represents sha256 calls).seen] at hnodup
  exact List.inj_on_of_nodup_map hnodup hd hd' h

theorem mem_seen_iff {key : JsString} : key ∈ (lifecycleAfter sha256 calls).seen ↔
    ∃ decision ∈ (lifecycleAfter sha256 calls).accepted, decision.key = key := by
  rw [(represents sha256 calls).seen, List.mem_map]

/-- The last call of an exact run is told apart from the earlier ones. -/
theorem DedupesExactly.separates (h : DedupesExactly sha256 (calls ++ [call]))
    {earlier : CreateCall} (hmem : earlier ∈ calls) (hvalid : Valid sha256 earlier.input) :
    (earlier.input.key = call.input.key → earlier.input.SameTexts call.input) ∧
      (Valid sha256 call.input → wellFormed earlier.input.key = wellFormed call.input.key →
        earlier.input.key = call.input.key) := by
  obtain ⟨decision, hdecision, htexts⟩ := h.of_concat.exists_accepted hmem hvalid
  constructor
  · intro hkey
    have hseen : call.input.key ∈ (lifecycleAfter sha256 calls).seen :=
      mem_seen_iff.mpr ⟨decision, hdecision, htexts.key_eq.trans hkey⟩
    obtain ⟨other, hother, hsame⟩ :=
      (h.duplicate_iff calls call [] rfl).mp (create_eq_duplicate.mpr hseen)
    obtain rfl := eq_of_key_eq hdecision hother
      ((htexts.key_eq.trans hkey).trans hsame.key_eq.symm)
    exact htexts.symm.trans hsame
  · intro hlast hencoded
    -- the decision with the key of the last call, accepted now or before
    have hcovered := (represents sha256 (calls ++ [call])).covers call
      (List.mem_append_right _ List.mem_cons_self) hlast
    obtain ⟨other, hother, hkey⟩ := mem_seen_iff.mp hcovered
    have hdecision' := (@accepted_concat sha256 calls call).subset hdecision
    have hhash : decision.hash = other.hash := by
      rw [(represents sha256 (calls ++ [call])).hash decision hdecision',
        (represents sha256 (calls ++ [call])).hash other hother, htexts.key_eq, hkey, hencoded]
    rw [← htexts.key_eq, ← hkey, List.inj_on_of_nodup_map h.hashes hdecision' hother hhash]

/-- A run whose calls are told apart rejects duplicates exactly. -/
theorem dedupesExactly_of_keysSeparate (hsha : Function.Injective sha256)
    (h : KeysSeparate sha256 calls) : DedupesExactly sha256 calls := by
  have hinputs {before : List CreateCall} {decision : DecisionRecord}
      (hdecision : decision ∈ (lifecycleAfter sha256 before).accepted) :
      ∃ earlier ∈ before, earlier.input = decision.toDecisionInput :=
    List.mem_map.mp ((represents sha256 before).inputs.subset (List.mem_map_of_mem hdecision))
  refine ⟨?_, (represents sha256 calls).references, ?_⟩
  · rintro before call after rfl
    rw [create_eq_duplicate, mem_seen_iff]
    constructor
    · rintro ⟨decision, hdecision, hkey⟩
      obtain ⟨earlier, hearlier, hinput⟩ := hinputs hdecision
      have hvalid := (represents sha256 before).valid decision hdecision
      have hpair := (List.pairwise_append.mp h).2.2 earlier hearlier call List.mem_cons_self
      rw [hinput] at hpair
      exact ⟨decision, hdecision, (hpair hvalid).1 hkey⟩
    · rintro ⟨decision, hdecision, htexts⟩
      exact ⟨decision, hdecision, htexts.key_eq⟩
  · have hpairs : ((lifecycleAfter sha256 calls).accepted.map
        DecisionRecord.toDecisionInput).Pairwise fun earlier call => Valid sha256 earlier →
          Valid sha256 call → wellFormed earlier.key = wellFormed call.key →
            earlier.key = call.key := by
      refine List.Pairwise.sublist (represents sha256 calls).inputs (List.pairwise_map.mpr ?_)
      exact h.imp fun hpair hvalid => (hpair hvalid).2
    have hkeys := (represents sha256 calls).seen_nodup
    rw [(represents sha256 calls).seen, List.Nodup, List.pairwise_map] at hkeys
    rw [List.Nodup, List.pairwise_map]
    refine (hkeys.and (List.pairwise_map.mp hpairs)).imp_of_mem ?_
    rintro d d' hd hd' ⟨hne, hpair⟩ hhash
    rw [(represents sha256 calls).hash d hd, (represents sha256 calls).hash d' hd'] at hhash
    exact hne (hpair ((represents sha256 calls).valid d hd)
      ((represents sha256 calls).valid d' hd') (hsha hhash))

/-- **Duplicates.** A run rejects duplicates exactly and gives different hashes if and only if the
keys of its calls tell their texts apart. -/
theorem dedupesExactly_iff (hsha : Function.Injective sha256) (calls : List CreateCall) :
    DedupesExactly sha256 calls ↔ KeysSeparate sha256 calls := by
  refine ⟨fun h => ?_, dedupesExactly_of_keysSeparate hsha⟩
  induction calls using List.reverseRecOn with
  | nil => exact .nil
  | append_singleton calls call ih =>
    refine List.pairwise_append.mpr ⟨ih h.of_concat, List.pairwise_singleton _ _, ?_⟩
    intro earlier hmem call' hcall' hvalid
    obtain rfl := List.mem_singleton.mp hcall'
    exact h.separates hmem hvalid

/-! ## Samples -/

/-- A table with the digests of two keys. -/
def sampleSha256 : Text → Text := tableHash
  [("use postgres?::yes::the data is relational".toList,
      "eadfdc74dd4984af563b9fcfd9a0f8fc872c36938bd14b95a6740789156da370".toList),
    ("a::b::c::both suppliers are late".toList,
      "7dfa1b2d8808ca92bf7d6c26a4b3168450e5a978a70f5673e703f5ee8ad1167d".toList)]

theorem sampleSha256_injective : Function.Injective sampleSha256 :=
  tableHash_injective (by decide) (by simp)

/-- A decision that is created twice. -/
def repeatedCalls : List CreateCall :=
  [⟨⟨js "use postgres?", js "yes", js "the data is relational", none⟩, 1000⟩,
    ⟨⟨js "use postgres?", js "yes", js "the data is relational", none⟩, 2000⟩]

theorem dedupesExactly_iff_sample : DedupesExactly sampleSha256 repeatedCalls :=
  (dedupesExactly_iff sampleSha256_injective repeatedCalls).mpr
    (List.pairwise_pair.mpr fun _ => ⟨fun _ => ⟨rfl, rfl, rfl⟩, fun _ _ => rfl⟩)

/-- Two decisions whose texts are joined to one key. -/
def joinedCall : CreateCall :=
  ⟨⟨js "a::b", js "c", js "both suppliers are late", none⟩, 1000⟩

def otherCall : CreateCall :=
  ⟨⟨js "a", js "b::c", js "both suppliers are late", none⟩, 2000⟩

theorem valid_joinedCall : Valid sampleSha256 joinedCall.input := by
  unfold Valid
  decide +kernel

/-- Another decision is rejected as a duplicate. -/
theorem joined_texts_rejected : ¬DedupesExactly sampleSha256 [joinedCall, otherCall] := by
  intro h
  have hkey : joinedCall.input.key = otherCall.input.key := by decide +kernel
  have hsame := (@DedupesExactly.separates sampleSha256 [joinedCall] otherCall h joinedCall
    List.mem_cons_self valid_joinedCall).1 hkey
  exact absurd (js_inj.mp hsame.1) (by decide)

end MemphisOS.Decision
