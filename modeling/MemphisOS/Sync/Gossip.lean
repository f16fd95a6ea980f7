import MemphisOS.Sync.MergeAgain
import MemphisOS.Sync.Registry
import MemphisOS.Systems.Gossip

/-!
# Replicas that pull from one another

Any number of replicas of one chain, each of which may pull from any other at any time. `pull`
merges the blocks of the answer with those that the replica holds when the answer arrives, and by
default the last write wins.
-/

namespace MemphisOS.Sync

open Ecma

variable {ι : Type} (host : SyncHost) (init : ι → List Block)

/-- A replica holds, under every key of the replicas it has heard of, a block that one of them had
at the start, and none of them had one that was written later. -/
structure Gathered (known : Finset ι) (blocks : List Block) : Prop where
  keysDistinct : KeysDistinct host blocks
  origin : ∀ block ∈ blocks, ∃ i ∈ known, block ∈ init i
  newest : ∀ i ∈ known, ∀ other ∈ init i, ∃ block ∈ blocks,
    blockKey host block = blockKey host other ∧
      (blockTimestamp host other).le (blockTimestamp host block) = true

variable {host init} {known known' : Finset ι} {a b c localBlocks remoteBlocks : List Block}
  {key : JsString} {localBlock remoteBlock block block' : Block}

/-! ## The time of a winner -/

theorem le_trans_blockTimestamp {x y z : JsNumber} (hxy : x.le y = true) (hyz : y.le z = true) :
    x.le z = true := by
  rw [JsNumber.le_iff] at hxy hyz ⊢
  exact ⟨hxy.1, hyz.2.1, hxy.2.2.trans hyz.2.2⟩

theorem le_refl_blockTimestamp (host : SyncHost) (block : Block) :
    (blockTimestamp host block).le (blockTimestamp host block) = true :=
  JsNumber.le_iff.mpr ⟨blockTimestamp_ne_nan host block, blockTimestamp_ne_nan host block, le_rfl⟩

/-- The winner was not written before either of the two. -/
theorem le_winner (host : SyncHost) (localBlock remoteBlock : Block) :
    (blockTimestamp host localBlock).le
        (blockTimestamp host (winner host .lastWriteWins localBlock remoteBlock)) = true ∧
      (blockTimestamp host remoteBlock).le
        (blockTimestamp host (winner host .lastWriteWins localBlock remoteBlock)) = true := by
  by_cases hle : (blockTimestamp host localBlock).le (blockTimestamp host remoteBlock) = true
  · rw [winner_of_le hle]
    exact ⟨hle, le_refl_blockTimestamp host remoteBlock⟩
  · rw [winner_of_not_le hle]
    exact ⟨le_refl_blockTimestamp host localBlock,
      (JsNumber.le_or_le (blockTimestamp_ne_nan host localBlock)
        (blockTimestamp_ne_nan host remoteBlock)).resolve_left hle⟩

/-- After a merge a key is held by a block that was not written before what either side held. -/
theorem exists_newer_resolve (hlocal : KeysDistinct host localBlocks)
    (hremote : KeysDistinct host remoteBlocks) (hblock : block ∈ localBlocks ++ remoteBlocks) :
    ∃ merged ∈ resolveChainConflicts host .lastWriteWins localBlocks remoteBlocks,
      blockKey host merged = blockKey host block ∧
        (blockTimestamp host block).le (blockTimestamp host merged) = true := by
  have hmerged := @keysDistinct_resolveChainConflicts host .lastWriteWins _ _ hlocal hremote
  have hheld := @held_resolveChainConflicts host .lastWriteWins _ _ hlocal hremote
    (blockKey host block)
  rcases List.mem_append.mp hblock with hmem | hmem
  · have hown := (held_eq_some hlocal).mpr ⟨hmem, rfl⟩
    rw [hown] at hheld
    cases hother : held host remoteBlocks (blockKey host block) with
    | none =>
      rw [hother, Option.merge_none_right] at hheld
      exact ⟨block, ((held_eq_some hmerged).mp hheld).1, rfl, le_refl_blockTimestamp host block⟩
    | some other =>
      rw [hother, Option.merge_some_some] at hheld
      obtain ⟨hin, hkey⟩ := (held_eq_some hmerged).mp hheld
      exact ⟨_, hin, hkey, (le_winner host block other).1⟩
  · have hown := (held_eq_some hremote).mpr ⟨hmem, rfl⟩
    rw [hown] at hheld
    cases hother : held host localBlocks (blockKey host block) with
    | none =>
      rw [hother, Option.merge_none_left] at hheld
      exact ⟨block, ((held_eq_some hmerged).mp hheld).1, rfl, le_refl_blockTimestamp host block⟩
    | some other =>
      rw [hother, Option.merge_some_some] at hheld
      obtain ⟨hin, hkey⟩ := (held_eq_some hmerged).mp hheld
      exact ⟨_, hin, hkey, (le_winner host other block).2⟩

/-! ## What is gathered -/

theorem Gathered.single (h : ∀ i, KeysDistinct host (init i)) (i : ι) :
    Gathered host init {i} (init i) where
  keysDistinct := h i
  origin := fun block hblock => ⟨i, Finset.mem_singleton_self i, hblock⟩
  newest := by
    intro j hj other hother
    rw [Finset.mem_singleton.mp hj] at hother
    exact ⟨other, hother, rfl, le_refl_blockTimestamp host other⟩

/-- Where no two blocks are tied at the start, what is gathered from the same replicas is the
same. -/
theorem Gathered.subset (ha : Gathered host init known a) (hb : Gathered host init known b)
    (hties : ∀ i j, ∀ x ∈ init i, ∀ y ∈ init j, ¬Tied host x y) (hblock : block ∈ a) :
    block ∈ b := by
  obtain ⟨i, hi, hin⟩ := ha.origin block hblock
  obtain ⟨other, hother, hkey, hle⟩ := hb.newest i hi block hin
  obtain ⟨j, hj, hin'⟩ := hb.origin other hother
  obtain ⟨back, hback, hkey', hge⟩ := ha.newest j hj other hin'
  -- the block of the same key on the first side is the one we started from
  obtain rfl : back = block := by
    have hheld := (held_eq_some ha.keysDistinct).mpr ⟨hback, hkey'.trans hkey⟩
    rw [(held_eq_some ha.keysDistinct).mpr ⟨hblock, rfl⟩] at hheld
    exact (Option.some.inj hheld).symm
  by_contra hnot
  refine hties i j back hin other hin' ⟨hkey', fun heq => hnot (heq ▸ hother), ?_⟩
  rw [JsNumber.le_iff] at hle hge
  exact JsNumber.strictEq_iff.mpr ⟨hle.1, hge.1, le_antisymm hle.2.2 hge.2.2⟩

/-- A replica that has heard of all others holds, under every key, the block written last. -/
theorem Gathered.mem_iff (h : Gathered host init known a) (hall : ∀ i, i ∈ known)
    (hties : ∀ i j, ∀ x ∈ init i, ∀ y ∈ init j, ¬Tied host x y) :
    block ∈ a ↔ ∃ j, block ∈ init j ∧ ∀ k, ∀ other ∈ init k,
      blockKey host other = blockKey host block →
        (blockTimestamp host other).le (blockTimestamp host block) = true := by
  constructor
  · intro hblock
    obtain ⟨j, -, hin⟩ := h.origin block hblock
    refine ⟨j, hin, fun k other hother hkey => ?_⟩
    obtain ⟨newer, hnewer, hkey', hle⟩ := h.newest k (hall k) other hother
    have hheld := (held_eq_some h.keysDistinct).mpr ⟨hnewer, hkey'.trans hkey⟩
    rw [(held_eq_some h.keysDistinct).mpr ⟨hblock, rfl⟩] at hheld
    rw [Option.some.inj hheld]
    exact hle
  · rintro ⟨j, hin, hlast⟩
    obtain ⟨newer, hnewer, hkey, hle⟩ := h.newest j (hall j) block hin
    obtain ⟨k, -, hin'⟩ := h.origin newer hnewer
    have hge := hlast k newer hin' hkey
    by_contra hnot
    refine hties j k block hin newer hin' ⟨hkey.symm, fun heq => hnot (heq ▸ hnewer), ?_⟩
    rw [JsNumber.le_iff] at hle hge
    exact JsNumber.strictEq_iff.mpr ⟨hle.1, hge.1, le_antisymm hle.2.2 hge.2.2⟩

variable [DecidableEq ι]

/-- A pull gathers what both sides have gathered. -/
theorem Gathered.merge (ha : Gathered host init known a) (hb : Gathered host init known' b) :
    Gathered host init (known ∪ known') (resolveChainConflicts host .lastWriteWins a b) where
  keysDistinct := keysDistinct_resolveChainConflicts ha.keysDistinct hb.keysDistinct
  origin := by
    intro block hblock
    rcases List.mem_append.mp (mem_of_mem_resolve ha.keysDistinct hb.keysDistinct hblock) with
      hmem | hmem
    · obtain ⟨i, hi, hin⟩ := ha.origin block hmem
      exact ⟨i, Finset.mem_union_left _ hi, hin⟩
    · obtain ⟨i, hi, hin⟩ := hb.origin block hmem
      exact ⟨i, Finset.mem_union_right _ hi, hin⟩
  newest := by
    intro i hi other hother
    have hsome : ∃ block ∈ a ++ b, blockKey host block = blockKey host other ∧
        (blockTimestamp host other).le (blockTimestamp host block) = true := by
      rcases Finset.mem_union.mp hi with hi | hi
      · obtain ⟨block, hblock, h⟩ := ha.newest i hi other hother
        exact ⟨block, List.mem_append_left _ hblock, h⟩
      · obtain ⟨block, hblock, h⟩ := hb.newest i hi other hother
        exact ⟨block, List.mem_append_right _ hblock, h⟩
    obtain ⟨block, hblock, hkey, hle⟩ := hsome
    obtain ⟨merged, hmerged, hkey', hle'⟩ :=
      exists_newer_resolve ha.keysDistinct hb.keysDistinct hblock
    exact ⟨merged, hmerged, hkey'.trans hkey, le_trans_blockTimestamp hle hle'⟩

/-- Agents with their commands, and the answers to the pulls of one chain. -/
structure Network (ι : Type) where
  agents : ι → SyncState
  answers : List (ι × List Block)

inductive NetworkStep (ι : Type) where
  /-- A command takes a step that is not the arrival of an answer. -/
  | command (i : ι) (label : SyncLabel)
  /-- An agent answers with the blocks of its chain. -/
  | answer (asker responder : ι)
  /-- An answer reaches a command that waits for one. -/
  | arrive (i : ι) (process number : ℕ) (updatedAt : JsString)

inductive Network.Step (host : SyncHost) (chain : JsString) :
    Network ι → NetworkStep ι → Network ι → Prop
  | command {net : Network ι} {i : ι} {label : SyncLabel} {t : SyncState} :
      Elsewhere chain (net.agents i) label → (net.agents i).next host label = some t →
      Step host chain net (.command i label)
        { net with agents := Function.update net.agents i t }
  | answer {net : Network ι} {asker responder : ι} :
      Step host chain net (.answer asker responder)
        { net with answers := net.answers ++ [(asker, (net.agents responder).chains chain)] }
  | arrive {net : Network ι} {i : ι} {process number : ℕ} {updatedAt : JsString}
      {agent : SyncAgent} {blocks : List Block} {t : SyncState} :
      (net.agents i).process process = .pulling agent chain .lastWriteWins →
      net.answers[number]? = some (i, blocks) →
      (net.agents i).next host (.pulled process (some blocks) updatedAt) = some t →
      Step host chain net (.arrive i process number updatedAt)
        { net with agents := Function.update net.agents i t }

/-- What a step is for the replicas of the chain. -/
def NetworkStep.gossip : NetworkStep ι → List (Gossip.Step ι)
  | .command _ _ => []
  | .answer asker responder => [.answer asker responder]
  | .arrive _ _ number _ => [.receive number]

/-- The replicas of the chain that the agents have. -/
structure Network.Refines (chain : JsString) (net : Network ι)
    (s : Gossip.State ι (List Block)) : Prop where
  value : ∀ i, (net.agents i).chains chain = s.value i
  answers : net.answers = s.answers

variable {chain : JsString} {agents : ι → SyncState} {net net' : Network ι}
  {steps : List (NetworkStep ι)} {step : NetworkStep ι}

/-- A step of the network is one of the replicas, or changes none of them. -/
theorem Network.Refines.next {s : Gossip.State ι (List Block)} (h : net.Refines chain s)
    (hstep : Network.Step host chain net step net') :
    net'.Refines chain
      (step.gossip.foldl (Gossip.State.next (resolveChainConflicts host .lastWriteWins)) s) := by
  cases hstep with
  | @command i label t helsewhere hnext =>
    refine ⟨fun k => ?_, h.answers⟩
    change (Function.update net.agents i t k).chains chain = s.value k
    rw [← h.value k]
    by_cases hk : k = i
    · rw [hk, Function.update_self]
      exact chains_next hnext helsewhere
    · rw [Function.update_of_ne hk]
  | @answer asker responder =>
    refine ⟨h.value, ?_⟩
    change net.answers ++ [(asker, (net.agents responder).chains chain)] =
      s.answers ++ [(asker, s.value responder)]
    rw [h.answers, h.value]
  | @arrive i process number updatedAt agent blocks t hprocess hanswer hnext =>
    rw [h.answers] at hanswer
    rw [NetworkStep.gossip, List.foldl_cons, List.foldl_nil, Gossip.State.next, hanswer]
    refine ⟨fun k => ?_, h.answers⟩
    change (Function.update net.agents i t k).chains chain = Function.update s.value i
      (resolveChainConflicts host .lastWriteWins (s.value i) blocks) k
    by_cases hk : k = i
    · rw [hk, Function.update_self, Function.update_self, ← h.value i]
      exact chains_pulled hprocess hnext
    · rw [Function.update_of_ne hk, Function.update_of_ne hk]
      exact h.value k

end MemphisOS.Sync
