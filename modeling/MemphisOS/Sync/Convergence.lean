import MemphisOS.Sync.Resolver

/-!
# Convergence of replicas

Last-write-wins keeps the remote block when neither of two blocks was written last. The two
sides of a merge therefore agree unless such a tie is between different blocks, and they agree
in any case once each has pulled from the other, one after the other.
-/

namespace MemphisOS.Sync

open Ecma

/-- The same blocks, in any order. -/
def SameBlocks (a b : List Block) : Prop := ∀ block, block ∈ a ↔ block ∈ b

variable (host : SyncHost)

/-- Two replicas hold different blocks under one key, and neither was written last. -/
def Tied (localBlock remoteBlock : Block) : Prop :=
  blockKey host localBlock = blockKey host remoteBlock ∧ localBlock ≠ remoteBlock ∧
    (blockTimestamp host localBlock).strictEq (blockTimestamp host remoteBlock) = true

variable {host} {strategy : ConflictResolutionStrategy} {localBlocks remoteBlocks : List Block}
  {localBlock remoteBlock : Block}

theorem blockTimestamp_ne_nan (host : SyncHost) (block : Block) :
    blockTimestamp host block ≠ .nan := by
  intro hnan
  have hfinite := isFinite_blockTimestamp host block
  rw [hnan] at hfinite
  cases hfinite

/-! ## The winner -/

theorem winner_of_le
    (h : (blockTimestamp host localBlock).le (blockTimestamp host remoteBlock) = true) :
    winner host .lastWriteWins localBlock remoteBlock = remoteBlock := by
  rw [winner, if_pos h]

theorem winner_of_not_le
    (h : (blockTimestamp host localBlock).le (blockTimestamp host remoteBlock) ≠ true) :
    winner host .lastWriteWins localBlock remoteBlock = localBlock := by
  rw [winner, if_neg h]

/-- Both sides choose the same block unless they are tied. -/
theorem winner_comm (hkey : blockKey host localBlock = blockKey host remoteBlock) :
    winner host .lastWriteWins localBlock remoteBlock =
      winner host .lastWriteWins remoteBlock localBlock ↔ ¬Tied host localBlock remoteBlock := by
  have hlocal := blockTimestamp_ne_nan host localBlock
  have hremote := blockTimestamp_ne_nan host remoteBlock
  by_cases hle : (blockTimestamp host localBlock).le (blockTimestamp host remoteBlock) = true
  · by_cases hge : (blockTimestamp host remoteBlock).le (blockTimestamp host localBlock) = true
    · have htie : (blockTimestamp host localBlock).strictEq (blockTimestamp host remoteBlock) =
          true := by
        rw [JsNumber.le_iff] at hle hge
        exact JsNumber.strictEq_iff.mpr ⟨hlocal, hremote, le_antisymm hle.2.2 hge.2.2⟩
      rw [winner_of_le hle, winner_of_le hge, Tied]
      constructor
      · rintro rfl ⟨-, hne, -⟩
        exact hne rfl
      · intro hnot
        by_contra hne
        exact hnot ⟨hkey, Ne.symm hne, htie⟩
    · rw [winner_of_le hle, winner_of_not_le hge]
      refine iff_of_true rfl ?_
      rintro ⟨-, -, htie⟩
      rw [JsNumber.le_iff] at hge
      exact hge ⟨hremote, hlocal, (JsNumber.strictEq_iff.mp htie).2.2.ge⟩
  · have hge := (JsNumber.le_or_le hlocal hremote).resolve_left hle
    rw [winner_of_not_le hle, winner_of_le hge]
    refine iff_of_true rfl ?_
    rintro ⟨-, -, htie⟩
    rw [JsNumber.le_iff] at hle
    exact hle ⟨hlocal, hremote, (JsNumber.strictEq_iff.mp htie).2.2.le⟩

/-- The other side, given the winner, keeps it. -/
theorem winner_winner (localBlock remoteBlock : Block) :
    winner host .lastWriteWins remoteBlock (winner host .lastWriteWins localBlock remoteBlock) =
      winner host .lastWriteWins localBlock remoteBlock := by
  have hlocal := blockTimestamp_ne_nan host localBlock
  have hremote := blockTimestamp_ne_nan host remoteBlock
  by_cases hle : (blockTimestamp host localBlock).le (blockTimestamp host remoteBlock) = true
  · rw [winner_of_le hle]
    rcases winner_eq host .lastWriteWins remoteBlock remoteBlock with h | h
    · exact h
    · exact h
  · rw [winner_of_not_le hle,
      winner_of_le ((JsNumber.le_or_le hlocal hremote).resolve_left hle)]

/-! ## Replicas -/

/-- Replicas that hold the same under every key hold the same blocks. -/
theorem sameBlocks_of_held {a b : List Block} (ha : KeysDistinct host a) (hb : KeysDistinct host b)
    (h : ∀ key, held host a key = held host b key) : SameBlocks a b := by
  intro block
  have hiff := Iff.of_eq (congrArg (· = some block) (h (blockKey host block)))
  rw [held_eq_some ha, held_eq_some hb] at hiff
  simpa using hiff

/-- Both sides merge to the same blocks exactly when they are tied nowhere. -/
theorem sameBlocks_merge_iff (hlocal : KeysDistinct host localBlocks)
    (hremote : KeysDistinct host remoteBlocks) :
    SameBlocks (resolveChainConflicts host .lastWriteWins localBlocks remoteBlocks)
        (resolveChainConflicts host .lastWriteWins remoteBlocks localBlocks) ↔
      ∀ localBlock ∈ localBlocks, ∀ remoteBlock ∈ remoteBlocks,
        ¬Tied host localBlock remoteBlock := by
  constructor
  · intro hsame localBlock hl remoteBlock hr htied
    have hkey := htied.1
    have hheldl := (held_eq_some hlocal).mpr ⟨hl, hkey⟩
    have hheldr := (held_eq_some hremote).mpr ⟨hr, rfl⟩
    have hwinner : ∀ block, winner host .lastWriteWins localBlock remoteBlock = block →
        winner host .lastWriteWins remoteBlock localBlock = block := by
      rintro block rfl
      have hwkey : blockKey host (winner host .lastWriteWins localBlock remoteBlock) =
          blockKey host remoteBlock := by
        rcases winner_eq host .lastWriteWins localBlock remoteBlock with
          h | h <;> rw [h]
        exact hkey
      have hmem := (hsame (winner host .lastWriteWins localBlock remoteBlock)).mp (by
        rw [mem_resolveChainConflicts hlocal hremote, hwkey, hheldl, hheldr]
        rfl)
      rw [mem_resolveChainConflicts hremote hlocal, hwkey, hheldl, hheldr] at hmem
      exact Option.some.inj hmem
    exact (winner_comm hkey).mp (hwinner _ rfl).symm htied
  · intro hties
    refine sameBlocks_of_held (keysDistinct_resolveChainConflicts hlocal hremote)
      (keysDistinct_resolveChainConflicts hremote hlocal) fun key => ?_
    rw [held_resolveChainConflicts hlocal hremote, held_resolveChainConflicts hremote hlocal]
    cases hl : held host localBlocks key with
    | none => rw [Option.merge_none_left, Option.merge_none_right]
    | some localBlock =>
      cases hr : held host remoteBlocks key with
      | none => rw [Option.merge_none_left, Option.merge_none_right]
      | some remoteBlock =>
        have hlmem := (held_eq_some hlocal).mp hl
        have hrmem := (held_eq_some hremote).mp hr
        have hwinner := (winner_comm (hlmem.2.trans hrmem.2.symm)).mpr
          (hties _ hlmem.1 _ hrmem.1)
        rw [Option.merge_some_some, Option.merge_some_some, hwinner]

/-- After one side has pulled from the other, a pull back makes them agree. -/
theorem sameBlocks_pull_back (hlocal : KeysDistinct host localBlocks)
    (hremote : KeysDistinct host remoteBlocks) :
    SameBlocks (resolveChainConflicts host .lastWriteWins remoteBlocks
        (resolveChainConflicts host .lastWriteWins localBlocks remoteBlocks))
      (resolveChainConflicts host .lastWriteWins localBlocks remoteBlocks) := by
  have hmerged := @keysDistinct_resolveChainConflicts host .lastWriteWins _ _ hlocal hremote
  refine sameBlocks_of_held (keysDistinct_resolveChainConflicts hremote hmerged) hmerged
    fun key => ?_
  rw [held_resolveChainConflicts hremote hmerged, held_resolveChainConflicts hlocal hremote]
  cases held host localBlocks key with
  | none =>
    cases held host remoteBlocks key with
    | none => rfl
    | some remoteBlock =>
      rw [Option.merge_none_left, Option.merge_some_some]
      rcases winner_eq host .lastWriteWins remoteBlock remoteBlock with
        h | h <;> rw [h]
  | some localBlock =>
    cases held host remoteBlocks key with
    | none => rfl
    | some remoteBlock => rw [Option.merge_some_some, Option.merge_some_some, winner_winner]

/-- **Replicas converge.** Both sides merge to the same blocks exactly when they are tied
nowhere; and one pull after the other always makes them agree. -/
theorem replicas_converge (localBlocks remoteBlocks : List Block)
    (hlocal : KeysDistinct host localBlocks) (hremote : KeysDistinct host remoteBlocks) :
    (SameBlocks (resolveChainConflicts host .lastWriteWins localBlocks remoteBlocks)
        (resolveChainConflicts host .lastWriteWins remoteBlocks localBlocks) ↔
      ∀ localBlock ∈ localBlocks, ∀ remoteBlock ∈ remoteBlocks,
        ¬Tied host localBlock remoteBlock) ∧
    SameBlocks (resolveChainConflicts host .lastWriteWins remoteBlocks
        (resolveChainConflicts host .lastWriteWins localBlocks remoteBlocks))
      (resolveChainConflicts host .lastWriteWins localBlocks remoteBlocks) :=
  ⟨sameBlocks_merge_iff hlocal hremote, sameBlocks_pull_back hlocal hremote⟩

/-! ## A sample -/

/-- A block with an index, a content and no time. -/
def sampleBlock (index : ℕ) (content : String) : Block :=
  { index := some (.ofNat index), timestamp := none, hash := none, chain := none
    data := some (.obj [(js "content", .str (js content))]), prevHash := none }

/-- A host whose `Date.parse` knows no time. -/
def sampleHost : SyncHost := { dateParse := fun _ => .nan, localeCompare := fun _ _ => 0 }

theorem keysDistinct_singleton (block : Block) : KeysDistinct host [block] :=
  List.nodup_singleton _

/-- The blocks of one index and different content are tied. -/
theorem tied_sample :
    Tied sampleHost (sampleBlock 1 "local") (sampleBlock 1 "remote") := by
  refine ⟨rfl, fun heq => ?_, by decide +kernel⟩
  have hdata := congrArg Block.data heq
  simp only [sampleBlock, Option.some.injEq, Json.obj.injEq, List.cons.injEq, Prod.mk.injEq,
    true_and, and_true, Json.str.injEq] at hdata
  exact absurd hdata (by decide)

theorem replicas_converge_sample :
    SameBlocks (resolveChainConflicts sampleHost .lastWriteWins [sampleBlock 1 "remote"]
        (resolveChainConflicts sampleHost .lastWriteWins [sampleBlock 1 "local"]
          [sampleBlock 1 "remote"]))
      (resolveChainConflicts sampleHost .lastWriteWins [sampleBlock 1 "local"]
        [sampleBlock 1 "remote"]) :=
  (replicas_converge [sampleBlock 1 "local"] [sampleBlock 1 "remote"] (keysDistinct_singleton _)
    (keysDistinct_singleton _)).2

/-- Each side of a tie keeps the block of the other. -/
theorem tie_swaps_blocks :
    ¬SameBlocks
      (resolveChainConflicts sampleHost .lastWriteWins [sampleBlock 1 "local"]
        [sampleBlock 1 "remote"])
      (resolveChainConflicts sampleHost .lastWriteWins [sampleBlock 1 "remote"]
        [sampleBlock 1 "local"]) := by
  intro hsame
  exact (sameBlocks_merge_iff (keysDistinct_singleton _) (keysDistinct_singleton _)).mp hsame _
    (List.mem_singleton_self _) _ (List.mem_singleton_self _) tied_sample

end MemphisOS.Sync
