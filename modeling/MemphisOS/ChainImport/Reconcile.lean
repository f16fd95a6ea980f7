import MemphisOS.ChainImport.Normalize
import MemphisOS.Ecma.NumberOrder
import MemphisOS.Sequences.Parts
import Mathlib.Data.List.TakeWhile

/-!
# Importing a chain

The first pass keeps the first candidate with each hash, the second one rewrites indices and links.
A block whose index is infinite is skipped there, and the block after it looks for the hash of a
predecessor that is not there.
-/

namespace MemphisOS.ChainImport

open Ecma Sequences

inductive PayloadShape where
  | array
  | objectBlocks
  | legacyChain
  deriving DecidableEq

structure ImportJsonResult where
  imported : ℕ
  valid : Bool
  skipped : ℤ
  shape : PayloadShape
  totalCandidates : ℕ
  normalized : ℕ
  reconciled : ℕ
  indexRewritten : ℕ
  prevHashRewritten : ℕ
  duplicatesSkipped : ℕ
  errors : List JsString
  issues : List ImportIssue
  blocks : List Block

def shapeError : JsString :=
  js "import_json expects JSON array or object with blocks/chain arrays"

def resolvePayloadShape (payload : Plain) : Except JsString (PayloadShape × List Plain) :=
  match payload with
  | .arr blocks => .ok (.array, blocks)
  | .obj root =>
    match root.lookup (js "blocks"), root.lookup (js "chain") with
    | some (.arr blocks), _ => .ok (.objectBlocks, blocks)
    | _, some (.arr blocks) => .ok (.legacyChain, blocks)
    | _, _ => .error shapeError
  | _ => .error shapeError

/-- `hash:${hash}`. -/
def hashRef (hash : JsString) : JsString := js "hash:" ++ hash

/-! ## The first pass -/

structure Normalized where
  issues : List ImportIssue
  deduped : List Block
  seenHash : List JsString

def normalizeStep (state : Normalized) (candidate : Plain × ℕ) : Normalized :=
  match normalizeCandidate candidate.1 candidate.2 with
  | .error issue => { state with issues := state.issues ++ [issue] }
  | .ok block =>
    if block.hash ∈ state.seenHash then
      { state with issues := state.issues ++
          [⟨hashRef block.hash, .duplicateHash, some (js "duplicate dropped")⟩] }
    else
      { state with
        deduped := state.deduped ++ [block]
        seenHash := state.seenHash ++ [block.hash] }

def normalizeAll (candidates : List Plain) : Normalized :=
  candidates.zipIdx.foldl normalizeStep ⟨[], [], []⟩

/-! ## The second pass -/

structure Reconciled where
  issues : List ImportIssue
  blocks : List Block
  indexRewritten : ℕ
  prevHashRewritten : ℕ

/-- A block at its position. The hash before it is a string, since normalised blocks have one. -/
def reconcileBlock (i : ℕ) (expectedPrevHash : JsString) (state : Reconciled) (source : Block) :
    Reconciled :=
  let moved := !source.index.strictEq (.ofNat i)
  let relinked := decide (source.prevHash ≠ expectedPrevHash)
  let reason := if i = 0 && source.prevHash = [] then .missingGenesisPrevHash else .prevHashMismatch
  { issues := state.issues ++
      if relinked then [⟨hashRef source.hash, reason, none⟩] else []
    blocks := state.blocks ++ [{ source with
      index := if moved then .ofNat i else source.index
      prevHash := expectedPrevHash }]
    indexRewritten := state.indexRewritten + moved.toNat
    prevHashRewritten := state.prevHashRewritten + relinked.toNat }

/-- The loop from position `i` on. Reading the hash of a block that is not there throws. -/
def reconcileFrom (i : ℕ) (state : Reconciled) : List Block → Except JsString Reconciled
  | [] => .ok state
  | source :: rest =>
    let previous := if i = 0 then some genesisPrevHash else (state.blocks[i - 1]?).map (·.hash)
    match previous with
    | none => .error (js "Cannot read properties of undefined (reading 'hash')")
    | some expectedPrevHash =>
      if source.index.isFinite then
        reconcileFrom (i + 1) (reconcileBlock i expectedPrevHash state source) rest
      else
        reconcileFrom (i + 1)
          { state with issues := state.issues ++ [⟨hashRef source.hash, .invalidIndex, none⟩] } rest

def ImportIssue.errorText (issue : ImportIssue) : JsString :=
  let detail := match issue.detail with
    | some (u :: detail) => js " (" ++ u :: detail ++ js ")"
    | _ => []
  issue.blockRef ++ js ": " ++ js issue.reason.text ++ detail

/-- The object that is returned. -/
def importResult (shape : PayloadShape) (candidates : List Plain) (deduped : List Block)
    (state : Reconciled) : ImportJsonResult :=
  { imported := state.blocks.length
    valid := state.issues.all fun issue => issue.reason = .duplicateHash
    skipped := (candidates.length : ℤ) - state.blocks.length
    shape
    totalCandidates := candidates.length
    normalized := candidates.length
    reconciled := deduped.length
    indexRewritten := state.indexRewritten
    prevHashRewritten := state.prevHashRewritten
    duplicatesSkipped := state.issues.countP fun issue => issue.reason = .duplicateHash
    errors := state.issues.map ImportIssue.errorText
    issues := state.issues
    blocks := state.blocks }

@[simp] theorem blocks_importResult (shape : PayloadShape) (candidates : List Plain)
    (deduped : List Block) (state : Reconciled) :
    (importResult shape candidates deduped state).blocks = state.blocks := rfl

def runImportJsonPayload (payload : Plain) : Except JsString ImportJsonResult := do
  let (shape, candidates) ← resolvePayloadShape payload
  let normalized := normalizeAll candidates
  let reconciled ← reconcileFrom 0 ⟨normalized.issues, [], 0, 0⟩ normalized.deduped
  .ok (importResult shape candidates normalized.deduped reconciled)

/-! ## What the passes keep -/

/-- The blocks of the candidates that have a hash. -/
def candidateBlocks (candidates : List (Plain × ℕ)) : List Block :=
  candidates.filterMap fun candidate => (normalizeCandidate candidate.1 candidate.2).toOption

variable {candidates : List (Plain × ℕ)} {state : Normalized}

theorem candidateBlocks_ok {candidate : Plain × ℕ} {block : Block}
    (h : normalizeCandidate candidate.1 candidate.2 = .ok block) :
    candidateBlocks (candidate :: candidates) = block :: candidateBlocks candidates := by
  rw [candidateBlocks, List.filterMap_cons, h]
  rfl

theorem candidateBlocks_error {candidate : Plain × ℕ} {issue : ImportIssue}
    (h : normalizeCandidate candidate.1 candidate.2 = .error issue) :
    candidateBlocks (candidate :: candidates) = candidateBlocks candidates := by
  rw [candidateBlocks, List.filterMap_cons, h]
  rfl

/-- The first pass keeps the first block with each hash. -/
theorem deduped_foldl (candidates : List (Plain × ℕ)) (state : Normalized) :
    (candidates.foldl normalizeStep state).deduped = state.deduped ++
      firsts (·.hash) state.seenHash (candidateBlocks candidates) := by
  induction candidates generalizing state with
  | nil => exact (List.append_nil _).symm
  | cons candidate rest ih =>
    rw [List.foldl_cons, ih, normalizeStep]
    cases hblock : normalizeCandidate candidate.1 candidate.2 with
    | error issue => rw [candidateBlocks_error hblock]
    | ok block =>
      dsimp only
      rw [candidateBlocks_ok hblock, firsts]
      split
      · rfl
      · rw [List.append_assoc, List.singleton_append]

/-- The first pass raises no issue about normalised blocks with different hashes. -/
theorem issues_foldl (hok : ∀ candidate ∈ candidates,
      ∃ block, normalizeCandidate candidate.1 candidate.2 = .ok block)
    (hnodup : ((candidateBlocks candidates).map (·.hash)).Nodup)
    (hunseen : ∀ block ∈ candidateBlocks candidates, block.hash ∉ state.seenHash) :
    (candidates.foldl normalizeStep state).issues = state.issues := by
  induction candidates generalizing state with
  | nil => rfl
  | cons candidate rest ih =>
    obtain ⟨block, hblock⟩ := hok candidate List.mem_cons_self
    rw [candidateBlocks_ok hblock] at hnodup hunseen
    rw [List.map_cons, List.nodup_cons] at hnodup
    have hstep : normalizeStep state candidate = { state with
        deduped := state.deduped ++ [block], seenHash := state.seenHash ++ [block.hash] } := by
      rw [normalizeStep, hblock]
      exact if_neg (hunseen block List.mem_cons_self)
    rw [List.foldl_cons, hstep, ih (fun c hc => hok c (List.mem_cons_of_mem _ hc)) hnodup.2]
    intro other hother hmem
    rcases List.mem_append.mp hmem with hmem | hmem
    · exact hunseen other (List.mem_cons_of_mem _ hother) hmem
    · exact hnodup.1 (List.mem_singleton.mp hmem ▸ List.mem_map_of_mem hother)

/-! ## The blocks of the second pass -/

/-- Some blocks, numbered from `i` on and linked to the hash before them. -/
def relink (i : ℕ) (prevHash : JsString) : List Block → List Block
  | [] => []
  | source :: rest =>
    { source with
      index := if source.index.strictEq (.ofNat i) then source.index else .ofNat i
      prevHash } :: relink (i + 1) source.hash rest

/-- The hash the loop reads before position `i`. -/
def previousHash (i : ℕ) (blocks : List Block) : Option JsString :=
  if i = 0 then some genesisPrevHash else (blocks[i - 1]?).map (·.hash)

/-- When every block has been kept, the loop goes on with the hash of the last. -/
theorem previousHash_snoc (blocks : List Block) (block : Block) :
    previousHash (blocks.length + 1) (blocks ++ [block]) = some block.hash := by
  rw [previousHash, if_neg (Nat.succ_ne_zero _), Nat.add_sub_cancel, List.getElem?_concat_length,
    Option.map_some]

/-- Once a block has been skipped, no hash is there. -/
theorem previousHash_skipped (blocks : List Block) : previousHash (blocks.length + 1) blocks = none := by
  rw [previousHash, if_neg (Nat.succ_ne_zero _), Nat.add_sub_cancel,
    List.getElem?_eq_none le_rfl, Option.map_none]

/-- The second pass over blocks with finite indices keeps all of them, and raises no issue about
blocks that are linked already. -/
theorem reconcileFrom_finite {blocks rest : List Block} {s : Reconciled} {prevHash : JsString}
    (hfinite : ∀ block ∈ blocks, block.index.isFinite = true)
    (hprevious : previousHash s.blocks.length s.blocks = some prevHash) :
    ∃ s', reconcileFrom s.blocks.length s (blocks ++ rest) =
        reconcileFrom s'.blocks.length s' rest ∧
      s'.blocks = s.blocks ++ relink s.blocks.length prevHash blocks ∧
      (previousHash s'.blocks.length s'.blocks).isSome ∧
      (relink s.blocks.length prevHash blocks = blocks → s'.issues = s.issues) := by
  induction blocks generalizing s prevHash with
  | nil => exact ⟨s, rfl, (List.append_nil _).symm, by rw [hprevious]; rfl, fun _ => rfl⟩
  | cons source blocks ih =>
    have hsource := hfinite source List.mem_cons_self
    have hblocks : (reconcileBlock s.blocks.length prevHash s source).blocks =
        s.blocks ++ relink s.blocks.length prevHash [source] := by
      rw [reconcileBlock, relink, relink]
      cases source.index.strictEq (.ofNat s.blocks.length) <;> rfl
    have hlength : (reconcileBlock s.blocks.length prevHash s source).blocks.length =
        s.blocks.length + 1 := by
      rw [hblocks, List.length_append]
      rfl
    have hnext : previousHash (reconcileBlock s.blocks.length prevHash s source).blocks.length
        (reconcileBlock s.blocks.length prevHash s source).blocks = some source.hash := by
      rw [hlength, hblocks]
      exact previousHash_snoc s.blocks _
    obtain ⟨s', hrun, hs', hsome, hissues⟩ :=
      ih (fun b hb => hfinite b (List.mem_cons_of_mem _ hb)) hnext
    refine ⟨s', ?_, ?_, hsome, fun hlinked => ?_⟩
    · rw [← hrun, hlength, List.cons_append, reconcileFrom, ← previousHash, hprevious]
      exact if_pos hsource
    · rw [hs', hlength, hblocks, List.append_assoc]
      rfl
    · rw [relink] at hlinked
      obtain ⟨hhead, htail⟩ := List.cons.inj hlinked
      have hprev : source.prevHash = prevHash := (congrArg Block.prevHash hhead).symm
      rw [hissues (by rw [hlength]; exact htail), reconcileBlock, hprev]
      simp

/-- Among some blocks, only the last has an infinite index. -/
def OversizedLast (blocks : List Block) : Prop :=
  ∀ before block later, blocks = before ++ block :: later → block.index.isFinite = false →
    later = []

/-- After a block with an infinite index, the pass ends or throws. -/
theorem reconcileFrom_infinite {bad : Block} {rest : List Block} {s : Reconciled}
    (hbad : bad.index.isFinite = false)
    (hprevious : (previousHash s.blocks.length s.blocks).isSome) :
    (rest = [] ∧ reconcileFrom s.blocks.length s (bad :: rest) =
        .ok { s with issues := s.issues ++ [⟨hashRef bad.hash, .invalidIndex, none⟩] }) ∨
      rest ≠ [] ∧ ∃ error, reconcileFrom s.blocks.length s (bad :: rest) = .error error := by
  obtain ⟨prevHash, hprev⟩ := Option.isSome_iff_exists.mp hprevious
  have hstep : reconcileFrom s.blocks.length s (bad :: rest) =
      reconcileFrom (s.blocks.length + 1)
        { s with issues := s.issues ++ [⟨hashRef bad.hash, .invalidIndex, none⟩] } rest := by
    rw [reconcileFrom, ← previousHash, hprev]
    exact if_neg (by rw [hbad]; exact Bool.false_ne_true)
  rw [hstep]
  cases rest with
  | nil => exact .inl ⟨rfl, rfl⟩
  | cons next later =>
    refine .inr ⟨List.cons_ne_nil _ _, js "Cannot read properties of undefined (reading 'hash')", ?_⟩
    rw [reconcileFrom, ← previousHash, previousHash_skipped]

/-- **The second pass returns unless a block with an infinite index is followed by another**, with
the blocks before it. -/
theorem reconcileFrom_cases (issues : List ImportIssue) (blocks : List Block) :
    (∃ s, reconcileFrom 0 ⟨issues, [], 0, 0⟩ blocks = .ok s ∧
        s.blocks = relink 0 genesisPrevHash (blocks.takeWhile fun block => block.index.isFinite) ∧
        (relink 0 genesisPrevHash blocks = blocks →
          (∀ block ∈ blocks, block.index.isFinite = true) → s.issues = issues) ∧
        OversizedLast blocks) ∨
      (∃ error, reconcileFrom 0 ⟨issues, [], 0, 0⟩ blocks = .error error) ∧
        ¬ OversizedLast blocks := by
  have hsplit := @List.takeWhile_append_dropWhile _ (fun block : Block => block.index.isFinite) blocks
  have hfinite : ∀ block ∈ blocks.takeWhile fun block => block.index.isFinite,
      block.index.isFinite = true := List.all_eq_true.mp List.all_takeWhile
  have hbad : ∀ bad ∈ (blocks.dropWhile fun block => block.index.isFinite).head?,
      bad.index.isFinite = false := by
    intro bad hmem
    have hnot := List.head?_dropWhile_not (fun block : Block => block.index.isFinite) blocks
    rw [Option.mem_def.mp hmem] at hnot
    exact hnot
  obtain ⟨s, hrun, hs, hsome, hissues⟩ := @reconcileFrom_finite
    (blocks.takeWhile fun block => block.index.isFinite)
    (blocks.dropWhile fun block => block.index.isFinite) ⟨issues, [], 0, 0⟩ genesisPrevHash hfinite
    rfl
  rw [hsplit] at hrun
  generalize blocks.takeWhile (fun block => block.index.isFinite) = kept at *
  cases hdrop : blocks.dropWhile fun block => block.index.isFinite with
  | nil =>
    rw [hdrop, List.append_nil] at hsplit
    subst hsplit
    rw [hdrop] at hrun
    refine .inl ⟨s, hrun, hs, fun hlinked _ => hissues hlinked, fun before block later heq h => ?_⟩
    exact absurd (hfinite block (by rw [heq]; simp)) (by rw [h]; exact Bool.false_ne_true)
  | cons bad rest =>
    rw [hdrop] at hsplit hbad hrun
    have hinfinite := hbad bad rfl
    rcases @reconcileFrom_infinite bad rest s hinfinite hsome with ⟨rfl, hok⟩ | ⟨hne, error, herror⟩
    · refine .inl ⟨_, hrun.trans hok, hs, fun _ hall => ?_, fun before block later heq h => ?_⟩
      · have hmem : bad ∈ blocks := by
          rw [← hsplit]
          exact List.mem_append_right _ List.mem_cons_self
        exact absurd (hall bad hmem) (by rw [hinfinite]; exact Bool.false_ne_true)
      · by_contra hlater
        have hmem : block ∈ kept := by
          have hlast := congrArg List.dropLast (hsplit.trans heq)
          rw [List.dropLast_concat, List.dropLast_append_of_ne_nil (List.cons_ne_nil _ _),
            List.dropLast_cons_of_ne_nil hlater] at hlast
          rw [hlast]
          exact List.mem_append_right _ List.mem_cons_self
        exact absurd (hfinite block hmem) (by rw [h]; exact Bool.false_ne_true)
    · exact .inr ⟨⟨error, hrun.trans herror⟩, fun hlast => hne (hlast kept bad rest hsplit.symm
        hinfinite)⟩

/-! ## Relinked blocks -/

variable {i : ℕ} {prevHash : JsString} {blocks : List Block}

theorem hash_relink (i : ℕ) (prevHash : JsString) (blocks : List Block) :
    (relink i prevHash blocks).map (·.hash) = blocks.map (·.hash) := by
  induction blocks generalizing i prevHash with
  | nil => rfl
  | cons source rest ih => rw [relink, List.map_cons, List.map_cons, ih]

/-- A relinked block is at its position. -/
theorem strictEq_relinked (source : Block) (i : ℕ) :
    (if source.index.strictEq (.ofNat i) then source.index else .ofNat i).strictEq (.ofNat i) =
      true := by
  split
  · assumption
  · rw [JsNumber.strictEq_iff]
    exact ⟨JsNumber.ofRat_ne_nan i false, JsNumber.ofRat_ne_nan i false, rfl⟩

/-- Relinking again changes nothing. -/
theorem relink_relink (i : ℕ) (prevHash : JsString) (blocks : List Block) :
    relink i prevHash (relink i prevHash blocks) = relink i prevHash blocks := by
  induction blocks generalizing i prevHash with
  | nil => rfl
  | cons source rest ih =>
    rw [relink, relink, ih]
    dsimp only
    rw [if_pos (strictEq_relinked source i)]

/-- Relinked blocks stay normal, and their indices are finite. -/
theorem normal_relink (hnormal : ∀ block ∈ blocks, block.Normal)
    (hfinite : ∀ block ∈ blocks, block.index.isFinite = true) (hprev : prevHash ≠ [])
    (hlength : i + blocks.length < 2 ^ 53) :
    ∀ block ∈ relink i prevHash blocks, block.Normal ∧ block.index.isFinite = true := by
  induction blocks generalizing i prevHash with
  | nil => exact List.forall_mem_nil _
  | cons source rest ih =>
    have hsource := hnormal source List.mem_cons_self
    rw [List.length_cons] at hlength
    rw [relink, List.forall_mem_cons]
    refine ⟨⟨{ hsource with prevHash := hprev }, ?_⟩,
      ih (fun b hb => hnormal b (List.mem_cons_of_mem _ hb))
        (fun b hb => hfinite b (List.mem_cons_of_mem _ hb)) hsource.hash (by omega)⟩
    dsimp only
    split
    · exact hfinite source List.mem_cons_self
    · exact JsNumber.isFinite_ofNat (by omega)

/-- Relinked blocks are numbered by their position. -/
theorem index_relink (i : ℕ) (prevHash : JsString) (blocks : List Block) {n : ℕ} {block : Block}
    (h : (relink i prevHash blocks)[n]? = some block) :
    block.index.strictEq (.ofNat (i + n)) = true := by
  induction blocks generalizing i prevHash n with
  | nil => cases h
  | cons source rest ih =>
    rw [relink] at h
    cases n with
    | zero =>
      rw [List.getElem?_cons_zero] at h
      obtain rfl := Option.some.inj h
      exact strictEq_relinked source i
    | succ n =>
      rw [List.getElem?_cons_succ] at h
      have hindex := ih _ _ h
      rwa [Nat.add_assoc, Nat.add_comm 1 n] at hindex

/-- Relinked blocks name the hash of the block before them. -/
theorem prevHash_relink (i : ℕ) (prevHash : JsString) (blocks : List Block) {n : ℕ} {block : Block}
    (h : (relink i prevHash blocks)[n]? = some block) :
    some block.prevHash =
      if n = 0 then some prevHash else ((relink i prevHash blocks)[n - 1]?).map (·.hash) := by
  induction blocks generalizing i prevHash n with
  | nil => cases h
  | cons source rest ih =>
    rw [relink] at h ⊢
    cases n with
    | zero =>
      rw [List.getElem?_cons_zero] at h
      obtain rfl := Option.some.inj h
      rfl
    | succ n =>
      rw [List.getElem?_cons_succ] at h
      rw [ih _ _ h, if_neg (Nat.succ_ne_zero n), Nat.add_sub_cancel]
      cases n with
      | zero => rfl
      | succ n => rfl

/-! ## What an import restores -/

/-- A payload of an accepted shape, and its candidates; an array has less than `2 ^ 32` items. -/
def Accepted (payload : Plain) (candidates : List Plain) : Prop :=
  (∃ shape, resolvePayloadShape payload = .ok (shape, candidates)) ∧ candidates.length < 2 ^ 32

def candidateHash (raw : Plain) : Option JsString :=
  (asRecord raw).bind fun obj => pickString obj ["hash", "block_hash"]

/-- The blocks of a result are a chain over a selection of the candidates, and importing them again
changes nothing. -/
structure ImportJsonResult.Restored (result : ImportJsonResult) (candidates : List Plain) :
    Prop where
  index : ∀ (i : ℕ) (block : Block), result.blocks[i]? = some block →
    block.index.strictEq (.ofNat i) = true
  linked : ∀ (i : ℕ) (block : Block), result.blocks[i]? = some block → some block.prevHash =
    if i = 0 then some genesisPrevHash else (result.blocks[i - 1]?).map (·.hash)
  distinct : (result.blocks.map (·.hash)).Nodup
  selected : (result.blocks.map (·.hash)).Sublist (candidates.filterMap candidateHash)
  counted : result.imported = result.blocks.length ∧
    (result.imported : ℤ) + result.skipped = candidates.length
  again : ∃ again, runImportJsonPayload (.arr (result.blocks.map Block.value)) = .ok again ∧
    again.blocks = result.blocks ∧ again.issues = []

/-- The blocks of the candidates with a hash, without those whose hash has occurred before. -/
def freshBlocks (candidates : List Plain) : List Block :=
  firsts (·.hash) [] (candidateBlocks candidates.zipIdx)

/-- An import is the second pass over the fresh blocks. -/
theorem runImportJsonPayload_eq {payload : Plain} {shape : PayloadShape} {candidates : List Plain}
    (hshape : resolvePayloadShape payload = .ok (shape, candidates)) :
    runImportJsonPayload payload =
      (reconcileFrom 0 ⟨(normalizeAll candidates).issues, [], 0, 0⟩ (freshBlocks candidates)).map
        (importResult shape candidates (freshBlocks candidates)) := by
  have hdeduped : (normalizeAll candidates).deduped = freshBlocks candidates :=
    deduped_foldl candidates.zipIdx ⟨[], [], []⟩
  rw [runImportJsonPayload, hshape, ← hdeduped]
  dsimp only [Bind.bind, Except.bind]
  cases reconcileFrom 0 ⟨(normalizeAll candidates).issues, [], 0, 0⟩
    (normalizeAll candidates).deduped <;> rfl

theorem normal_of_mem_freshBlocks {candidates : List Plain} {block : Block}
    (h : block ∈ freshBlocks candidates) : block.Normal := by
  obtain ⟨candidate, -, hblock⟩ := List.mem_filterMap.mp ((firsts_sublist _ _ _).subset h)
  cases hnormalize : normalizeCandidate candidate.1 candidate.2 with
  | error issue =>
    rw [hnormalize] at hblock
    cases hblock
  | ok other =>
    rw [hnormalize] at hblock
    obtain rfl := Option.some.inj hblock
    exact normal_of_normalizeCandidate hnormalize

/-- A candidate is normalised exactly when it has a hash, which the block keeps. -/
theorem map_hash_normalizeCandidate (raw : Plain) (indexHint : ℕ) :
    (normalizeCandidate raw indexHint).toOption.map (·.hash) = candidateHash raw := by
  unfold normalizeCandidate candidateHash
  cases asRecord raw with
  | none => rfl
  | some obj =>
    dsimp only
    rw [Option.bind_some]
    cases pickString obj ["hash", "block_hash"] with
    | none => rfl
    | some hash => rfl

theorem hashes_candidateBlocks (candidates : List Plain) (k : ℕ) :
    (candidateBlocks (candidates.zipIdx k)).map (·.hash) = candidates.filterMap candidateHash := by
  induction candidates generalizing k with
  | nil => rfl
  | cons raw rest ih =>
    have hhash := map_hash_normalizeCandidate raw k
    rw [List.zipIdx_cons, List.filterMap_cons, ← hhash]
    cases hblock : normalizeCandidate raw k with
    | error issue =>
      rw [candidateBlocks_error hblock, ih]
      rfl
    | ok block =>
      rw [candidateBlocks_ok hblock, List.map_cons, ih]
      rfl

/-- Blocks that are normalised to themselves are their own candidates. -/
theorem candidateBlocks_value {blocks : List Block} (k : ℕ)
    (h : ∀ block ∈ blocks, block.Normal ∧ block.index.isFinite = true) :
    candidateBlocks ((blocks.map Block.value).zipIdx k) = blocks := by
  induction blocks generalizing k with
  | nil => rfl
  | cons block rest ih =>
    have hblock := h block List.mem_cons_self
    rw [List.map_cons, List.zipIdx_cons,
      candidateBlocks_ok (normalizeCandidate_value hblock.1 hblock.2 k),
      ih _ fun b hb => h b (List.mem_cons_of_mem _ hb)]

/-- Importing a restored chain again returns its blocks and raises no issue. -/
theorem import_again {blocks : List Block}
    (hnormal : ∀ block ∈ blocks, block.Normal ∧ block.index.isFinite = true)
    (hnodup : (blocks.map (·.hash)).Nodup)
    (hlinked : relink 0 genesisPrevHash blocks = blocks) :
    ∃ again, runImportJsonPayload (.arr (blocks.map Block.value)) = .ok again ∧
      again.blocks = blocks ∧ again.issues = [] := by
  have hfinite : ∀ block ∈ blocks, block.index.isFinite = true := fun b hb => (hnormal b hb).2
  have hblocks := candidateBlocks_value 0 hnormal
  have hdeduped : (normalizeAll (blocks.map Block.value)).deduped = blocks := by
    rw [normalizeAll, deduped_foldl, hblocks]
    exact firsts_eq_self hnodup fun _ _ => List.not_mem_nil
  have hissues : (normalizeAll (blocks.map Block.value)).issues = [] := by
    rw [normalizeAll, issues_foldl ?_ (by rw [hblocks]; exact hnodup) fun _ _ => List.not_mem_nil]
    intro candidate hmem
    obtain ⟨block, hblock, hvalue⟩ := List.mem_map.mp (List.fst_mem_of_mem_zipIdx hmem)
    rw [← hvalue]
    exact ⟨block, normalizeCandidate_value (hnormal block hblock).1 (hnormal block hblock).2 _⟩
  have hkept : (blocks.takeWhile fun block => block.index.isFinite) = blocks :=
    List.takeWhile_eq_self_iff.mpr hfinite
  rcases reconcileFrom_cases [] blocks with ⟨s, hrun, hs, hs', -⟩ | ⟨-, hnot⟩
  · rw [runImportJsonPayload, resolvePayloadShape]
    dsimp only [Bind.bind, Except.bind]
    rw [hdeduped, hissues, hrun]
    exact ⟨_, rfl, by rw [blocks_importResult, hs, hkept, hlinked], hs' hlinked hfinite⟩
  · refine absurd (fun before block later heq h => ?_) hnot
    exact absurd (hfinite block (by rw [heq]; simp)) (by rw [h]; exact Bool.false_ne_true)

/-- **An import restores the chain exactly when, of the candidates that are first with their hash,
only the last has an infinite index.** -/
theorem restored_iff {payload : Plain} {candidates : List Plain} (h : Accepted payload candidates) :
    (∃ result, runImportJsonPayload payload = .ok result ∧ result.Restored candidates) ↔
      OversizedLast (freshBlocks candidates) := by
  obtain ⟨⟨shape, hshape⟩, hlength⟩ := h
  have hrun := runImportJsonPayload_eq hshape
  have hsublist := @firsts_sublist _ _ _ (fun block : Block => block.hash) []
    (candidateBlocks candidates.zipIdx)
  have hhashes := hashes_candidateBlocks candidates 0
  rcases reconcileFrom_cases (normalizeAll candidates).issues (freshBlocks candidates) with
    ⟨s, hok, hs, -, hlast⟩ | ⟨⟨error, herror⟩, hnot⟩
  · refine iff_of_true ?_ hlast
    rw [hrun, hok]
    refine ⟨_, rfl, ?_⟩
    have hpre := List.takeWhile_prefix (fun block : Block => block.index.isFinite)
      (l := freshBlocks candidates)
    generalize hkept : (freshBlocks candidates).takeWhile (fun block => block.index.isFinite) = kept
      at hs hpre
    have hfinite : ∀ block ∈ kept, block.index.isFinite = true := by
      rw [← hkept]
      exact List.all_eq_true.mp List.all_takeWhile
    have hnodup : (kept.map (·.hash)).Nodup :=
      (hpre.sublist.map _).nodup (keys_firsts _ _ _).1
    have hcount : kept.length ≤ candidates.length := by
      have hfiltered := List.length_filterMap_le candidateHash candidates
      rw [← hhashes, List.length_map] at hfiltered
      exact hpre.length_le.trans (hsublist.length_le.trans hfiltered)
    have hnormal := @normal_relink 0 genesisPrevHash kept
      (fun block hb => normal_of_mem_freshBlocks (hpre.subset hb)) hfinite genesisPrevHash_ne_nil
      (by omega)
    constructor
    · intro i block hblock
      rw [blocks_importResult, hs] at hblock
      have hindex := index_relink 0 genesisPrevHash kept hblock
      rwa [Nat.zero_add] at hindex
    · intro i block hblock
      rw [blocks_importResult, hs] at hblock ⊢
      exact prevHash_relink 0 genesisPrevHash kept hblock
    · rw [blocks_importResult, hs, hash_relink]
      exact hnodup
    · rw [blocks_importResult, hs, hash_relink, ← hhashes]
      exact (hpre.sublist.trans hsublist).map _
    · exact ⟨rfl, add_sub_cancel _ _⟩
    · rw [blocks_importResult, hs]
      exact import_again hnormal (by rw [hash_relink]; exact hnodup) (relink_relink _ _ _)
  · refine iff_of_false ?_ hnot
    rintro ⟨result, hresult, -⟩
    rw [hrun, herror] at hresult
    cases hresult

/-- Candidates that are left unchanged. -/
theorem restored_iff_sample :
    Accepted (.arr [.obj [(js "hash", .str (js "h0"))]]) [.obj [(js "hash", .str (js "h0"))]] ∧
      ∃ result, runImportJsonPayload (.arr [.obj [(js "hash", .str (js "h0"))]]) = .ok result ∧
        result.Restored [.obj [(js "hash", .str (js "h0"))]] := by
  have haccepted : Accepted (.arr [.obj [(js "hash", .str (js "h0"))]])
      [.obj [(js "hash", .str (js "h0"))]] := ⟨⟨.array, rfl⟩, by decide⟩
  refine ⟨haccepted, (restored_iff haccepted).mpr fun before block later heq _ => ?_⟩
  have hlength : (freshBlocks [.obj [(js "hash", .str (js "h0"))]]).length = 1 := rfl
  rw [heq, List.length_append, List.length_cons] at hlength
  exact List.eq_nil_of_length_eq_zero (by omega)

/-! ## An oversized index -/

theorem map_charOfUnit_digits (n : ℕ) : (ofText (digits n)).map charOfUnit = digits n := by
  have hdigits : ∀ c ∈ digits n, c.isDigit = true := fun _ => digits_isDigit
  generalize digits n = ds at hdigits
  induction ds with
  | nil => rfl
  | cons c ds ih =>
    have hc := hdigits c List.mem_cons_self
    rw [Char.isDigit, Bool.and_eq_true, decide_eq_true_eq, decide_eq_true_eq] at hc
    have hlt : c.toNat < 0x80 := lt_of_le_of_lt hc.2 (by decide)
    have hunit : unitsOfChar c = [UInt16.ofNat c.toNat] := if_pos (by omega)
    rw [ofText_cons, hunit, List.map_append, ih fun c hmem => hdigits c (List.mem_cons_of_mem _ hmem)]
    have hchar : charOfUnit (UInt16.ofNat c.toNat) = c := by
      rw [charOfUnit, UInt16.toNat_ofNat', Nat.mod_eq_of_lt (by omega)]
      exact Char.ofNat_toNat c
    rw [List.map_singleton, hchar, List.singleton_append]

/-- A string of digits from `2 ^ 1024` on stands for an infinite number. -/
theorem numberValue_oversized {n : ℕ} (h : 2 ^ 1024 ≤ n) :
    ∃ index, numberValue (some (.str (ofText (digits n)))) = some index ∧
      index.isFinite = false := by
  have hdigits : isDigits (ofText (digits n)) = true := by
    rw [isDigits, map_charOfUnit_digits, Bool.and_eq_true, List.all_eq_true]
    refine ⟨decide_eq_true fun hnil => ?_, fun _ => digits_isDigit⟩
    have hvalue := digitsValue_digits n
    rw [← map_charOfUnit_digits, hnil] at hvalue
    exact absurd hvalue ((Nat.pow_pos (by decide)).trans_le h).ne
  have hround : roundToDouble (n : ℚ) = none := roundToDouble_eq_none (by exact_mod_cast h)
  rw [numberValue, if_pos hdigits, map_charOfUnit_digits, digitsValue_digits]
  refine ⟨_, rfl, ?_⟩
  rw [JsNumber.ofRat]
  split
  · rfl
  · next hsome =>
    have hcontra := hround.symm.trans hsome
    cases hcontra

def oversized : ℕ := 2 ^ 1024

theorem oversized_ge : 2 ^ 1024 ≤ oversized := le_rfl

/-- A block with an index of 309 digits before another block. -/
def oversizedCandidates : List Plain :=
  [.obj [(js "index", .str (ofText (digits oversized))), (js "hash", .str (js "h0"))],
    .obj [(js "hash", .str (js "h1"))]]

/-- The payload is accepted and the import throws. -/
theorem oversized_index_throws :
    Accepted (.arr oversizedCandidates) oversizedCandidates ∧
      ∃ error, runImportJsonPayload (.arr oversizedCandidates) = .error error := by
  obtain ⟨index, hvalue, hinfinite⟩ := numberValue_oversized oversized_ge
  have hnumber : pickNumber [(js "index", .str (ofText (digits oversized))),
      (js "hash", .str (js "h0"))] ["index", "idx", "height"] = some index := by
    rw [pickNumber, List.findSome?_cons, lookup_js_cons, if_pos rfl, hvalue]
  have hblock : normalizeCandidate (.obj [(js "index", .str (ofText (digits oversized))),
      (js "hash", .str (js "h0"))]) 0 =
      .ok ⟨index, genesisPrevHash, js "h0", none, none, none⟩ := by
    have hhash : pickString [(js "index", .str (ofText (digits oversized))),
        (js "hash", .str (js "h0"))] ["hash", "block_hash"] = some (js "h0") := rfl
    unfold normalizeCandidate
    rw [asRecord]
    dsimp only
    rw [hhash]
    dsimp only
    rw [hnumber]
    rfl
  have hfresh : freshBlocks oversizedCandidates =
      [⟨index, genesisPrevHash, js "h0", none, none, none⟩,
        ⟨.ofNat 1, genesisPrevHash, js "h1", none, none, none⟩] := by
    rw [freshBlocks, oversizedCandidates, List.zipIdx_cons, candidateBlocks_ok hblock]
    rfl
  refine ⟨⟨⟨.array, rfl⟩, Nat.lt_of_lt_of_le (Nat.lt_succ_self 2) (by norm_num)⟩, ?_⟩
  rcases reconcileFrom_cases (normalizeAll oversizedCandidates).issues
    (freshBlocks oversizedCandidates) with ⟨-, -, -, -, hlast⟩ | ⟨⟨error, herror⟩, -⟩
  · exact absurd (hlast [] _ _ hfresh hinfinite) (List.cons_ne_nil _ _)
  · refine ⟨error, ?_⟩
    have hdeduped : (normalizeAll oversizedCandidates).deduped = freshBlocks oversizedCandidates :=
      deduped_foldl oversizedCandidates.zipIdx ⟨[], [], []⟩
    rw [runImportJsonPayload, resolvePayloadShape]
    dsimp only [Bind.bind, Except.bind]
    rw [hdeduped, herror]

end MemphisOS.ChainImport
