import MemphisOS.Bridge.Store
import MemphisOS.Systems.Transition

/-!
# Concurrent appends of the native adapter

`NapiChainAdapter.appendBlock` reads all blocks, has the bridge append one and writes the file of
that block, without a lock. The appends are kept when each of them opens its file while the
directory still holds what it has read.
-/

namespace MemphisOS.Bridge

open Ecma MemphisCore

/-- Where a call of `appendBlock` is. -/
inductive Phase where
  | start
  /-- The files are being read, each at its own time. -/
  | reading (files : List (Text × Option Plain))
  | read (chainBlocks : List Plain)
  | sent (chainBlocks : List Plain) (appended : Plain)
  | writing (appended : Plain) (written : List UInt8)
  | returned (appended : Plain)
  /-- It failed or died before it opened its file. -/
  | failed
  /-- It failed or died with its file open. -/
  | cutOff (appended : Plain) (written : List UInt8)

/-- The block an appender has opened a file for, with the bytes it has written. -/
def Phase.file? : Phase → Option (Plain × List UInt8)
  | .writing appended written | .cutOff appended written => some (appended, written)
  | .returned appended => some (appended, payload appended)
  | _ => none

/-- The bytes of a file after bytes are written at an offset; a gap is filled with zeros. -/
def overlay (content : List UInt8) (offset : ℕ) (chunk : List UInt8) : List UInt8 :=
  content.take offset ++ List.replicate (offset - content.length) 0 ++ chunk ++
    content.drop (offset + chunk.length)

variable (host : BridgeHost) (chainAppend : Text → Text → Text) (chain : JsString)

/-- One step of an appender, with the name of the file it opens in the step. -/
inductive AppenderStep (data : List (JsString × Plain)) :
    Chain.Dir → Phase → Option Text → Chain.Dir → Phase → Prop
  | list {dir listing : Chain.Dir} : listing.Perm dir →
      AppenderStep data dir .start none dir
        (.reading ((sortedFiles listing).map fun e => (e.1, none)))
  | listFails {dir : Chain.Dir} : AppenderStep data dir .start none dir (.read [])
  | readFile {dir : Chain.Dir} {before after : List (Text × Option Plain)} {name : Text}
      {bytes : List UInt8} {block : Plain} : dir.lookup name = some bytes →
      parseJson (decodeUtf8 bytes) = some block →
      AppenderStep data dir (.reading (before ++ (name, none) :: after)) none dir
        (.reading (before ++ (name, some block) :: after))
  /-- A file cannot be read, or its text is no JSON. -/
  | readFails {dir : Chain.Dir} {files : List (Text × Option Plain)} :
      AppenderStep data dir (.reading files) none dir (.read [])
  | readAll {dir : Chain.Dir} {files : List (Text × Option Plain)} {chainBlocks : List Plain} :
      files.mapM Prod.snd = some chainBlocks →
      AppenderStep data dir (.reading files) none dir (.read chainBlocks)
  | send {dir : Chain.Dir} {chainBlocks : List Plain} {date : ℤ} {appended : Plain} :
      sendBlock host chainAppend chainBlocks
        (nextBlock host chain data (isoText date) chainBlocks) = .ok appended →
      AppenderStep data dir (.read chainBlocks) none dir (.sent chainBlocks appended)
  | reject {dir : Chain.Dir} {chainBlocks : List Plain} {date : ℤ} {message : JsString} :
      sendBlock host chainAppend chainBlocks
        (nextBlock host chain data (isoText date) chainBlocks) = .error message →
      AppenderStep data dir (.read chainBlocks) none dir .failed
  | openFails {dir : Chain.Dir} {chainBlocks : List Plain} {appended : Plain} :
      AppenderStep data dir (.sent chainBlocks appended) none dir .failed
  | openFile {dir : Chain.Dir} {chainBlocks : List Plain} {appended : Plain} :
      AppenderStep data dir (.sent chainBlocks appended) (some (blockFileName host appended))
        (Chain.writeFile dir (blockFileName host appended) []) (.writing appended [])
  | write {dir : Chain.Dir} {appended : Plain} {written chunk content : List UInt8} :
      written ++ chunk <+: payload appended →
      dir.lookup (blockFileName host appended) = some content →
      AppenderStep data dir (.writing appended written) none
        (Chain.writeFile dir (blockFileName host appended)
          (overlay content written.length chunk)) (.writing appended (written ++ chunk))
  | close {dir : Chain.Dir} {appended : Plain} :
      AppenderStep data dir (.writing appended (payload appended)) none dir (.returned appended)
  | writeFails {dir : Chain.Dir} {appended : Plain} {written : List UInt8} :
      AppenderStep data dir (.writing appended written) none dir (.cutOff appended written)
  | crash {dir : Chain.Dir} {phase : Phase} : phase.file? = none →
      AppenderStep data dir phase none dir .failed

structure AdapterState where
  dir : Chain.Dir
  phase : ℕ → Phase

/-- The appenders of one chain, each with its record, from an empty directory. A step is labelled
with the appender that takes it and the file it opens. -/
def adapterSystem (records : ℕ → List (JsString × Plain)) :
    TransitionSystem AdapterState (ℕ × Option Text) where
  init s := s.dir = [] ∧ ∀ p, s.phase p = .start
  step s label t := AppenderStep host chainAppend chain (records label.1) s.dir (s.phase label.1)
    label.2 t.dir (t.phase label.1) ∧ ∀ q ≠ label.1, t.phase q = s.phase q

/-- No append of a run is lost. -/
structure KeepsAppends (S : TransitionSystem AdapterState (ℕ × Option Text)) : Prop where
  /-- The block of an append that has returned is stored under its own index. -/
  stored : ∀ s p appended, S.Reachable s → s.phase p = .returned appended →
    s.dir.lookup (blockFileName host appended) = some (payload appended)
  /-- It is stored once: the directory has no name twice, and no other append has its file. -/
  once : ∀ s, S.Reachable s → (Chain.fileNames s.dir).Nodup ∧
    ∀ p q v w, s.phase p = .returned v → s.phase q = .returned w →
      blockFileName host v = blockFileName host w → p = q
  /-- A file that is opened did not exist. -/
  fresh : ∀ s p name t, S.Reachable s → S.step s (p, some name) t → name ∉ Chain.fileNames s.dir

/-- An append that opens its file has read the blocks the directory holds now, at most a million
of them, and no file there is cut off. -/
def Current (s : AdapterState) : ℕ × Option Text → Prop
  | (_, none) => True
  | (p, some _) => (Chain.blockFiles s.dir).length ≤ 10 ^ 6 ∧
      (∀ q appended written, (s.phase q).file? = some (appended, written) →
        written = payload appended) ∧
      ∀ chainBlocks appended, s.phase p = .sent chainBlocks appended →
        readBlocks s.dir = some chainBlocks

/-- The bridge appends every block that is linked to the blocks read, and returns it. -/
def AcceptsLinked : Prop :=
  ∀ (chainBlocks : List Plain) (block : NapiBlock), (∀ v ∈ chainBlocks, OwnOrdered v) →
    block.index = nextIndex host chainBlocks → block.prevHash = lastHash chainBlocks →
    sendBlock host chainAppend chainBlocks block = .ok (own (jsonImage block.value))

/-! ## The invariant -/

/-- The appends that have opened their files, in the order of these files. -/
structure AdapterInv (records : ℕ → List (JsString × Plain)) (s : AdapterState)
    (opened : List (ℕ × Plain × List UInt8)) : Prop where
  files : s.dir.Perm (numbered (opened.map (·.2.2)))
  room : opened.length ≤ 10 ^ 6 + 1
  owners : (opened.map Prod.fst).Nodup
  stored : StoredInOrder (opened.map (·.2.1))
  phases : ∀ p file, (s.phase p).file? = some file ↔ (p, file) ∈ opened
  sent : ∀ p chainBlocks appended, s.phase p = .sent chainBlocks appended →
    ∃ date, sendBlock host chainAppend chainBlocks
      (nextBlock host chain (records p) (isoText date) chainBlocks) = .ok appended

variable {host chainAppend chain} {records : ℕ → List (JsString × Plain)} {s t : AdapterState}
  {opened : List (ℕ × Plain × List UInt8)}

theorem AdapterInv.init (h : (adapterSystem host chainAppend chain records).init s) :
    AdapterInv host chainAppend chain records s [] where
  files := by simp [h.1, numbered]
  room := Nat.zero_le _
  owners := List.nodup_nil
  stored := by
    intro i hi
    cases hi
  phases p file := by simp [h.2 p, Phase.file?]
  sent p chainBlocks appended hp := by
    rw [h.2 p] at hp
    cases hp

/-- The file of an opened append. -/
theorem AdapterInv.fileName (hs : AdapterInv host chainAppend chain records s opened) {i : ℕ}
    (hi : i < opened.length) :
    blockFileName host opened[i].2.1 = Chain.fileName (.ofNat i) := by
  have hroom := hs.room
  have hstored := hs.stored i (by simpa using hi)
  rw [List.getElem_map] at hstored
  exact blockFileName_eq (by omega) hstored.index

/-- An append with an open file, its position among the opened and the name of its file. -/
theorem AdapterInv.position (hs : AdapterInv host chainAppend chain records s opened) {p : ℕ}
    {appended : Plain} {written : List UInt8}
    (h : (s.phase p).file? = some (appended, written)) :
    ∃ (i : ℕ) (hi : i < opened.length), opened[i] = (p, appended, written) ∧
      blockFileName host appended = Chain.fileName (.ofNat i) := by
  obtain ⟨i, hi, he⟩ := List.getElem_of_mem ((hs.phases p _).mp h)
  have hname := hs.fileName hi
  rw [he] at hname
  exact ⟨i, hi, he, hname⟩

theorem AdapterInv.lookup (hs : AdapterInv host chainAppend chain records s opened) {p : ℕ}
    {appended : Plain} {written : List UInt8}
    (h : (s.phase p).file? = some (appended, written)) :
    s.dir.lookup (blockFileName host appended) = some written := by
  obtain ⟨i, hi, he, hname⟩ := hs.position h
  have hroom := hs.room
  have hlookup := lookup_numbered hs.files (by rw [List.length_map]; omega)
    (by rwa [List.length_map] : i < (opened.map (·.2.2)).length)
  rw [List.getElem_map, he] at hlookup
  rw [hname, hlookup]

/-- A step that leaves the files alone. -/
theorem AdapterInv.keep (hs : AdapterInv host chainAppend chain records s opened) {p : ℕ}
    (hdir : t.dir = s.dir) (hframe : ∀ q ≠ p, t.phase q = s.phase q)
    (hfile : (t.phase p).file? = (s.phase p).file?)
    (hsent : ∀ chainBlocks appended, t.phase p = .sent chainBlocks appended →
      ∃ date, sendBlock host chainAppend chainBlocks
        (nextBlock host chain (records p) (isoText date) chainBlocks) = .ok appended) :
    AdapterInv host chainAppend chain records t opened where
  files := hdir ▸ hs.files
  room := hs.room
  owners := hs.owners
  stored := hs.stored
  phases q file := by
    by_cases hq : q = p
    · rw [hq, hfile, hs.phases]
    · rw [hframe q hq, hs.phases]
  sent q chainBlocks appended hq := by
    by_cases hqp : q = p
    · subst hqp
      exact hsent _ _ hq
    · rw [hframe q hqp] at hq
      exact hs.sent q _ _ hq

/-- **A current append.** It has read the blocks of the opened appends, and its block is the next
one. -/
theorem AdapterInv.next (hbridge : AcceptsLinked host chainAppend)
    (hs : AdapterInv host chainAppend chain records s opened) {p : ℕ} {chainBlocks : List Plain}
    {appended : Plain} (hp : s.phase p = .sent chainBlocks appended) {name : Text}
    (hcurrent : Current s (p, some name)) :
    opened.length ≤ 10 ^ 6 ∧ Stored appended opened.length := by
  obtain ⟨hroom, hwhole, hread⟩ := hcurrent
  have hlength : opened.length ≤ 10 ^ 6 := by
    have hfiles := (hs.files.filter fun e => Chain.isBlockFile e.1).length_eq
    rw [← Chain.blockFiles, ← Chain.blockFiles, blockFiles_numbered, length_numbered,
      List.length_map] at hfiles
    omega
  have hbytes : opened.map (·.2.2) = (opened.map (·.2.1)).map payload := by
    rw [List.map_map]
    refine List.map_congr_left fun e he => ?_
    exact hwhole e.1 e.2.1 e.2.2 ((hs.phases e.1 e.2).mpr he)
  have hfiles := hs.files
  rw [hbytes] at hfiles
  have hblocks := readBlocks_eq hfiles hs.stored (by rwa [List.length_map])
  rw [hread chainBlocks appended hp] at hblocks
  obtain rfl : chainBlocks = opened.map (·.2.1) := Option.some.inj hblocks
  obtain ⟨date, hsend⟩ := hs.sent p _ _ hp
  rw [hbridge _ _ hs.stored.ordered rfl rfl] at hsend
  obtain rfl := Except.ok.inj hsend
  refine ⟨hlength, stored_sent (by omega) ?_⟩
  have hindex : nextIndex host (opened.map (·.2.1)) = .num (.ofNat (opened.map (·.2.1)).length) :=
    nextIndex_eq hs.stored (by rw [List.length_map]; omega)
  rw [List.length_map] at hindex
  exact hindex

/-- The file of a current append is new and joins the others. -/
theorem AdapterInv.openFile (hbridge : AcceptsLinked host chainAppend)
    (hs : AdapterInv host chainAppend chain records s opened) {p : ℕ} {chainBlocks : List Plain}
    {appended : Plain} (hp : s.phase p = .sent chainBlocks appended) {name : Text}
    (hcurrent : Current s (p, some name))
    (hdir : t.dir = Chain.writeFile s.dir (blockFileName host appended) [])
    (hphase : t.phase p = .writing appended []) (hframe : ∀ q ≠ p, t.phase q = s.phase q) :
    AdapterInv host chainAppend chain records t (opened ++ [(p, appended, [])]) := by
  obtain ⟨hlength, hstored⟩ := hs.next hbridge hp hcurrent
  have hnew : p ∉ opened.map Prod.fst := by
    intro hmem
    obtain ⟨e, he, rfl⟩ := List.mem_map.mp hmem
    have hfile := (hs.phases e.1 e.2).mpr he
    rw [hp] at hfile
    cases hfile
  exact
    { files := by
        have hperm := writeFile_perm_concat hs.files (by rw [List.length_map]; omega) []
        rw [List.length_map] at hperm
        rw [hdir, blockFileName_eq (by omega) hstored.index, List.map_append]
        exact hperm
      room := by
        rw [List.length_append, List.length_singleton]
        omega
      owners := by
        rw [List.map_append, List.map_singleton]
        exact List.nodup_append.mpr ⟨hs.owners, List.nodup_singleton p, by
          rintro q hq _ hr rfl
          rw [List.mem_singleton.mp hr] at hq
          exact hnew hq⟩
      stored := by
        rw [List.map_append, List.map_singleton]
        exact hs.stored.concat (by rwa [List.length_map])
      phases := by
        intro q file
        rw [List.mem_append, List.mem_singleton, Prod.mk.injEq]
        by_cases hq : q = p
        · subst hq
          have hnone : (q, file) ∉ opened := fun hmem => hnew (List.mem_map_of_mem hmem)
          rw [hphase, Phase.file?, Option.some.injEq]
          exact ⟨fun h => .inr ⟨rfl, h.symm⟩, fun h => (h.resolve_left hnone).2.symm⟩
        · rw [hframe q hq, hs.phases]
          exact ⟨.inl, fun h => h.resolve_right fun hqp => hq hqp.1⟩
      sent := by
        intro q _ _ hq
        by_cases hqp : q = p
        · subst hqp
          rw [hphase] at hq
          cases hq
        · rw [hframe q hqp] at hq
          exact hs.sent q _ _ hq }

/-- Bytes written at the end of what is written. -/
theorem overlay_length (content chunk : List UInt8) :
    overlay content content.length chunk = content ++ chunk := by
  rw [overlay, List.take_length, Nat.sub_self, List.replicate_zero, List.append_nil,
    List.drop_eq_nil_of_le (Nat.le_add_right _ _), List.append_nil]

/-- A writer extends its own file. -/
theorem AdapterInv.write (hs : AdapterInv host chainAppend chain records s opened) {p : ℕ}
    {appended : Plain} {written chunk content : List UInt8}
    (hp : s.phase p = .writing appended written)
    (hcontent : s.dir.lookup (blockFileName host appended) = some content)
    (hdir : t.dir = Chain.writeFile s.dir (blockFileName host appended)
      (overlay content written.length chunk))
    (hphase : t.phase p = .writing appended (written ++ chunk))
    (hframe : ∀ q ≠ p, t.phase q = s.phase q) :
    ∃ opened', AdapterInv host chainAppend chain records t opened' := by
  have hfile : (s.phase p).file? = some (appended, written) := by rw [hp, Phase.file?]
  rw [hs.lookup hfile] at hcontent
  obtain rfl : written = content := Option.some.inj hcontent
  rw [overlay_length] at hdir
  obtain ⟨before, after, rfl⟩ := List.append_of_mem ((hs.phases p _).mp hfile)
  have hroom := hs.room
  have hname : blockFileName host appended = Chain.fileName (.ofNat before.length) := by
    have hname := hs.fileName (i := before.length) (by simp)
    simpa using hname
  have hothers : ∀ file, (p, file) ∉ before ∧ (p, file) ∉ after := by
    have howners := hs.owners
    rw [List.map_append, List.map_cons, List.nodup_middle, List.nodup_cons, ← List.map_append]
      at howners
    intro file
    constructor
    · exact fun h => howners.1 (List.mem_map.mpr ⟨_, List.mem_append_left _ h, rfl⟩)
    · exact fun h => howners.1 (List.mem_map.mpr ⟨_, List.mem_append_right _ h, rfl⟩)
  refine ⟨before ++ (p, appended, written ++ chunk) :: after, ?_⟩
  exact
    { files := by
        have hperm := writeFile_perm_set hs.files (i := before.length)
          (by rw [List.length_map]; omega) (by simp) (written ++ chunk)
        rw [hdir, hname]
        simpa using hperm
      room := by simpa using hroom
      owners := by simpa using hs.owners
      stored := by simpa using hs.stored
      phases := by
        intro q file
        simp only [List.mem_append, List.mem_cons, Prod.mk.injEq]
        by_cases hq : q = p
        · subst hq
          simp [hphase, Phase.file?, hothers file, eq_comm]
        · rw [hframe q hq, hs.phases]
          simp [hq]
      sent := by
        intro q _ _ hq
        by_cases hqp : q = p
        · subst hqp
          rw [hphase] at hq
          cases hq
        · rw [hframe q hqp] at hq
          exact hs.sent q _ _ hq }

/-- **One step.** A step that opens files only when the append is current keeps the invariant. -/
theorem AdapterInv.step (hbridge : AcceptsLinked host chainAppend)
    (hs : AdapterInv host chainAppend chain records s opened) {label : ℕ × Option Text}
    (h : ((adapterSystem host chainAppend chain records).restrict Current).step s label t) :
    ∃ opened', AdapterInv host chainAppend chain records t opened' := by
  obtain ⟨p, name⟩ := label
  obtain ⟨hcurrent, hstep, hframe⟩ := h
  dsimp only at hstep hframe
  generalize hdir : t.dir = dir' at hstep
  generalize hphase : t.phase p = phase' at hstep
  generalize hdir₀ : s.dir = dir at hstep
  generalize hphase₀ : s.phase p = phase at hstep
  have hkeep : dir' = dir → phase'.file? = phase.file? →
      (∀ chainBlocks appended, phase' = .sent chainBlocks appended →
        ∃ date, sendBlock host chainAppend chainBlocks
          (nextBlock host chain (records p) (isoText date) chainBlocks) = .ok appended) →
      ∃ opened', AdapterInv host chainAppend chain records t opened' := by
    intro hdirs hfile hsent
    exact ⟨opened, hs.keep (by rw [hdir, hdirs, hdir₀]) hframe (by rw [hphase, hfile, hphase₀])
      (by rw [hphase]; exact hsent)⟩
  cases hstep with
  | openFile =>
    subst hdir₀
    exact ⟨_, hs.openFile hbridge hphase₀ hcurrent hdir hphase hframe⟩
  | write _ hcontent =>
    subst hdir₀
    exact hs.write hphase₀ hcontent hdir hphase hframe
  | @send _ date _ hsend =>
    refine hkeep rfl rfl ?_
    rintro _ _ ⟨⟩
    exact ⟨date, hsend⟩
  | crash hfile => exact hkeep rfl hfile.symm (by rintro _ _ ⟨⟩)
  | _ => exact hkeep rfl rfl (by rintro _ _ ⟨⟩)

/-- The invariant holds in every reachable state. -/
theorem exists_adapterInv (hbridge : AcceptsLinked host chainAppend)
    (hs : ((adapterSystem host chainAppend chain records).restrict Current).Reachable s) :
    ∃ opened, AdapterInv host chainAppend chain records s opened :=
  hs.invariant (I := fun s => ∃ opened, AdapterInv host chainAppend chain records s opened)
    (fun _ h => ⟨[], .init h⟩) fun _ _ _ ⟨_, hs⟩ hstep => hs.step hbridge hstep

/-- **Current appends are kept.** When every append that opens its file has read the blocks the
directory still holds, no append is lost and no file is opened twice. -/
theorem current_appends_kept (hbridge : AcceptsLinked host chainAppend) :
    KeepsAppends host ((adapterSystem host chainAppend chain records).restrict Current) where
  stored s p appended hs hp := by
    obtain ⟨opened, hinv⟩ := exists_adapterInv hbridge hs
    exact hinv.lookup (p := p) (by rw [hp, Phase.file?])
  once s hs := by
    obtain ⟨opened, hinv⟩ := exists_adapterInv hbridge hs
    have hroom := hinv.room
    constructor
    · exact (hinv.files.map Prod.fst).nodup_iff.mpr
        (nodup_numbered (by rw [List.length_map]; omega))
    · intro p q v w hp hq hname
      obtain ⟨i, hi, hei, hnamei⟩ := hinv.position (p := p) (by rw [hp, Phase.file?])
      obtain ⟨j, hj, hej, hnamej⟩ := hinv.position (p := q) (by rw [hq, Phase.file?])
      rw [hnamei, hnamej, fileName_inj (by omega) (by omega)] at hname
      subst hname
      rw [hei] at hej
      exact congrArg Prod.fst hej
  fresh s p name t hs h := by
    obtain ⟨opened, hinv⟩ := exists_adapterInv hbridge hs
    obtain ⟨hcurrent, hstep, -⟩ := h
    dsimp only at hstep
    generalize hphase : s.phase p = phase at hstep
    generalize t.phase p = phase' at hstep
    generalize t.dir = dir' at hstep
    cases hstep with
    | openFile =>
      obtain ⟨hlength, hstored⟩ := hinv.next hbridge hphase hcurrent
      have hnew := fileName_not_mem hinv.files (by rw [List.length_map]; omega)
      rw [List.length_map] at hnew
      rwa [blockFileName_eq (by omega) hstored.index]

/-! ## A bridge that accepts -/

/-- The answer of a bridge that appended its block. -/
def appendedAnswer (chainBlocks : List Plain) : Plain :=
  .obj [(js "ok", .bool true),
    (js "data", .obj [(js "appended", .bool true),
      (js "length", .num (.ofNat chainBlocks.length)), (js "chain", .arr chainBlocks)]),
    (js "error", .null)]

/-- A bridge that appends every block to the chain sent with it. -/
def acceptingBridge (chainJson blockJson : Text) : Text :=
  match parseJson chainJson, parseJson blockJson with
  | some (.arr chainBlocks), some block => jsonText [] (appendedAnswer (chainBlocks ++ [block]))
  | _, _ => err "invalid JSON".toList

theorem parseEnvelope_appendedAnswer {chainBlocks : List Plain}
    (h : ∀ v ∈ chainBlocks, OwnOrdered v) :
    parseEnvelope host (jsonText [] (appendedAnswer chainBlocks)) "chain_append" =
      .ok (.obj [(js "appended", .bool true),
        (js "length", jsonImage (.num (.ofNat chainBlocks.length))),
        (js "chain", .arr (chainBlocks.map jsonImage))]) := by
  have hdata : OwnOrdered (.obj [(js "appended", .bool true),
      (js "length", .num (.ofNat chainBlocks.length)), (js "chain", .arr chainBlocks)]) := by
    rw [ownOrdered_obj]
    refine ⟨show InOwnOrder [js "appended", js "length", js "chain"] from
      ⟨by decide, by decide⟩, ?_⟩
    simp only [List.mem_cons, List.not_mem_nil, or_false]
    rintro m (rfl | rfl | rfl)
    · trivial
    · trivial
    · exact ownOrdered_arr.mpr h
  have hanswer : OwnOrdered (appendedAnswer chainBlocks) := by
    rw [appendedAnswer, ownOrdered_obj]
    refine ⟨show InOwnOrder [js "ok", js "data", js "error"] from ⟨by decide, by decide⟩, ?_⟩
    simp only [List.mem_cons, List.not_mem_nil, or_false]
    rintro m (rfl | rfl | rfl)
    · trivial
    · exact hdata
    · trivial
  rw [parseEnvelope, parseJson_jsonText (by simp [Json.Blank]) hanswer, appendedAnswer,
    jsonImage_obj, List.map_cons, List.map_cons, jsonImage_obj]
  simp only [List.map_cons, List.map_nil, jsonImage_arr]
  rfl

/-- The appended block is the last of the answer. -/
theorem takeAppended_concat (chainBlocks : List Plain) (length : Plain)
    {ms : List (JsString × Plain)} : takeAppended host (.obj [(js "appended", .bool true),
      (js "length", length), (js "chain", .arr (chainBlocks ++ [.obj ms]))]) = .ok (.obj ms) := by
  have hlast : (chainBlocks ++ [Json.obj ms]).getLast? = some (.obj ms) := List.getLast?_concat
  have hchain : property (.obj [(js "appended", .bool true), (js "length", length),
      (js "chain", .arr (chainBlocks ++ [.obj ms]))]) "chain" =
        some (.arr (chainBlocks ++ [.obj ms])) := rfl
  simp only [takeAppended, hchain, hlast]
  rfl

theorem acceptsLinked_acceptingBridge : AcceptsLinked host acceptingBridge := by
  intro chainBlocks block hblocks _ _
  have hchain : parseJson (jsonText [] (.arr chainBlocks)) =
      some (.arr (chainBlocks.map jsonImage)) := by
    rw [parseJson_jsonText (by simp [Json.Blank]) (ownOrdered_arr.mpr hblocks), jsonImage_arr]
  have hblock : parseJson (jsonText [] block.value) = some (own (jsonImage block.value)) :=
    parseJson_jsonText_own (by simp [Json.Blank]) _
  have hordered : ∀ v ∈ chainBlocks.map jsonImage ++ [own (jsonImage block.value)],
      OwnOrdered v := by
    intro v hv
    rcases List.mem_append.mp hv with hv | hv
    · obtain ⟨w, hw, rfl⟩ := List.mem_map.mp hv
      exact (hblocks w hw).jsonImage
    · rw [List.mem_singleton.mp hv]
      exact ownOrdered_own _
  rw [sendBlock, acceptingBridge, hchain, hblock]
  simp only [parseEnvelope_appendedAnswer hordered]
  have hlast : jsonImage (own (jsonImage block.value)) = own (jsonImage block.value) :=
    jsonImage_eq_self (jsonNumbers_jsonImage _).own
  have hobject : ∃ ms, own (jsonImage block.value) = .obj ms := by
    rw [NapiBlock.value, jsonImage_obj, own_obj]
    exact ⟨_, rfl⟩
  obtain ⟨ms, hms⟩ := hobject
  rw [List.map_append, List.map_singleton, hlast, hms]
  simp only [bind, Except.bind]
  exact takeAppended_concat _ _

/-! ## Lost appends -/

/-- The first two appenders are in the given phases and the others have not started. -/
def pairAt (first second : Phase) : ℕ → Phase
  | 0 => first
  | 1 => second
  | _ => .start

variable {dir dir' : Chain.Dir} {first second phase' : Phase} {opened? : Option Text}

theorem writeFile_writeFile (dir : Chain.Dir) (name : Text) (bytes bytes' : List UInt8) :
    Chain.writeFile (Chain.writeFile dir name bytes) name bytes' =
      Chain.writeFile dir name bytes' := by
  simp [Chain.writeFile, Chain.unlink]

/-- A writer may write all its bytes at once. -/
theorem AppenderStep.writeWhole (data : List (JsString × Plain)) (dir : Chain.Dir)
    (appended : Plain) : AppenderStep host chainAppend chain data
      (Chain.writeFile dir (blockFileName host appended) []) (.writing appended []) none
      (Chain.writeFile dir (blockFileName host appended) (payload appended))
      (.writing appended (payload appended)) := by
  have hwrite : AppenderStep host chainAppend chain data
      (Chain.writeFile dir (blockFileName host appended) []) (.writing appended []) none
      (Chain.writeFile (Chain.writeFile dir (blockFileName host appended) [])
        (blockFileName host appended) (overlay [] 0 (payload appended)))
      (.writing appended ([] ++ payload appended)) :=
    .write (List.prefix_refl _) (Chain.lookup_writeFile _ _ _)
  rw [writeFile_writeFile] at hwrite
  have hoverlay : overlay [] 0 (payload appended) = payload appended :=
    overlay_length [] (payload appended)
  rwa [hoverlay] at hwrite

theorem reachable_first
    (hs : ((adapterSystem host chainAppend chain records).restrict Current).Reachable
      ⟨dir, pairAt first second⟩)
    (h : AppenderStep host chainAppend chain (records 0) dir first opened? dir' phase')
    (hcurrent : Current ⟨dir, pairAt first second⟩ (0, opened?)) :
    ((adapterSystem host chainAppend chain records).restrict Current).Reachable
      ⟨dir', pairAt phase' second⟩ := by
  have hstep : ((adapterSystem host chainAppend chain records).restrict Current).step
      ⟨dir, pairAt first second⟩ (0, opened?) ⟨dir', pairAt phase' second⟩ := by
    refine ⟨hcurrent, h, ?_⟩
    rintro (_ | _ | q) hq
    · exact absurd rfl hq
    · rfl
    · rfl
  exact hs.next hstep

theorem reachable_second
    (hs : ((adapterSystem host chainAppend chain records).restrict Current).Reachable
      ⟨dir, pairAt first second⟩)
    (h : AppenderStep host chainAppend chain (records 1) dir second none dir' phase') :
    ((adapterSystem host chainAppend chain records).restrict Current).Reachable
      ⟨dir', pairAt first phase'⟩ := by
  have hstep : ((adapterSystem host chainAppend chain records).restrict Current).step
      ⟨dir, pairAt first second⟩ (1, none) ⟨dir', pairAt first phase'⟩ := by
    refine ⟨trivial, h, ?_⟩
    rintro (_ | _ | q) hq
    · rfl
    · exact absurd rfl hq
    · rfl
  exact hs.next hstep

/-- The first block of a chain whose records are all alike. -/
def firstBlock : Plain :=
  own (jsonImage (nextBlock sampleHost (js "journal") sampleRecord (isoText 1000) []).value)

theorem stored_firstBlock : Stored firstBlock 0 := stored_sent (by norm_num) rfl

/-- The second appender has read the empty directory before the first has stored its block. -/
def overtaken : AdapterState where
  dir := [(Chain.fileName (.ofNat 0), payload firstBlock)]
  phase := pairAt (.returned firstBlock) (.sent [] firstBlock)

theorem reachable_overtaken : ((adapterSystem sampleHost acceptingBridge (js "journal")
    fun _ => sampleRecord).restrict Current).Reachable overtaken := by
  have hsend : sendBlock sampleHost acceptingBridge []
      (nextBlock sampleHost (js "journal") sampleRecord (isoText 1000) []) = .ok firstBlock :=
    acceptsLinked_acceptingBridge [] _ (fun _ hv => absurd hv List.not_mem_nil) rfl rfl
  have hname : blockFileName sampleHost firstBlock = Chain.fileName (.ofNat 0) :=
    blockFileName_eq (by norm_num) stored_firstBlock.index
  have hstart : ((adapterSystem sampleHost acceptingBridge (js "journal")
      fun _ => sampleRecord).restrict Current).Reachable ⟨[], pairAt .start .start⟩ := by
    refine .of_init ⟨rfl, ?_⟩
    rintro (_ | _ | p)
    · rfl
    · rfl
    · rfl
  have hlisted := reachable_second (reachable_first hstart (.list (.refl _)) trivial)
    (.list (.refl _))
  have hread := reachable_second (reachable_first hlisted (.readAll rfl) trivial) (.readAll rfl)
  have hsent := reachable_second (reachable_first hread (.send hsend) trivial) (.send hsend)
  have hopened := reachable_first hsent .openFile ⟨Nat.zero_le _, by
    rintro (_ | _ | q) _ _ ⟨⟩, by
    rintro _ _ ⟨⟩
    rfl⟩
  have hwritten := reachable_first hopened (.writeWhole _ _ _) trivial
  have hreturned := reachable_first hwritten .close trivial
  rw [hname] at hreturned
  exact hreturned

/-- The file of the first append, in a run whose appends are current. -/
theorem current_appends_kept_sample :
    overtaken.dir.lookup (blockFileName sampleHost firstBlock) = some (payload firstBlock) :=
  (current_appends_kept acceptsLinked_acceptingBridge).stored overtaken 0 firstBlock
    reachable_overtaken rfl

/-- **A lost append.** Two appends read the same empty directory, and the second replaces the block
the first has returned. -/
theorem overtaken_append_lost : AcceptsLinked sampleHost acceptingBridge ∧
    ¬KeepsAppends sampleHost (adapterSystem sampleHost acceptingBridge (js "journal")
      fun _ => sampleRecord) := by
  refine ⟨acceptsLinked_acceptingBridge, fun hkeeps => ?_⟩
  have hname : blockFileName sampleHost firstBlock = Chain.fileName (.ofNat 0) :=
    blockFileName_eq (by norm_num) stored_firstBlock.index
  have hopen : (adapterSystem sampleHost acceptingBridge (js "journal")
      fun _ => sampleRecord).step overtaken (1, some (blockFileName sampleHost firstBlock))
        ⟨Chain.writeFile overtaken.dir (blockFileName sampleHost firstBlock) [],
          pairAt (.returned firstBlock) (.writing firstBlock [])⟩ := by
    refine ⟨.openFile, ?_⟩
    rintro (_ | _ | q) hq
    · rfl
    · exact absurd rfl hq
    · rfl
  refine hkeeps.fresh _ _ _ _ reachable_overtaken.of_restrict hopen ?_
  rw [hname]
  exact List.mem_singleton_self _

end MemphisOS.Bridge
