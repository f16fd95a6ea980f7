import MemphisOS.Chain.Directory
import MemphisOS.Ecma.Date
import MemphisOS.Systems.Transition

/-!
# Concurrent appends

Any number of appenders work on one chain directory. Each takes the lock file, prunes,
reads the chain, computes a block, writes it to a temporary file, renames that and removes
the lock. A step may fail, and an appender may crash before any of its steps.
-/

namespace MemphisOS.Chain

open Ecma

/-! ## Files -/

/-- The file system that holds the directory. -/
structure FileSystem where
  /-- How many files a directory may have. -/
  capacity : ℕ
  capacity_lt : capacity < 2 ^ 53 - 1

def fileNames (dir : Dir) : List Text := dir.map Prod.fst

def unlink (dir : Dir) (name : Text) : Dir := dir.filter fun e => e.1 ≠ name

def writeFile (dir : Dir) (name : Text) (bytes : List UInt8) : Dir :=
  unlink dir name ++ [(name, bytes)]

/-- `rename`, which replaces a file that exists. -/
def rename (dir : Dir) (source target : Text) : Dir :=
  match dir.lookup source with
  | some bytes => writeFile (unlink dir source) target bytes
  | none => dir

/-- `APPEND_LOCK_FILE`. -/
def appendLockFile : Text := ".append.lock".toList

/-- `APPEND_LOCK_MAX_ATTEMPTS`. -/
def appendLockMaxAttempts : ℕ := 200

/-! ## One append -/

/-- The arguments of a call of `appendBlock` and the process that makes it. -/
structure AppendCall where
  chainName : JsString
  data : List (JsString × Plain)
  ordered : OwnOrdered (.obj data)
  pid : ℕ

structure AppendBlockResult where
  index : JsNumber
  hash : JsString
  chain : JsString
  timestamp : JsString

def ChainBlock.result (block : ChainBlock) : AppendBlockResult :=
  ⟨block.index, block.hash, block.chain, block.timestamp⟩

def nextIndex (blocks : List ChainBlock) : JsNumber :=
  match blocks.getLast? with
  | some previousBlock => previousBlock.index.add (.ofNat 1)
  | none => .ofNat 1

variable (host : ChainHost)

/-- The block that is appended to the blocks read. -/
def AppendCall.block (call : AppendCall) (blocks : List ChainBlock) (timestamp : Text) :
    ChainBlock :=
  let blockWithoutHash : BlockContent :=
    { index := nextIndex blocks
      timestamp := ofText timestamp
      chain := call.chainName
      data := call.data
      prevHash := (blocks.getLast?.map ChainBlock.hash).getD genesisPrevHash }
  { blockWithoutHash with hash := ofText (hashBlock host blockWithoutHash) }

/-- An integer in a template literal. -/
def integerText (n : ℤ) : Text := signText (n < 0) ++ digits n.natAbs

/-- The name of the temporary file of a block. -/
def AppendCall.tmpName (call : AppendCall) (block : ChainBlock) (now : ℤ) : Text :=
  fileName block.index ++ ".tmp-".toList ++ digits call.pid ++ '-' :: integerText now

/-- Where an appender that holds the lock is. -/
inductive Stage where
  | locked
  | pruned
  | read (blocks : List ChainBlock)
  | computed (block : ChainBlock) (tmpFilename : Text)
  | written (block : ChainBlock) (tmpFilename : Text)
  | renamed (result : AppendBlockResult)
  /-- An error was thrown; its code may be `EEXIST`. -/
  | failed (eexist : Bool)

/-- Where an appender is. -/
inductive Phase where
  | waiting (attempt : ℕ)
  | holding (attempt : ℕ) (stage : Stage)
  | returned (result : AppendBlockResult)
  | threw
  | crashed

/-- The appender has taken the lock and not yet tried to remove it. -/
def Phase.Holds : Phase → Prop
  | .holding _ _ => True
  | _ => False

/-- Stages in which an error changes no file. -/
def Stage.Reads : Stage → Prop
  | .locked | .pruned | .read _ => True
  | _ => False

/-- The attempt to remove the lock. -/
def unlock (unlinked : Bool) (dir : Dir) : Dir := if unlinked then unlink dir appendLockFile else dir

/-- One step of an appender. -/
inductive AppenderStep (fs : FileSystem) (call : AppendCall) : Dir → Phase → Dir → Phase → Prop
  | acquire {dir : Dir} {attempt : ℕ} : attempt < appendLockMaxAttempts →
      appendLockFile ∉ fileNames dir → dir.length < fs.capacity →
      AppenderStep fs call dir (.waiting attempt) (dir ++ [(appendLockFile, [])])
        (.holding attempt .locked)
  | busy {dir : Dir} {attempt : ℕ} : attempt < appendLockMaxAttempts →
      appendLockFile ∈ fileNames dir →
      AppenderStep fs call dir (.waiting attempt) dir (.waiting (attempt + 1))
  | timeout {dir : Dir} {attempt : ℕ} : ¬attempt < appendLockMaxAttempts →
      AppenderStep fs call dir (.waiting attempt) dir .threw
  /-- The directory or the lock file cannot be created. -/
  | openFails {dir : Dir} {attempt : ℕ} : AppenderStep fs call dir (.waiting attempt) dir .threw
  | prune {dir listing : Dir} {attempt : ℕ} (statFails unlinkFails : Text → Bool) :
      listing.Perm dir →
      AppenderStep fs call dir (.holding attempt .locked)
        ((pruneTrailingEmptyBlockFiles statFails unlinkFails listing).foldl unlink dir)
        (.holding attempt .pruned)
  | read {dir listing : Dir} {attempt : ℕ} {blocks : List ChainBlock} : listing.Perm dir →
      readAndValidateChainBlocks host listing = .ok blocks →
      AppenderStep fs call dir (.holding attempt .pruned) dir (.holding attempt (.read blocks))
  | compute {dir : Dir} {attempt : ℕ} {blocks : List ChainBlock} (date now : ℤ) :
      AppenderStep fs call dir (.holding attempt (.read blocks)) dir
        (.holding attempt (.computed (call.block host blocks (isoText date))
          (call.tmpName (call.block host blocks (isoText date)) now)))
  | write {dir : Dir} {attempt : ℕ} {block : ChainBlock} {tmpFilename : Text} :
      (writeFile dir tmpFilename block.payload).length ≤ fs.capacity →
      AppenderStep fs call dir (.holding attempt (.computed block tmpFilename))
        (writeFile dir tmpFilename block.payload) (.holding attempt (.written block tmpFilename))
  /-- Some bytes may be written before the error. -/
  | writeFails {dir : Dir} {attempt : ℕ} {block : ChainBlock} {tmpFilename : Text}
      (bytes : List UInt8) (eexist : Bool) :
      (writeFile dir tmpFilename bytes).length ≤ fs.capacity →
      AppenderStep fs call dir (.holding attempt (.computed block tmpFilename))
        (writeFile dir tmpFilename bytes) (.holding attempt (.failed eexist))
  /-- The temporary file cannot be created. -/
  | createFails {dir : Dir} {attempt : ℕ} {block : ChainBlock} {tmpFilename : Text}
      (eexist : Bool) :
      AppenderStep fs call dir (.holding attempt (.computed block tmpFilename)) dir
        (.holding attempt (.failed eexist))
  | rename {dir : Dir} {attempt : ℕ} {block : ChainBlock} {tmpFilename : Text} :
      tmpFilename ∈ fileNames dir →
      AppenderStep fs call dir (.holding attempt (.written block tmpFilename))
        (rename dir tmpFilename (fileName block.index)) (.holding attempt (.renamed block.result))
  /-- The temporary file is removed, unless that fails as well. -/
  | renameFails {dir : Dir} {attempt : ℕ} {block : ChainBlock} {tmpFilename : Text}
      (unlinked eexist : Bool) :
      AppenderStep fs call dir (.holding attempt (.written block tmpFilename))
        (if unlinked then unlink dir tmpFilename else dir) (.holding attempt (.failed eexist))
  | fail {dir : Dir} {attempt : ℕ} {stage : Stage} (eexist : Bool) : stage.Reads →
      AppenderStep fs call dir (.holding attempt stage) dir (.holding attempt (.failed eexist))
  | unlock {dir : Dir} {attempt : ℕ} {result : AppendBlockResult} (unlinked : Bool) :
      AppenderStep fs call dir (.holding attempt (.renamed result)) (unlock unlinked dir)
        (.returned result)
  /-- An error of code `EEXIST` starts another attempt. -/
  | rethrow {dir : Dir} {attempt : ℕ} {eexist : Bool} (unlinked : Bool) :
      AppenderStep fs call dir (.holding attempt (.failed eexist)) (unlock unlinked dir)
        (if eexist then .waiting (attempt + 1) else .threw)
  | crashWaiting {dir : Dir} {attempt : ℕ} :
      AppenderStep fs call dir (.waiting attempt) dir .crashed
  | crashHolding {dir : Dir} {attempt : ℕ} {stage : Stage} :
      AppenderStep fs call dir (.holding attempt stage) dir .crashed

/-! ## All appends -/

structure ChainState where
  dir : Dir
  phase : ℕ → Phase

/-- The appenders, each with its call, from an empty directory. A step is labelled with the
appender that takes it. -/
def appendSystem (fs : FileSystem) (calls : ℕ → AppendCall) : TransitionSystem ChainState ℕ where
  init s := s.dir = [] ∧ ∀ p, s.phase p = .waiting 0
  step s p t := AppenderStep host fs (calls p) s.dir (s.phase p) t.dir (t.phase p) ∧
    ∀ q ≠ p, t.phase q = s.phase q

end MemphisOS.Chain
