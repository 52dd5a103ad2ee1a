import XianAbci.Value
import XianAbci.Lib.PyDict

/-!
# The block data service (`services/bds/bds.py`)

Finalized blocks are written to a spool directory and put in a pending buffer; one worker takes them
out in height order and writes them to the database, retrying until it succeeds. Catch-up rebuilds
missing blocks from the chain, replay refills the buffer from the spool, and a status query refreshes the
indexed height from the database. The four are coroutines of one event loop: what one does between two
awaits is one step here, and the steps interleave in any order.

The spool and the database are fallible: a file may fail to be written or removed, a database call may
raise before or after its transaction is committed, and the chain's answers are arbitrary.
-/

namespace XianAbci

/-- What the service uses of a `BdsBlockPayload`. -/
structure PayloadFormat (P : Type) where
  height : P → Int
  blockHash : P → String
  appHash : P → String
  -- `validate_execution_policy(payload.execution_policy)`
  validateExecutionPolicy : P → Except PyErr Unit
  -- `json.dumps(payload.to_spool_dict())` and `from_spool_dict(json.loads(text))`
  toSpool : P → Except PyErr String
  fromSpool : String → Except PyErr P

/-- A row of the `blocks` table, as far as `select_block_identity` reads it. -/
structure BlockRow where
  height : Int
  blockHash : String
  appHash : String
deriving DecidableEq, Repr

/-- Where `_run_worker` waits: for the pending event, for an answer of the database about the payload it
holds, or to try again. -/
inductive WorkerPhase (P : Type)
  | waiting
  | checking (payload : P)
  | answered (payload : P) (existing : Option BlockRow)
  | inserting (payload : P)
  -- the transaction is committed, the worker does not know yet
  | inserted (payload : P)
  | retrying (payload : P)
  -- an exception left the loop
  | stopped

/-- Where `_catch_up_once` waits: for the next round, for the latest height, or for a rebuilt payload. -/
inductive CatchupPhase
  | idle
  | asking
  | building (nextHeight targetHeight : Int)

/-- A call of `compact_spool`, with the files it has validated, before and after the database has answered. -/
inductive Compaction
  | reading (paths : List String)
  | removing (paths : List String) (indexedHeight : Option Int)
deriving DecidableEq

structure BdsState (P : Type) where
  -- the `blocks` table, in the order of insertion
  blocks : List BlockRow
  -- the texts of the spool directory's `*.json` files, by name
  spool : PyDict String String
  pendingPayloads : PyDict Int P
  pendingEvent : Bool
  indexedHeight : Option Int
  lastEnqueueError : Option String
  worker : WorkerPhase P
  catchup : CatchupPhase
  -- heights that status queries in flight have read
  statusReads : List (Option Int)
  compactions : List Compaction

/-- `SELECT MAX(height) FROM blocks`. -/
def maxHeight (blocks : List BlockRow) : Option Int := (blocks.map BlockRow.height).max?

/-- The payload the worker holds. -/
def WorkerPhase.payload? {P : Type} : WorkerPhase P → Option P
  | .checking p | .answered p _ | .inserting p | .inserted p | .retrying p => some p
  | .waiting | .stopped => none

namespace BdsState

variable {P : Type} (F : PayloadFormat P) (queueMaxSize : Int)

/-- `f"{height:020d}-{block_hash}.json"`. -/
def spoolFileName (payload : P) : String :=
  let digits := toString (F.height payload).natAbs
  let sign := if F.height payload < 0 then "-" else ""
  sign ++ "".pushn '0' (20 - sign.length - digits.length) ++ digits ++ "-" ++ F.blockHash payload ++ ".json"

def isStalePayload (s : BdsState P) (payload : P) : Bool :=
  match s.indexedHeight with
  | none => false
  | some indexed => F.height payload ≤ indexed

/-- `len(self._pending_payloads) >= max(self.config.queue_max_size, 1)`. -/
def isFull (s : BdsState P) : Bool := max queueMaxSize 1 ≤ (s.pendingPayloads.keys.length : Int)

def nextExpectedHeight (s : BdsState P) : Int :=
  match s.indexedHeight with
  | none => 0
  | some indexed => indexed + 1

def enqueuePendingPayload (payload : P) (s : BdsState P) : Except PyErr Bool × BdsState P :=
  match F.validateExecutionPolicy payload with
  | .error e => (.error e, s)
  | .ok () =>
    if s.isStalePayload F payload then (.ok true, s)
    else if s.pendingPayloads.contains (F.height payload) then (.ok true, s)
    else if s.isFull queueMaxSize then (.ok false, s)
    else (.ok true, { s with
      pendingPayloads := s.pendingPayloads.set (F.height payload) payload
      pendingEvent := true
      lastEnqueueError := none })

def pruneStalePendingPayloads (s : BdsState P) : BdsState P :=
  match s.indexedHeight with
  | none => s
  | some indexed =>
    let staleHeights := s.pendingPayloads.keys.filter (· ≤ indexed)
    { s with pendingPayloads := staleHeights.foldl PyDict.erase s.pendingPayloads }

def readSpoolFile (s : BdsState P) (name : String) : Except PyErr P :=
  match s.spool.get? name with
  | none => .error (.fileNotFoundError name)
  | some text => F.fromSpool text

/-- The sorted files, once each of them has been read. -/
def validatedSpoolFiles (s : BdsState P) : Except PyErr (List String) := do
  let paths := s.spool.keys.insertionSort (· ≤ ·)
  for path in paths do
    let _ ← s.readSpoolFile F path
  return paths

/-- `path.unlink(missing_ok=True)`. -/
def unlink (unlinkFails : String → Bool) (name : String) (s : BdsState P) : Except PyErr Unit × BdsState P :=
  if unlinkFails name then (.error (.other ("PermissionError: " ++ name)), s)
  else (.ok (), { s with spool := s.spool.erase name })

/-- The loop of `_replay_spool`. -/
def replayFiles (unlinkFails : String → Bool) : List String → BdsState P → Except PyErr Unit × BdsState P
  | [], s => (.ok (), s)
  | path :: rest, s =>
    match s.readSpoolFile F path with
    | .error e => (.error e, s)
    | .ok payload =>
      if s.isStalePayload F payload then
        match s.unlink unlinkFails path with
        | (.error e, s) => (.error e, s)
        | (.ok (), s) => replayFiles unlinkFails rest s
      else
        match s.enqueuePendingPayload F queueMaxSize payload with
        | (.error e, s) => (.error e, s)
        | (.ok _, s) => replayFiles unlinkFails rest s

def replaySpool (unlinkFails : String → Bool) (s : BdsState P) : Except PyErr Unit × BdsState P :=
  match s.validatedSpoolFiles F with
  | .error e => (.error e, s)
  | .ok paths => s.replayFiles F queueMaxSize unlinkFails paths

/-- `enqueue_block`, once the worker is started; `writeFails` is a spool file that cannot be written. -/
def enqueueBlock (writeFails : Bool) (payload : P) (s : BdsState P) : Except PyErr Unit × BdsState P :=
  match F.validateExecutionPolicy payload with
  | .error e => (.error e, s)
  | .ok () =>
    if s.isStalePayload F payload then (.ok (), s)
    else
      match F.toSpool payload with
      | .error e => (.error e, s)
      | .ok text =>
        if writeFails then (.error (.other "OSError"), s)
        else
          let s := { s with spool := s.spool.set (spoolFileName F payload) text }
          match s.enqueuePendingPayload F queueMaxSize payload with
          | (.error e, s) => (.error e, s)
          | (.ok true, s) => (.ok (), s)
          | (.ok false, s) => (.ok (), { s with lastEnqueueError := some "pending_buffer_full" })

/-! ### The worker -/

/-- The `finally` of the worker loop, and back to waiting. -/
def finishRound (unlinkFails : String → Bool) (s : BdsState P) : BdsState P :=
  let (result, s) := if s.isFull queueMaxSize then (.ok (), s) else s.replaySpool F queueMaxSize unlinkFails
  match result with
  | .error _ => { s with worker := .stopped }
  | .ok () => { s with worker := .waiting, pendingEvent := s.pendingPayloads.contains s.nextExpectedHeight }

/-- The worker is woken: it takes the next expected payload, if that is there. -/
def takeNext (unlinkFails : String → Bool) (s : BdsState P) : BdsState P :=
  match s.pendingPayloads.get? s.nextExpectedHeight with
  | none => finishRound F queueMaxSize unlinkFails { s with pendingEvent := false }
  | some payload => { s with
      pendingPayloads := s.pendingPayloads.erase s.nextExpectedHeight
      worker := .checking payload }

/-- `persist_block` has returned `True`. Where the spool file cannot be removed, the exception sends the
worker back to persist the same payload. -/
def blockPersisted (unlinkFails : String → Bool) (payload : P) (s : BdsState P) : BdsState P :=
  let s := { s with indexedHeight := some (F.height payload) }
  match s.unlink unlinkFails (spoolFileName F payload) with
  | (.error _, s) => { s with worker := .retrying payload }
  | (.ok (), s) => finishRound F queueMaxSize unlinkFails s.pruneStalePendingPayloads

def blockRow (payload : P) : BlockRow := ⟨F.height payload, F.blockHash payload, F.appHash payload⟩

def rowAt (s : BdsState P) (height : Int) : Option BlockRow := s.blocks.find? (·.height = height)

/-! ### Catch-up, status and compaction -/

/-- The loop of `_catch_up_once`, up to the next payload it has to wait for. -/
def catchUpLoop (targetHeight : Int) : Nat → Int → BdsState P → BdsState P
  | 0, _, s => { s with catchup := .idle }
  | fuel + 1, nextHeight, s =>
    if targetHeight < nextHeight then { s with catchup := .idle }
    else if s.isFull queueMaxSize then { s with catchup := .idle }
    else if s.pendingPayloads.contains nextHeight then catchUpLoop targetHeight fuel (nextHeight + 1) s
    else { s with catchup := .building nextHeight targetHeight }

/-- Each round of the loop raises the height, so there are at most as many as heights up to the target. -/
def catchUpTo (nextHeight targetHeight : Int) (s : BdsState P) : BdsState P :=
  catchUpLoop queueMaxSize targetHeight (targetHeight + 1 - nextHeight).toNat nextHeight s

/-- `_catch_up_once`, once the latest height is known. -/
def catchUpFrom (latestHeight : Int) (s : BdsState P) : BdsState P :=
  let indexed := s.indexedHeight.getD 0
  let highestPending := (s.pendingPayloads.keys.max?).getD indexed
  s.catchUpTo queueMaxSize (indexed + 1) (max latestHeight highestPending)

/-- `_catch_up_once`, once the payload of `nextHeight` is rebuilt. -/
def catchUpBuilt (payload : P) (nextHeight targetHeight : Int) (s : BdsState P) : BdsState P :=
  match s.enqueuePendingPayload F queueMaxSize payload with
  | (.ok true, s) => s.catchUpTo queueMaxSize (nextHeight + 1) targetHeight
  | (_, s) => { s with catchup := .idle }

/-- `get_status`, once the database has answered. -/
def refreshStatus (read : Option Int) (s : BdsState P) : BdsState P :=
  let s := match read with
    | none => s
    | some height => match s.indexedHeight with
      | none => { s with indexedHeight := some height }
      | some indexed => if indexed < height then { s with indexedHeight := some height } else s
  s.pruneStalePendingPayloads

/-- The loop of `compact_spool` over the files it validated; an exception leaves the rest. -/
def compactFiles (unlinkFails : String → Bool) (indexedHeight : Int) : List String → BdsState P → BdsState P
  | [], s => s
  | path :: rest, s =>
    match s.readSpoolFile F path with
    | .error _ => s
    | .ok payload =>
      if F.height payload > indexedHeight then compactFiles unlinkFails indexedHeight rest s
      else match s.unlink unlinkFails path with
        | (.error _, s) => s
        | (.ok (), s) => compactFiles unlinkFails indexedHeight rest s

/-- `compact_spool`, once the database has answered. -/
def compactSpool (unlinkFails : String → Bool) (indexedHeight : Option Int) (paths : List String)
    (s : BdsState P) : BdsState P :=
  match indexedHeight with
  | none => s
  | some indexedHeight => s.compactFiles F unlinkFails indexedHeight paths

/-! ### Steps -/

/-- What one coroutine does between two awaits. -/
inductive Step : BdsState P → BdsState P → Prop
  | enqueue (s : BdsState P) (writeFails : Bool) (payload : P) :
      Step s (s.enqueueBlock F queueMaxSize writeFails payload).2
  | replay (s : BdsState P) (unlinkFails : String → Bool) : Step s (s.replaySpool F queueMaxSize unlinkFails).2
  -- the worker
  | wake {s : BdsState P} (unlinkFails : String → Bool) : s.worker = .waiting → s.pendingEvent = true →
      Step s (s.takeNext F queueMaxSize unlinkFails)
  | fetch {s : BdsState P} {payload : P} : s.worker = .checking payload →
      Step s { s with worker := .answered payload (s.rowAt (F.height payload)) }
  | recognised {s : BdsState P} {payload : P} (unlinkFails : String → Bool) :
      s.worker = .answered payload (some (blockRow F payload)) →
      Step s (s.blockPersisted F queueMaxSize unlinkFails payload)
  | mismatch {s : BdsState P} {payload : P} {row : BlockRow} : s.worker = .answered payload (some row) →
      row ≠ blockRow F payload → Step s { s with worker := .retrying payload }
  | absent {s : BdsState P} {payload : P} : s.worker = .answered payload none →
      Step s { s with worker := .inserting payload }
  -- `height` is a unique key: an insertion beside a row of that height raises
  | commit {s : BdsState P} {payload : P} : s.worker = .inserting payload → s.rowAt (F.height payload) = none →
      Step s { s with blocks := s.blocks ++ [blockRow F payload], worker := .inserted payload }
  | persisted {s : BdsState P} {payload : P} (unlinkFails : String → Bool) : s.worker = .inserted payload →
      Step s (s.blockPersisted F queueMaxSize unlinkFails payload)
  -- a failed attempt, before or after its transaction was committed
  | fail {s : BdsState P} {payload : P} : s.worker.payload? = some payload →
      Step s { s with worker := .retrying payload }
  | retry {s : BdsState P} {payload : P} : s.worker = .retrying payload →
      Step s { s with worker := .checking payload }
  -- catch-up
  | catchUpStart {s : BdsState P} : s.catchup = .idle → Step s { s with catchup := .asking }
  | catchUpFrom {s : BdsState P} (latestHeight : Int) : s.catchup = .asking →
      Step s (s.catchUpFrom queueMaxSize latestHeight)
  | catchUpBuilt {s : BdsState P} {nextHeight targetHeight : Int} (payload : P) :
      s.catchup = .building nextHeight targetHeight →
      Step s (s.catchUpBuilt F queueMaxSize payload nextHeight targetHeight)
  | catchUpFails (s : BdsState P) : Step s { s with catchup := .idle }
  -- `get_status`; a query that fails reads nothing
  | statusRead (s : BdsState P) : Step s { s with statusReads := maxHeight s.blocks :: s.statusReads }
  | statusReadFails (s : BdsState P) : Step s { s with statusReads := none :: s.statusReads }
  | status {s : BdsState P} {read : Option Int} : read ∈ s.statusReads →
      Step s { s.refreshStatus read with statusReads := s.statusReads.erase read }
  -- `compact_spool`
  | compactStart {s : BdsState P} {paths : List String} : s.validatedSpoolFiles F = .ok paths →
      Step s { s with compactions := .reading paths :: s.compactions }
  | compactRead {s : BdsState P} {paths : List String} : .reading paths ∈ s.compactions →
      Step s { s with
        compactions := .removing paths (maxHeight s.blocks) :: s.compactions.erase (.reading paths) }
  | compact {s : BdsState P} {paths : List String} {indexedHeight : Option Int} (unlinkFails : String → Bool) :
      .removing paths indexedHeight ∈ s.compactions →
      Step s { s.compactSpool F unlinkFails indexedHeight paths with
        compactions := s.compactions.erase (.removing paths indexedHeight) }

/-- The service right after `start` has read the indexed height and created the worker. -/
structure Started (s : BdsState P) : Prop where
  indexedHeight : s.indexedHeight = maxHeight s.blocks
  pendingPayloads : s.pendingPayloads = .empty
  worker : s.worker = .waiting
  statusReads : s.statusReads = []

end BdsState

end XianAbci
