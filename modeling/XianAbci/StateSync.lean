import XianAbci.StateExport

/-!
# State sync (`services/state_sync.py`)

A peer offers a snapshot and sends it in chunks. The offer fixes the session: the trusted app hash,
the offered height, the number of chunks and the digest of the archive. The last chunk imports the
archive. JSON parsing and the unpacking of the archive (a gzipped tar file with `metadata.json` and
`exported_state.json`) are parameters; nothing is assumed of them, so the snapshot metadata and the
archive are whatever a peer makes of them.

Faults of the temporary files before the import are left out: they raise with nothing done. Faults of
the storage transaction and of the files kept after the import are part of a call (`SyncIo`).
-/

namespace XianAbci

def snapshotFormatVersion : Int := 2

structure Snapshot where
  height : Int
  format : Int
  chunks : Int
  hash : Bytes
  metadata : Bytes

/-- The two files of an archive, as parsing each of them turns out. -/
structure SnapshotFiles where
  metadata : Except PyErr Value
  exportedState : Except PyErr Value

structure SnapshotManager where
  chainId : String
  chunkSize : Int
  jsonLoads : Bytes → Except PyErr Value
  unpack : Bytes → Except PyErr SnapshotFiles

structure IncomingSnapshotSession where
  expectedHeight : Int
  expectedFormat : Int
  expectedChunks : Int
  expectedChunkSize : Int
  expectedAppHashHex : String
  expectedSnapshotHashHex : String
  nextIndex : Int
  -- the file the chunks are appended to
  archive : Bytes

inductive OfferResult
  | accept
  | reject
  | rejectFormat
deriving DecidableEq, Repr

inductive ApplyResult
  | accept
  | retry
  | retrySnapshot
  | rejectSnapshot
deriving DecidableEq, Repr

/-- What the storage transaction and the files written after the import raise in a call. -/
structure SyncIo where
  commitError : Option PyErr
  bookkeepingError : Option PyErr

section Manager

variable (B : Builtins) (M : SnapshotManager)

/-- The metadata of an offer, with its height and chunk size. -/
def readOfferMetadata (metadata : Bytes) : Except PyErr (Value × Int × Int) := do
  let metadata ← M.jsonLoads metadata
  match metadata with
  | .dict _ =>
    validateExecutionPolicy (← metadata.get "execution_policy" .none)
    let height ← B.toInt (← metadata.get "height" (.int (-1)))
    let chunkSize ← B.toInt (← metadata.get "chunk_size" (.int 0))
    return (metadata, height, chunkSize)
  | _ => throw (.valueError "snapshot metadata must be an object")

def metadataField (metadata : Value) (key : String) : Value := (metadata.get key .none).toOption.getD .none

/-- `offer_snapshot_response`: the result, and the session where the offer is accepted. -/
def offerSnapshotResponse (snapshot : Snapshot) (appHash : Bytes) (currentHeight : Int) :
    OfferResult × Option IncomingSnapshotSession :=
  if snapshot.format ≠ snapshotFormatVersion then (.rejectFormat, none)
  else if snapshot.height ≤ currentHeight then (.reject, none)
  else if snapshot.chunks ≤ 0 then (.reject, none)
  else if snapshot.hash.length ≠ 32 then (.reject, none)
  else match readOfferMetadata B M snapshot.metadata with
    | .error _ => (.reject, none)
    | .ok (metadata, height, chunkSize) =>
      if B.eq (metadataField metadata "snapshot_format_version") (.int snapshotFormatVersion) = false then
        (.reject, none)
      else if metadataField metadata "chain_id" ≠ .str M.chainId then (.reject, none)
      else if height ≠ snapshot.height then (.reject, none)
      else if chunkSize ≤ 0 ∨ M.chunkSize < chunkSize then (.reject, none)
      else if metadataField metadata "archive_sha256" ≠ .str (bytesHex snapshot.hash) then (.reject, none)
      else if metadataField metadata "app_hash" ≠ .str (bytesHex appHash) then (.reject, none)
      else (.accept, some
        { expectedHeight := snapshot.height
          expectedFormat := snapshot.format
          expectedChunks := snapshot.chunks
          expectedChunkSize := chunkSize
          expectedAppHashHex := bytesHex appHash
          expectedSnapshotHashHex := bytesHex snapshot.hash
          nextIndex := 0
          archive := [] })

/-- What `import_snapshot_archive` checks before it calls `import_state`: the document. -/
def checkSnapshotArchive (archive : Bytes) : Except PyErr Value := do
  let files ← M.unpack archive
  let metadata ← files.metadata
  validateExecutionPolicy (← metadata.get "execution_policy" .none)
  let exportedState ← files.exportedState
  let version ← B.toInt (← metadata.index "snapshot_format_version")
  require (version = snapshotFormatVersion) (.valueError "unsupported snapshot format version")
  let chainId ← metadata.index "chain_id"
  require (B.format chainId = M.chainId) (.valueError "snapshot chain_id mismatch")
  let height ← B.toInt (← metadata.index "height")
  let number ← B.toInt (← exportedState.index "number")
  require (height = number) (.valueError "snapshot height metadata mismatch")
  let appHash ← metadata.index "app_hash"
  let hash ← exportedState.index "hash"
  require (B.format appHash = B.format hash) (.valueError "snapshot app hash metadata mismatch")
  let stateRoot ← computeExportedStateRoot B exportedState
  require (bytesHex stateRoot = B.format hash) (.valueError "snapshot state root mismatch")
  return exportedState

variable {D : Type} [Driver D]

/-- `import_snapshot_archive`: the `app_hash` of its result (that of `import_state`, whose entries
come last), and the storage afterwards. -/
def importSnapshotArchive (archive : Bytes) (io : SyncIo) (storage : D) : Except PyErr String × D :=
  match checkSnapshotArchive B M archive with
  | .error e => (.error e, storage)
  | .ok exportedState =>
    match importState B exportedState io.commitError storage with
    | (.error e, storage) => (.error e, storage)
    | (.ok result, storage) =>
      match io.bookkeepingError with
      | some e => (.error e, storage)
      | none => (.ok result.appHash, storage)

/-- The `try` block of the last chunk. -/
def restoreSnapshot (session : IncomingSnapshotSession) (io : SyncIo) (storage : D) : Except PyErr Unit × D :=
  if sha256Hex session.archive ≠ session.expectedSnapshotHashHex then
    (.error (.valueError "snapshot archive hash mismatch"), storage)
  else match importSnapshotArchive B M session.archive io storage with
    | (.error e, storage) => (.error e, storage)
    | (.ok appHash, storage) =>
      if appHash ≠ session.expectedAppHashHex then (.error (.valueError "snapshot app hash mismatch"), storage)
      else (.ok (), storage)

/-- `apply_snapshot_chunk_response`, with the session and the storage afterwards. -/
def applySnapshotChunkResponse (session : Option IncomingSnapshotSession) (index : Int) (chunk : Bytes)
    (io : SyncIo) (storage : D) : ApplyResult × Option IncomingSnapshotSession × D :=
  match session with
  | none => (.retrySnapshot, none, storage)
  | some session =>
    if index ≠ session.nextIndex then (.retry, some session, storage)
    else if index < 0 ∨ session.expectedChunks ≤ index then (.rejectSnapshot, some session, storage)
    else if session.expectedChunkSize < chunk.length then (.rejectSnapshot, none, storage)
    else
      let session := { session with archive := session.archive ++ chunk, nextIndex := session.nextIndex + 1 }
      if session.nextIndex < session.expectedChunks then (.accept, some session, storage)
      else match restoreSnapshot B M session io storage with
        | (.error _, storage) => (.rejectSnapshot, none, storage)
        | (.ok _, storage) => (.accept, none, storage)

end Manager

/-! ### Runs of calls -/

inductive SyncCall
  | offer (snapshot : Snapshot) (appHash : Bytes) (currentHeight : Int)
  | apply (index : Int) (chunk : Bytes) (io : SyncIo)

/-- The manager's session and the storage, and for the statements the offer last accepted. -/
structure SyncState (D : Type) where
  session : Option IncomingSnapshotSession
  storage : D
  offered : Option (Snapshot × Bytes)

inductive SyncResponse
  | offer (result : OfferResult)
  | apply (result : ApplyResult)
deriving DecidableEq, Repr

section Run

variable (B : Builtins) (M : SnapshotManager) {D : Type} [Driver D]

def syncStep (s : SyncState D) : SyncCall → SyncResponse × SyncState D
  | .offer snapshot appHash currentHeight =>
    match offerSnapshotResponse B M snapshot appHash currentHeight with
    | (result, none) => (.offer result, s)
    | (result, some session) =>
      (.offer result, { s with session := some session, offered := some (snapshot, appHash) })
  | .apply index chunk io =>
    let (result, session, storage) := applySnapshotChunkResponse B M s.session index chunk io s.storage
    (.apply result, { s with session := session, storage := storage })

/-- One call of a run: the state it found, the response, and the state it left. -/
structure SyncEvent (D : Type) where
  before : SyncState D
  call : SyncCall
  response : SyncResponse
  after : SyncState D

def syncRun (s : SyncState D) : List SyncCall → List (SyncEvent D)
  | [] => []
  | call :: calls =>
    let r := syncStep B M s call
    ⟨s, call, r.1, r.2⟩ :: syncRun r.2 calls

/-- The call that takes the last chunk and accepts: only then is a chunk accepted and the session over. -/
def SyncEvent.Restored (e : SyncEvent D) : Prop := e.response = .apply .accept ∧ e.after.session = none

end Run

end XianAbci
