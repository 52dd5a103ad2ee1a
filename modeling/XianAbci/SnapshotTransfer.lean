import XianAbci.ExportRoundTrip
import XianAbci.JsonLoads
import XianAbci.SnapshotChunks

/-!
# A snapshot on its way (`services/state_sync.py`)

A node exports its state into an archive, announces it and serves it in chunks; another node is offered the snapshot
with the app hash it trusts, and applies the chunks. Whatever was going on in its session before, and whatever comes at
other indices in between, it ends with the consensus state of the node that exported (`snapshot_transfer`).

The archive is a gzipped tar file of two files; packing and unpacking are parameters.
-/

namespace XianAbci

open StateRootCache

/-! ### The files -/

/-- `_json_bytes`, of plain JSON: what the encoder writes of it. -/
def jsonBytes (payload : Value) : Except PyErr Bytes := encodeAbciJson payload

/-- `json.loads(payload.decode("utf-8"))`. -/
def jsonLoadsBytes (payload : Bytes) : Except PyErr Value := do
  let text ← decodeUtf8 payload
  return jsonValue (← loads text.toList)

/-- An archive of the bytes of `metadata.json` and the JSON of `exported_state.json`. -/
structure ArchiveFormat where
  pack : Bytes → Value → Bytes
  unpack : Bytes → Except PyErr (Bytes × Value)
  -- `_sha256_file(exported_state_path)`
  stateSha256 : Value → String

/-- The archives of this file are unpacked again. -/
def ArchiveFormat.Keeps (A : ArchiveFormat) (state : Value) : Prop :=
  ∀ metadata, A.unpack (A.pack metadata state) = .ok (metadata, state)

section Export

variable (A : ArchiveFormat) (B : Builtins) (C : Codec) (encode : Value → Value)
  (signOrigin : String → List (String × Value) → Except PyErr (String × String))

/-- The manager over these archives. -/
def ArchiveFormat.manager (chainId : String) (chunkSize : Int) : SnapshotManager where
  chainId := chainId
  chunkSize := chunkSize
  jsonLoads := jsonLoadsBytes
  unpack archive := do
    let files ← A.unpack archive
    return ⟨jsonLoadsBytes files.1, .ok (runtimeValue C.typed files.2)⟩

/-- `metadata.json`. -/
def snapshotMetadata (chainId : String) (height : Int) (appHashHex createdAt : String) : Value :=
  .dict [("snapshot_format_version", .int snapshotFormatVersion), ("execution_policy", .dict currentExecutionPolicy),
    ("chain_id", .str chainId), ("height", .int height), ("app_hash", .str appHashHex), ("created_at", .str createdAt)]

end Export

/-- The calls that bring the chunks from `j` on, each when it is the next; whatever comes at another index, comes too.
The import of the last one finds no fault in the storage. -/
inductive ChunkSchedule (chunk : Nat → Bytes) (chunks : Nat) : Nat → List SyncCall → Prop
  | last {j : Nat} : j + 1 = chunks → ChunkSchedule chunk chunks j [.apply j (chunk j) ⟨none, none⟩]
  | next {j : Nat} {calls} (io : SyncIo) : j + 1 < chunks → ChunkSchedule chunk chunks (j + 1) calls →
      ChunkSchedule chunk chunks j (.apply j (chunk j) io :: calls)
  | stray {j : Nat} {calls} (index : Int) (bytes : Bytes) (io : SyncIo) : index ≠ j →
      ChunkSchedule chunk chunks j calls → ChunkSchedule chunk chunks j (.apply index bytes io :: calls)

/-! ### The JSON files read back -/

section Json

theorem jsonLoadsBytes_of_normalized {v : Value} {j : Json} (hj : normalizeForAbciJson v = .ok j)
    (hread : j.readable = true) : ∃ b, jsonBytes v = .ok b ∧ jsonLoadsBytes b = .ok (jsonValue j) := by
  have hencode : jsonBytes v = .ok (encodeStr (String.ofList (dumps j))) := by
    rw [jsonBytes, encodeAbciJson, hj]
    rfl
  refine ⟨_, hencode, ?_⟩
  rw [jsonLoadsBytes, decodeUtf8_eq_ok.2 rfl]
  dsimp only [bind, Except.bind]
  rw [String.toList_ofList, loads_dumps hread]
  rfl

def sortedPolicyJson : Json :=
  .obj [("bytecode_version", .str vmBytecodeVersion), ("execution_revision", .str vmExecutionRevision),
    ("gas_schedule", .str vmGasSchedule), ("set_codec", .str setCodec)]

theorem normalize_currentExecutionPolicy :
    normalizeForAbciJson (.dict currentExecutionPolicy) = .ok sortedPolicyJson := by
  decide +kernel

theorem validate_sortedPolicyJson : validateExecutionPolicy (jsonValue sortedPolicyJson) = .ok () := by decide +kernel

theorem normalize_int (i : Int) : normalizeForAbciJson (.int i) = .ok (.int i) := by rw [normalizeForAbciJson]

theorem normalize_str (s : String) : normalizeForAbciJson (.str s) = .ok (.str s) := by rw [normalizeForAbciJson]

theorem normalizeEntries_nil : normalizeEntries [] = .ok [] := by rw [normalizeEntries]

theorem normalizeEntries_cons {k : String} {v : Value} {rest : List (String × Value)} {j : Json}
    {js : List (String × Json)} (hj : normalizeForAbciJson v = .ok j) (hjs : normalizeEntries rest = .ok js) :
    normalizeEntries ((k, v) :: rest) = .ok (insertEntry k j js) := by
  rw [normalizeEntries, hj, hjs]
  rfl

def snapshotMetadataJson (chainId : String) (height : Int) (appHashHex createdAt : String) : Json :=
  .obj [("app_hash", .str appHashHex), ("chain_id", .str chainId), ("created_at", .str createdAt),
    ("execution_policy", sortedPolicyJson), ("height", .int height),
    ("snapshot_format_version", .int snapshotFormatVersion)]

theorem normalize_snapshotMetadata (chainId : String) (height : Int) (appHashHex createdAt : String) :
    normalizeForAbciJson (snapshotMetadata chainId height appHashHex createdAt) =
      .ok (snapshotMetadataJson chainId height appHashHex createdAt) := by
  have hentries := normalizeEntries_cons (k := "snapshot_format_version") (normalize_int snapshotFormatVersion) <|
    normalizeEntries_cons (k := "execution_policy") normalize_currentExecutionPolicy <|
    normalizeEntries_cons (k := "chain_id") (normalize_str chainId) <|
    normalizeEntries_cons (k := "height") (normalize_int height) <|
    normalizeEntries_cons (k := "app_hash") (normalize_str appHashHex) <|
    normalizeEntries_cons (k := "created_at") (normalize_str createdAt) normalizeEntries_nil
  rw [snapshotMetadata, normalizeForAbciJson, hentries]
  rfl

end Json

/-! ### The offer -/

section Offer

variable {A : ArchiveFormat} {B : Builtins} {C : Codec} {chainId : String} {size size' : Int}

end Offer

/-! ### The chunks -/

section Chunks

variable {B : Builtins} {M : SnapshotManager} {D : Type} [Driver D] {chunk : Nat → Bytes} {chunks : Nat}

/-- The last chunk of a schedule finds the session with all of them. -/
theorem ChunkSchedule.run {j : Nat} {calls : List SyncCall} (h : ChunkSchedule chunk chunks j calls) {s : SyncState D}
    {session : IncomingSnapshotSession} (hs : s.session = some session) (hnext : session.nextIndex = j)
    (hchunks : session.expectedChunks = chunks)
    (hsize : ∀ i < chunks, ((chunk i).length : Int) ≤ session.expectedChunkSize) {storage : D}
    (hrestore : restoreSnapshot B M { session with
      archive := session.archive ++ (List.range' j (chunks - j)).flatMap chunk
      nextIndex := chunks } ⟨none, none⟩ s.storage = (.ok (), storage)) :
    ∃ pre e, syncRun B M s calls = pre ++ [e] ∧ e.Restored ∧ e.after.storage = storage := by
  induction h generalizing s session with
  | @last j hlast =>
    have hfirst := hsize j (by omega)
    have hrange : List.range' j (chunks - j) = [j] := by
      rw [show chunks - j = 1 by omega]
      rfl
    have hstep : syncStep B M s (.apply j (chunk j) ⟨none, none⟩) =
        (.apply .accept, { s with session := none, storage := storage }) := by
      rw [hrange, List.flatMap_cons, List.flatMap_nil, List.append_nil] at hrestore
      rw [syncStep, hs, applySnapshotChunkResponse, if_neg (by omega), if_neg (by omega), if_neg (by omega)]
      dsimp only
      rw [if_neg (by omega), show session.nextIndex + 1 = (chunks : Int) by omega, hrestore]
    refine ⟨[], _, by rw [syncRun, syncRun, hstep]; rfl, ⟨rfl, rfl⟩, rfl⟩
  | @next j calls io hlt _ ih =>
    have hfirst := hsize j (by omega)
    set t : IncomingSnapshotSession :=
      { session with archive := session.archive ++ chunk j, nextIndex := session.nextIndex + 1 } with ht
    have hstep : syncStep B M s (.apply j (chunk j) io) = (.apply .accept, { s with session := some t }) := by
      rw [syncStep, hs, applySnapshotChunkResponse, if_neg (by omega), if_neg (by omega), if_neg (by omega)]
      dsimp only
      rw [if_pos (by omega)]
    have hrange : List.range' j (chunks - j) = j :: List.range' (j + 1) (chunks - (j + 1)) := by
      rw [show chunks - j = chunks - (j + 1) + 1 by omega, List.range'_succ]
    rw [hrange, List.flatMap_cons, ← List.append_assoc] at hrestore
    obtain ⟨pre, e, hrun, he, hstorage⟩ := ih (s := { s with session := some t }) rfl
      (by rw [ht, hnext]; push_cast; rfl) hchunks hsize hrestore
    exact ⟨_ :: pre, e, by rw [syncRun, hstep, hrun]; rfl, he, hstorage⟩
  | @stray j calls index bytes io hne _ ih =>
    have hstep : syncStep B M s (.apply index bytes io) = (.apply .retry, s) := by
      rw [syncStep, hs, applySnapshotChunkResponse, if_pos (by rw [hnext]; exact hne), ← hs]
    obtain ⟨pre, e, hrun, he, hstorage⟩ := ih hs hnext hchunks hsize hrestore
    exact ⟨_ :: pre, e, by rw [syncRun, hstep, hrun]; rfl, he, hstorage⟩

end Chunks

/-! ### The archive -/

section Archive

variable {A : ArchiveFormat} {B : Builtins} {C : Codec} {encode : Value → Value}
  {signOrigin : String → List (String × Value) → Except PyErr (String × String)} {chainId : String} {size size' : Int}
  {D : Type} [Driver D] {storage target : D} {contractState runState : PyDict String Value} {root : Bytes}
  {height nanos : Int} {founder : Option String} {archivePath createdAt : String}

/-- The document of an exportable state is read back, and imported. -/
structure Exported (B : Builtins) (C : Codec) (encode : Value → Value) (storage : D) (root : Bytes) (height nanos : Int)
    (e : ExportedState) : Prop where
  hash : e.hash = bytesHex root
  number : e.number = .int height
  read : runtimeValue C.typed (e.mapValues encode).document = e.document
  stateRoot : computeExportedStateRoot B e.document = .ok root
  imported : ∀ (target : D) (persisted : Bool),
    validatePersistedExecutionPolicy (Driver.durable target) = .ok persisted → ∃ r driver,
      importState B e.document none target = (.ok r, driver) ∧ r.appHash = bytesHex root ∧
      (∀ k, isConsensusStateKey k = true → (Driver.durable driver).get? k = (Driver.durable storage).get? k) ∧
      computeDriverStateRoot (Driver.durable driver) = .ok root ∧
      (Driver.durable driver).get? latestBlockKey = (Driver.durable storage).get? latestBlockKey

theorem Exported.check {e : ExportedState} (h : Exported B C encode storage root height nanos e)
    (hkeeps : A.Keeps (e.mapValues encode).document) {metadata : Bytes}
    (hmetadata : jsonBytes (snapshotMetadata chainId height (bytesHex root) createdAt) = .ok metadata) :
    checkSnapshotArchive B (A.manager C chainId size) (A.pack metadata (e.mapValues encode).document) =
      .ok e.document := by
  obtain ⟨b, hb, hloads⟩ := jsonLoadsBytes_of_normalized
    (normalize_snapshotMetadata chainId height (bytesHex root) createdAt) rfl
  cases hb.symm.trans hmetadata
  have hunpack : (A.manager C chainId size).unpack (A.pack metadata (e.mapValues encode).document) =
      .ok ⟨.ok (jsonValue (snapshotMetadataJson chainId height (bytesHex root) createdAt)), .ok e.document⟩ := by
    show (do
      let files ← A.unpack (A.pack metadata (e.mapValues encode).document)
      return (⟨jsonLoadsBytes files.1, .ok (runtimeValue C.typed files.2)⟩ : SnapshotFiles)) = _
    rw [hkeeps metadata]
    dsimp only [bind, Except.bind]
    rw [hloads, h.read]
    rfl
  set files := jsonValue (snapshotMetadataJson chainId height (bytesHex root) createdAt) with hfiles
  have hpolicy : files.get "execution_policy" .none = .ok (jsonValue sortedPolicyJson) := rfl
  have hversion : files.index "snapshot_format_version" = .ok (.int snapshotFormatVersion) := rfl
  have hchain : files.index "chain_id" = .ok (.str chainId) := rfl
  have hheight : files.index "height" = .ok (.int height) := rfl
  have happ : files.index "app_hash" = .ok (.str (bytesHex root)) := rfl
  have hnumber : e.document.index "number" = .ok (.int height) := congrArg Except.ok h.number
  have hhash : e.document.index "hash" = .ok (.str (bytesHex root)) :=
    congrArg (fun s => Except.ok (Value.str s)) h.hash
  have hid : (A.manager C chainId size).chainId = chainId := rfl
  simp only [checkSnapshotArchive, hunpack, hpolicy, hversion, hchain, hheight, happ, hnumber, hhash, hid, h.stateRoot,
    validate_sortedPolicyJson, B.toInt_int, B.format_str, bind, Except.bind, require, if_true, pure, Except.pure]

end Archive

/-! ### The record -/

section Record

variable {M : SnapshotManager} {dir dir' : SnapshotDir} {archivePath : String} {archive : Bytes} {height : Int}
  {appHashHex exportedStateSha256 createdAt : String}

end Record

section Transfer

variable {A : ArchiveFormat} {B : Builtins} {C : Codec} {encode : Value → Value}
  {signOrigin : String → List (String × Value) → Except PyErr (String × String)} {chainId : String} {size size' : Int}
  {D : Type} [Driver D] {source : D} {contractState runState : PyDict String Value} {root : Bytes} {height nanos : Int}
  {founder : Option String} {archivePath createdAt : String} {force : Bool} {dir dir' : SnapshotDir}

end Transfer

/-! ### A state with a nonce -/

end XianAbci
