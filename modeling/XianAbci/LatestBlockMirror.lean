import XianAbci.ExportRoundTrip
import XianAbci.StateSyncInv

/-!
# The JSON mirror of the marker (`utils/block.py`, `xian_abci.py`, `state_export.py`)

The durable marker has a copy in `__latest_block.json`. The copy is written after the commit, a failed write is only
logged, and the next start repairs it. In between it is behind; `offer_snapshot` and `export_state` read the copy.
`heights_durable_iff` says for which copies they keep to the durable marker.
-/

namespace XianAbci

/-- `__latest_block.json`, as opening and parsing it turns out. -/
inductive MirrorFile
  | missing
  -- `json.JSONDecodeError`
  | garbled
  -- `OSError`, `UnicodeDecodeError`
  | unreadable (e : PyErr)
  | json (document : Value)

section Mirror

variable (B : Builtins)

/-- `_load_latest_block`; a missing file is created first, which may raise. -/
def loadLatestBlock (createError : Option PyErr) : MirrorFile → Except PyErr LatestBlock
  | .missing => match createError with
    | some e => .error e
    | none => .ok .default
  | .garbled => .error (.other "Error decoding __latest_block.json")
  | .unreadable e => .error e
  | .json document => normalizeLatestBlock B document

/-- `try_write_latest_block`: the file is replaced in one step, or an `OSError` leaves it. -/
def tryWriteLatestBlock (latestBlock : LatestBlock) (writeFails : Bool) (file : MirrorFile) : Bool × MirrorFile :=
  if writeFails then (false, file) else (true, .json latestBlock.value)

/-- `except (FileNotFoundError, json.JSONDecodeError, OSError, TypeError, ValueError)`. -/
def isMirrorError : PyErr → Bool
  | .typeError _ | .valueError _ | .fileNotFoundError _ => true
  | .other name => name = "OSError"
  | _ => false

/-- What `reconcile_latest_block` reads of the file, `none` where it gives it up. -/
def readMirror : MirrorFile → Except PyErr (Option LatestBlock)
  | .missing | .garbled => .ok none
  | .unreadable e => if isMirrorError e then .ok none else .error e
  | .json document => match normalizeLatestBlock B document with
    | .ok mirrored => .ok (some mirrored)
    | .error e => if isMirrorError e then .ok none else .error e

def reconcileLatestBlock (durable : PyDict String Value) (writeFails : Bool) (file : MirrorFile) :
    Except PyErr LatestBlock × MirrorFile :=
  match getCommittedLatestBlock B durable with
  | .error e => (.error e, file)
  | .ok committed => match readMirror B file with
    | .error e => (.error e, file)
    | .ok mirrored =>
      (.ok committed, if mirrored = some committed then file else (tryWriteLatestBlock committed writeFails file).2)

/-! ### The readers -/

variable (M : SnapshotManager) (signOrigin : String → List (String × Value) → Except PyErr (String × String))

/-- `offer_snapshot` of the application. -/
def offerSnapshot (createError : Option PyErr) (file : MirrorFile) (snapshot : Snapshot) (appHash : Bytes) :
    Except PyErr (OfferResult × Option IncomingSnapshotSession) := do
  let latestBlock ← loadLatestBlock B createError file
  return offerSnapshotResponse B M snapshot appHash latestBlock.height

/-- `get_all_contract_state()` and `get_run_state()`: the names of the run state start with `__`. -/
def fetchFilebasedState (durable : PyDict String Value) : PyDict String Value × PyDict String Value :=
  (durable.filter fun k _ => !startsWith k "__", durable.filter fun k _ => startsWith k "__")

/-- `export_state`, which gives `build_exported_state` no marker of its own. -/
def exportState (createError : Option PyErr) (founderPrivateKey : Option String) (durable : PyDict String Value)
    (file : MirrorFile) : Except PyErr ExportedState :=
  let (contractState, runState) := fetchFilebasedState durable
  buildExportedState B signOrigin founderPrivateKey contractState runState none none none
    (loadLatestBlock B createError file)

/-- Offers are compared with the height of a marker, and exports carry the marker. -/
structure KeepsTo (createError : Option PyErr) (durable : PyDict String Value) (file : MirrorFile)
    (committed : LatestBlock) : Prop where
  offers : ∀ snapshot appHash session, offerSnapshot B M createError file snapshot appHash = .ok (.accept, session) →
    committed.height < snapshot.height
  exports : ∀ founder e, exportState B signOrigin createError founder durable file = .ok e →
    e.number = .int committed.height ∧ e.nanos = .int committed.nanos ∧ bytesFromHex e.hash = bytesFromHex committed.hash

/-- The readers of the mirror keep to the durable marker. -/
def HeightsDurable (createError : Option PyErr) (durable : PyDict String Value) (file : MirrorFile) : Prop :=
  ∀ committed, loadCommittedLatestBlock B durable = .ok (some committed) →
    KeepsTo B M signOrigin createError durable file committed

/-- The document of a state, before it has a hash. -/
def exportDraft (durable : PyDict String Value) (m : LatestBlock) : ExportedState :=
  let (contractState, runState) := fetchFilebasedState durable
  let executionPolicy := (runState.get? executionPolicyKey).getD .none
  { hash := ""
    number := .int m.height
    nanos := .int m.nanos
    signature := ""
    sender := ""
    genesis := sortEntries ((contractState.items.filter fun p => p.2 ≠ .none) ++ [(executionPolicyKey, executionPolicy)])
    nonces := sortEntries ((runState.items.filter fun p => startsWith p.1 noncePrefix).map fun p =>
      (String.ofList (p.1.toList.drop 4), p.2)) }

/-- The checks of an export: the policy is the running one, and the mirror's app hash is the root of the state or
empty. -/
structure ExportPasses (durable : PyDict String Value) (m : LatestBlock) (stateRoot : Bytes) : Prop where
  policy : validateExecutionPolicy ((durable.get? executionPolicyKey).getD .none) = .ok ()
  root : computeExportedStateRoot B (exportDraft durable m).document = .ok stateRoot
  hash : ∃ hash, bytesFromHex m.hash = .ok hash ∧ (hash = [] ∨ hash = stateRoot)

/-- The metadata of an offer at a height, of an archive of zeros and an empty app hash. -/
def offerMetadata (height : Int) : List (String × Value) :=
  [("snapshot_format_version", .int snapshotFormatVersion), ("chain_id", .str M.chainId), ("height", .int height),
    ("app_hash", .str (bytesHex [])), ("archive_sha256", .str (bytesHex (List.replicate 32 0))),
    ("chunk_size", .int M.chunkSize), ("execution_policy", .dict currentExecutionPolicy)]

end Mirror

section Readers

variable {B : Builtins} {M : SnapshotManager} {createError : Option PyErr}
  {signOrigin : String → List (String × Value) → Except PyErr (String × String)} {durable : PyDict String Value}
  {file : MirrorFile} {committed m : LatestBlock}

/-! ### The mirror after a write and after a start -/

/-- A successful write leaves the marker itself. -/
theorem loadLatestBlock_written (latestBlock : LatestBlock) :
    loadLatestBlock B createError (tryWriteLatestBlock latestBlock false file).2 = .ok latestBlock :=
  normalizeLatestBlock_value latestBlock

/-- After a start whose write goes through the mirror is the durable marker. -/
theorem loadLatestBlock_reconciled {file' : MirrorFile}
    (h : reconcileLatestBlock B durable false file = (.ok committed, file')) :
    getCommittedLatestBlock B durable = .ok committed ∧ loadLatestBlock B createError file' = .ok committed := by
  unfold reconcileLatestBlock at h
  split at h
  · cases h
  rename_i committed' hcommitted
  split at h
  · cases h
  rename_i mirrored hmirrored
  cases h
  refine ⟨hcommitted, ?_⟩
  split
  · rename_i hsame
    rw [hsame] at hmirrored
    unfold readMirror at hmirrored
    cases file with
    | missing => cases hmirrored
    | garbled => cases hmirrored
    | unreadable e =>
      dsimp only at hmirrored
      split at hmirrored <;> cases hmirrored
    | json document =>
      dsimp only at hmirrored
      split at hmirrored
      · rename_i b hb
        cases hmirrored
        exact hb
      · split at hmirrored <;> cases hmirrored
  · exact loadLatestBlock_written committed

/-! ### Offers -/

theorem offerSnapshot_eq_ok {snapshot : Snapshot} {appHash : Bytes}
    {r : OfferResult × Option IncomingSnapshotSession} : offerSnapshot B M createError file snapshot appHash = .ok r ↔
      ∃ m, loadLatestBlock B createError file = .ok m ∧ offerSnapshotResponse B M snapshot appHash m.height = r := by
  unfold offerSnapshot
  rw [bind_eq_ok]
  exact exists_congr fun m => and_congr_right fun _ => ⟨fun h => Except.ok.inj h, fun h => congrArg Except.ok h⟩

theorem offerSnapshotResponse_accept {snapshot : Snapshot} {appHash : Bytes} {currentHeight : Int}
    {session : Option IncomingSnapshotSession}
    (h : offerSnapshotResponse B M snapshot appHash currentHeight = (.accept, session)) :
    currentHeight < snapshot.height := by
  by_contra hle
  unfold offerSnapshotResponse at h
  split at h
  · cases h
  · rw [if_pos (not_lt.1 hle)] at h
    cases h

/-- At every height above the mirror's an offer can be made that is accepted. -/
theorem offer_accepted (hchunk : 0 < M.chunkSize) {height currentHeight : Int} {metadata : Bytes}
    (hmetadata : M.jsonLoads metadata = .ok (.dict (offerMetadata M height))) (habove : currentHeight < height) :
    ∃ session, offerSnapshotResponse B M ⟨height, snapshotFormatVersion, 1, List.replicate 32 0, metadata⟩ []
      currentHeight = (.accept, session) := by
  have hpolicy : validateExecutionPolicy (.dict currentExecutionPolicy) = .ok () := by decide +kernel
  have hread : readOfferMetadata B M metadata = .ok (.dict (offerMetadata M height), height, M.chunkSize) := by
    unfold readOfferMetadata
    rw [hmetadata]
    dsimp only [bind, Except.bind]
    rw [show (Value.dict (offerMetadata M height)).get "execution_policy" .none = .ok (.dict currentExecutionPolicy) from rfl,
      show (Value.dict (offerMetadata M height)).get "height" (.int (-1)) = .ok (.int height) from rfl,
      show (Value.dict (offerMetadata M height)).get "chunk_size" (.int 0) = .ok (.int M.chunkSize) from rfl]
    dsimp only
    rw [hpolicy, B.toInt_int, B.toInt_int]
    rfl
  have hversion : metadataField (.dict (offerMetadata M height)) "snapshot_format_version" = .int snapshotFormatVersion := rfl
  have hchain : metadataField (.dict (offerMetadata M height)) "chain_id" = .str M.chainId := rfl
  have harchive : metadataField (.dict (offerMetadata M height)) "archive_sha256" =
      .str (bytesHex (List.replicate 32 0)) := rfl
  have happ : metadataField (.dict (offerMetadata M height)) "app_hash" = .str (bytesHex []) := rfl
  have hbounds : ¬ (M.chunkSize ≤ 0 ∨ M.chunkSize < M.chunkSize) := by omega
  unfold offerSnapshotResponse
  dsimp only
  rw [hread]
  dsimp only
  rw [hversion, hchain, harchive, happ, B.eq_refl, if_neg (not_le.2 habove), if_neg hbounds]
  simp

/-! ### Exports -/

theorem exportMarker_mirror {hash : Bytes} {height nanos : Int} {mirror : Except PyErr LatestBlock} :
    exportMarker none none none mirror = .ok (hash, height, nanos) ↔
      ∃ m, mirror = .ok m ∧ bytesFromHex m.hash = .ok hash ∧ m.height = height ∧ m.nanos = nanos := by
  cases mirror with
  | error e =>
    refine iff_of_false (fun h => ?_) fun ⟨m, h, _⟩ => by cases h
    cases h
  | ok m =>
    simp only [exportMarker, getLatestBlockHash, bind_eq_ok, Except.map]
    constructor
    · rintro ⟨hash', ⟨m', hm', hhash⟩, height', hheight, nanos', hnanos, h⟩
      cases hm'
      cases hheight
      cases hnanos
      cases h
      exact ⟨m, rfl, hhash, rfl, rfl⟩
    · rintro ⟨m', hm', hhash, rfl, rfl⟩
      cases hm'
      exact ⟨hash, ⟨m, rfl, hhash⟩, _, rfl, _, rfl, rfl⟩

theorem runState_policy (durable : PyDict String Value) :
    (fetchFilebasedState durable).2.get? executionPolicyKey = durable.get? executionPolicyKey := by
  show (durable.filter fun k _ => startsWith k "__").get? executionPolicyKey = _
  rw [PyDict.get?_filter]
  cases durable.get? executionPolicyKey with
  | none => rfl
  | some v => rfl

/-- An export goes through where the checks pass, and carries the mirror's height and time and the state's root. -/
theorem exportState_ok {founder : Option String} {e : ExportedState}
    (h : exportState B signOrigin createError founder durable file = .ok e) :
    ∃ m root, loadLatestBlock B createError file = .ok m ∧ ExportPasses B durable m root ∧ e.number = .int m.height ∧
      e.nanos = .int m.nanos ∧ e.hash = bytesHex root := by
  obtain ⟨hash, height, nanos, root, hmarker, hvalid, hparts, hnumber, hnanos, hhash, hitems, hguard⟩ :=
    buildExportedState_eq_ok (show buildExportedState B signOrigin founder (fetchFilebasedState durable).1
      (fetchFilebasedState durable).2 none none none (loadLatestBlock B createError file) = .ok e from h)
  obtain ⟨m, hm, hbytes, rfl, rfl⟩ := exportMarker_mirror.1 hmarker
  rw [runState_policy] at hvalid
  refine ⟨m, root, hm, ⟨hvalid, ?_, hash, hbytes, hguard⟩, hnumber, hnanos, hhash⟩
  rw [computeExportedStateRoot, exportedStateItems_document]
  rw [show (exportDraft durable m).items = e.items from ?_]
  · exact hitems
  · unfold ExportedState.items
    rw [hparts.genesis, hparts.nonces]
    rfl

theorem exportState_of_passes (signOrigin : String → List (String × Value) → Except PyErr (String × String))
    {root : Bytes} (hm : loadLatestBlock B createError file = .ok m)
    (hpasses : ExportPasses B durable m root) :
    ∃ e, exportState B signOrigin createError none durable file = .ok e ∧ e.number = .int m.height ∧
      e.nanos = .int m.nanos ∧ e.hash = bytesHex root := by
  obtain ⟨hpolicy, hroot, hash, hbytes, hguard⟩ := hpasses
  have hmarker : exportMarker none none none (loadLatestBlock B createError file) = .ok (hash, m.height, m.nanos) :=
    exportMarker_mirror.2 ⟨m, hm, hbytes, rfl, rfl⟩
  unfold exportState buildExportedState
  dsimp only
  rw [runState_policy, hpolicy, hmarker]
  dsimp only [bind, Except.bind]
  have hdraft := hroot
  unfold exportDraft at hdraft
  dsimp only at hdraft
  rw [runState_policy] at hdraft
  rw [hdraft]
  dsimp only
  rw [require, if_pos hguard]
  exact ⟨_, rfl, rfl, rfl, rfl⟩

theorem keepsTo_iff (hchunk : 0 < M.chunkSize)
    (hloads : ∀ height, ∃ metadata, M.jsonLoads metadata = .ok (.dict (offerMetadata M height))) :
    KeepsTo B M signOrigin createError durable file committed ↔
      ∀ m, loadLatestBlock B createError file = .ok m → committed.height ≤ m.height ∧
        ∀ root, ExportPasses B durable m root → m.height = committed.height ∧ m.nanos = committed.nanos ∧
          bytesFromHex committed.hash = .ok root := by
  constructor
  · rintro ⟨hoffers, hexports⟩ m hm
    constructor
    · -- an offer at the durable height itself is accepted where the mirror is behind
      by_contra hbehind
      obtain ⟨metadata, hmetadata⟩ := hloads committed.height
      obtain ⟨session, haccept⟩ := offer_accepted (B := B) hchunk hmetadata (not_le.1 hbehind)
      exact lt_irrefl _ (hoffers _ _ _ (offerSnapshot_eq_ok.2 ⟨m, hm, haccept⟩))
    · intro root hpasses
      obtain ⟨e, he, hnumber, hnanos, hhash⟩ := exportState_of_passes signOrigin hm hpasses
      obtain ⟨hheight, htime, hroot⟩ := hexports none e he
      rw [hhash, bytesFromHex_bytesHex] at hroot
      exact ⟨Value.int.inj (hnumber.symm.trans hheight), Value.int.inj (hnanos.symm.trans htime), hroot.symm⟩
  · intro hmirror
    constructor
    · intro snapshot appHash session h
      obtain ⟨m, hm, haccept⟩ := offerSnapshot_eq_ok.1 h
      exact (hmirror m hm).1.trans_lt (offerSnapshotResponse_accept haccept)
    · intro founder e he
      obtain ⟨m, root, hm, hpasses, hnumber, hnanos, hhash⟩ := exportState_ok he
      obtain ⟨hheight, htime, hroot⟩ := (hmirror m hm).2 root hpasses
      rw [hnumber, hnanos, hhash, bytesFromHex_bytesHex, hheight, htime, hroot]
      exact ⟨rfl, rfl, rfl⟩

/-- For every store and every content of the mirror: the readers of the mirror keep to the durable marker exactly when
the mirror cannot be read or is not behind in height, and, where its app hash lets an export through, has the marker's
height and time, and the marker has the state's root. -/
theorem heights_durable_iff (B : Builtins) (M : SnapshotManager)
    (signOrigin : String → List (String × Value) → Except PyErr (String × String)) (createError : Option PyErr)
    (durable : PyDict String Value) (file : MirrorFile) (hchunk : 0 < M.chunkSize)
    (hloads : ∀ height, ∃ metadata, M.jsonLoads metadata = .ok (.dict (offerMetadata M height))) :
    HeightsDurable B M signOrigin createError durable file ↔
      ∀ committed m, loadCommittedLatestBlock B durable = .ok (some committed) →
        loadLatestBlock B createError file = .ok m → committed.height ≤ m.height ∧
        ∀ root, ExportPasses B durable m root → m.height = committed.height ∧ m.nanos = committed.nanos ∧
          bytesFromHex committed.hash = .ok root := by
  refine forall_congr' fun committed => ?_
  rw [forall_comm]
  exact forall_congr' fun _ => keepsTo_iff hchunk hloads

/-- A mirror that is the marker, with the root of the state for its app hash, is kept to. -/
theorem heightsDurable_of_current (hchunk : 0 < M.chunkSize)
    (hloads : ∀ height, ∃ metadata, M.jsonLoads metadata = .ok (.dict (offerMetadata M height)))
    (hmarker : loadCommittedLatestBlock B durable = .ok (some m)) (hmirror : loadLatestBlock B createError file = .ok m)
    (hhash : bytesFromHex m.hash ≠ .ok []) : HeightsDurable B M signOrigin createError durable file := by
  intro committed hcommitted
  cases hmarker.symm.trans hcommitted
  refine (keepsTo_iff hchunk hloads).2 fun m' hm' => ?_
  cases hmirror.symm.trans hm'
  refine ⟨le_rfl, fun root hpasses => ⟨rfl, rfl, ?_⟩⟩
  obtain ⟨hash, hbytes, hempty | hroot⟩ := hpasses.hash
  · exact absurd (hempty ▸ hbytes) hhash
  · exact hroot ▸ hbytes

end Readers

/-! ### An empty block whose mirror is not written -/

/-- A manager that reads the metadata of its offers. -/
def readingManager : SnapshotManager where
  chainId := "xian-1"
  chunkSize := 4194304
  jsonLoads b := do
    let text ← decodeUtf8 b
    return jsonValue (← loads text.toList)
  unpack _ := .ok peerFiles

def offerJson (height : Int) : Json :=
  .obj [("snapshot_format_version", .int 2), ("chain_id", .str "xian-1"), ("height", .int height),
    ("app_hash", .str (bytesHex [])), ("archive_sha256", .str (bytesHex (List.replicate 32 0))),
    ("chunk_size", .int 4194304), ("execution_policy", .obj [("execution_revision", .str vmExecutionRevision),
      ("gas_schedule", .str vmGasSchedule), ("bytecode_version", .str vmBytecodeVersion), ("set_codec", .str setCodec)])]

theorem readingManager_loads (height : Int) :
    ∃ metadata, readingManager.jsonLoads metadata = .ok (.dict (offerMetadata readingManager height)) := by
  have hreadable : (offerJson height).readable = true := by
    simp only [offerJson, Json.readable, Json.readableEntries, Bool.and_true, List.map_cons, List.map_nil]
    decide
  refine ⟨encodeStr (String.ofList (dumps (offerJson height))), ?_⟩
  show (decodeUtf8 _ >>= fun text => loads text.toList >>= fun j => Except.ok (jsonValue j)) = _
  rw [decodeUtf8_eq_ok.2 rfl]
  show (loads (String.ofList (dumps (offerJson height))).toList >>= fun j => Except.ok (jsonValue j)) = _
  rw [String.toList_ofList, loads_dumps hreadable]
  rfl

/-- Block 8 changes nothing but the marker. -/
def emptyBlockMarker : LatestBlock := ⟨bytesHex nonceRoot, 8, 2⟩

theorem loadCommitted_nonceState (height nanos : Int) :
    loadCommittedLatestBlock .plain (nonceState ⟨bytesHex nonceRoot, height, nanos⟩) =
      .ok (some ⟨bytesHex nonceRoot, height, nanos⟩) := by
  have hmarker := normalizeLatestBlock_value (B := .plain) ⟨bytesHex nonceRoot, height, nanos⟩
  unfold loadCommittedLatestBlock
  rw [show (nonceState ⟨bytesHex nonceRoot, height, nanos⟩).get? latestBlockKey =
    some (LatestBlock.value ⟨bytesHex nonceRoot, height, nanos⟩) by rw [nonceState, PyDict.get?_set, if_pos rfl]]
  rw [LatestBlock.value] at hmarker ⊢
  dsimp only
  rw [hmarker]
  dsimp only [bind, Except.bind]
  rw [bytesFromHex_bytesHex]
  rfl

theorem nonceRoot_ne_nil : nonceRoot ≠ [] := by
  intro hnil
  have hlength : nonceRoot.length = 32 := by decide +kernel
  rw [hnil] at hlength
  cases hlength

/-- After a block whose mirror is written the readers keep to the marker. -/
theorem heights_durable_nonceState :
    HeightsDurable .plain readingManager noSignature none (nonceState nonceMarker) (.json nonceMarker.value) := by
  refine (heights_durable_iff .plain readingManager noSignature none (nonceState nonceMarker) (.json nonceMarker.value)
    (by decide) readingManager_loads).2 fun committed m hcommitted hm => ?_
  cases (loadCommitted_nonceState 7 1).symm.trans hcommitted
  cases (normalizeLatestBlock_value nonceMarker).symm.trans hm
  refine ⟨le_rfl, fun root hpasses => ⟨rfl, rfl, ?_⟩⟩
  obtain ⟨hash, hbytes, hempty | hroot⟩ := hpasses.hash
  · cases (bytesFromHex_bytesHex nonceRoot).symm.trans hbytes
    exact absurd hempty nonceRoot_ne_nil
  · exact hroot ▸ hbytes

theorem exportSource_fetch (durable : PyDict String Value) :
    ExportSource durable (fetchFilebasedState durable).1 (fetchFilebasedState durable).2 := by
  constructor
  · intro k v
    show (durable.filter fun k _ => !startsWith k "__").get? k = some v ↔ _
    rw [PyDict.get?_filter]
    simp [Option.filter_eq_some_iff]
  · intro k v
    show (durable.filter fun k _ => startsWith k "__").get? k = some v ↔ _
    rw [PyDict.get?_filter]
    simp [Option.filter_eq_some_iff]

/-- The mirror is left at block 7: a snapshot of the committed height 8 is accepted, and the export says 7. -/
theorem emptyBlock_mirror_behind :
    let file := (tryWriteLatestBlock emptyBlockMarker true (.json nonceMarker.value)).2
    loadCommittedLatestBlock .plain (nonceState emptyBlockMarker) = .ok (some emptyBlockMarker) ∧
      (∃ snapshot session, offerSnapshot .plain readingManager none file snapshot [] = .ok (.accept, session) ∧
        snapshot.height = emptyBlockMarker.height) ∧
      ∃ e, exportState .plain noSignature none none (nonceState emptyBlockMarker) file = .ok e ∧ e.number = .int 7 := by
  have hmirror : loadLatestBlock .plain none (.json nonceMarker.value) = .ok nonceMarker :=
    normalizeLatestBlock_value nonceMarker
  refine ⟨loadCommitted_nonceState 8 2, ?_, ?_⟩
  · obtain ⟨metadata, hmetadata⟩ := readingManager_loads 8
    obtain ⟨session, haccept⟩ := offer_accepted (B := .plain) (by decide) hmetadata (show (7 : Int) < 8 by decide)
    exact ⟨_, session, offerSnapshot_eq_ok.2 ⟨nonceMarker, hmirror, haccept⟩, rfl⟩
  · have hpolicy : (nonceState emptyBlockMarker).get? executionPolicyKey = some policyValue := by
      rw [nonceState, PyDict.get?_set, if_neg (by decide)]
      decide +kernel
    have hparts : (exportDraft (nonceState emptyBlockMarker) nonceMarker).Parts (fetchFilebasedState
        (nonceState emptyBlockMarker)).1 (fetchFilebasedState (nonceState emptyBlockMarker)).2 policyValue := by
      have hdraft : ((fetchFilebasedState (nonceState emptyBlockMarker)).2.get? executionPolicyKey).getD .none =
          policyValue := by rw [runState_policy, hpolicy, Option.getD_some]
      constructor
      · unfold exportDraft
        dsimp only
        rw [hdraft]
      · rfl
    have hroot := merkleRootFromItems_exported
      (injOn_nonceKeys.mono (consensusKeys_nonceState emptyBlockMarker)) (computeDriverStateRoot_nonceState emptyBlockMarker)
      (fun k v hv => (committedValues_nonceState emptyBlockMarker k v hv).1)
      (exportSource_fetch (nonceState emptyBlockMarker)) hpolicy hparts
    have hpasses : ExportPasses .plain (nonceState emptyBlockMarker) nonceMarker nonceRoot := by
      refine ⟨?_, ?_, nonceRoot, bytesFromHex_bytesHex nonceRoot, .inr rfl⟩
      · rw [hpolicy]
        decide +kernel
      · rw [computeExportedStateRoot, exportedStateItems_document]
        exact hroot
    obtain ⟨e, he, hnumber, -⟩ := exportState_of_passes noSignature hmirror hpasses
    exact ⟨e, he, hnumber⟩

end XianAbci
