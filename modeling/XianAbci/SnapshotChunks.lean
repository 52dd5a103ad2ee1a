import XianAbci.StateSyncInv
import XianAbci.ExecutionPolicy
import XianAbci.Lib.Binary64

/-!
# Snapshot chunks (`services/state_sync.py`)

A stored archive is announced with a number of chunks, served by reading the file at multiples of the chunk size,
and assembled again by a peer that appends what it accepts. The number of chunks is the ceiling of a floating-point
quotient. Where the quotient is rounded down onto a whole number the last chunk is not announced, and the peer
imports an archive that lacks its end; what the peer assembles is the accepted chunks in order, whoever sends them.

The snapshot directory is the archives and manifests by the archive's name.
-/

namespace XianAbci

/-- What a manifest says of the archive at `path`. -/
structure SnapshotRecord where
  path : String
  height : Int
  format : Int
  chunks : Int
  appHashHex : String
  snapshotHashHex : String
  chunkSize : Int
  metadata : Value
  createdAt : String

def defaultChunkSize : Int := 4 * 1024 * 1024

structure SnapshotDir where
  archives : PyDict String Bytes
  manifests : PyDict String SnapshotRecord

/-- `a / b` of two integers. -/
def trueDivision (a b : Int) : Except PyErr ℚ := do
  require (b ≠ 0) (.other "division by zero")
  let quotient := Binary64.nearest (a / b)
  require (|quotient| < 2 ^ 1024) (.other "integer division result too large for a float")
  return quotient

/-- `handle.seek(offset)` and `handle.read(size)`; a negative size reads to the end. -/
def readAt (file : Bytes) (offset size : Int) : Bytes :=
  if size < 0 then file.drop offset.toNat else (file.drop offset.toNat).take size.toNat

section Directory

variable (M : SnapshotManager) (dir : SnapshotDir)

def manifestName (archiveName : String) : String := archiveName ++ ".manifest.json"

/-- `list_snapshot_records`: manifests without their archive are ignored. -/
def listSnapshotRecords : List SnapshotRecord :=
  let manifests := dir.manifests.items.mergeSort fun a b => decide (manifestName b.1 ≤ manifestName a.1)
  let records := (manifests.filter fun p => dir.archives.contains p.1).map fun p => { p.2 with path := p.1 }
  records.mergeSort fun a b => decide (b.height < a.height ∨ b.height = a.height ∧ b.createdAt ≤ a.createdAt)

def servedRecord (height formatVersion : Int) : Option SnapshotRecord :=
  (listSnapshotRecords dir).find? fun candidate => decide (candidate.height = height ∧ candidate.format = formatVersion)

/-- `_cleanup_existing_height`. -/
def cleanupExistingHeight (height formatVersion : Int) : SnapshotDir :=
  ((listSnapshotRecords dir).filter fun record => decide (record.height = height ∧ record.format = formatVersion)).foldl
    (fun dir record => ⟨dir.archives.erase record.path, dir.manifests.erase record.path⟩) dir

/-- `_build_offer_metadata`. -/
def buildOfferMetadata (height : Int) (appHashHex exportedStateSha256 archiveSha256 : String) : Value :=
  .dict [("snapshot_format_version", .int snapshotFormatVersion), ("execution_policy", .dict currentExecutionPolicy),
    ("chain_id", .str M.chainId), ("height", .int height), ("app_hash", .str appHashHex),
    ("chunk_size", .int M.chunkSize), ("archive_sha256", .str archiveSha256),
    ("exported_state_sha256", .str exportedStateSha256)]

/-- The record of an archive, with the number of chunks from the quotient of the two sizes. -/
def snapshotRecord (archivePath : String) (height : Int) (appHashHex archiveSha256 exportedStateSha256 createdAt : String)
    (quotient : ℚ) : SnapshotRecord where
  path := archivePath
  height := height
  format := snapshotFormatVersion
  chunks := max 1 ⌈quotient⌉
  appHashHex := appHashHex
  snapshotHashHex := archiveSha256
  chunkSize := M.chunkSize
  metadata := buildOfferMetadata M height appHashHex exportedStateSha256 archiveSha256
  createdAt := createdAt

/-- `_write_manifest` for an archive of the directory. -/
def writeManifest (archivePath : String) (height : Int) (appHashHex archiveSha256 exportedStateSha256 createdAt : String) :
    Except PyErr SnapshotDir := do
  match dir.archives.get? archivePath with
  | none => throw (.fileNotFoundError "No such file or directory")
  | some archive =>
    let quotient ← trueDivision archive.length M.chunkSize
    let record := snapshotRecord M archivePath height appHashHex archiveSha256 exportedStateSha256 createdAt quotient
    return { dir with manifests := dir.manifests.set archivePath record }

/-- How an export or an import ends: the archive replaces the stored snapshots of its height. -/
def storeSnapshot (archivePath : String) (archive : Bytes) (height : Int)
    (appHashHex exportedStateSha256 createdAt : String) : Except PyErr SnapshotDir :=
  let dir := cleanupExistingHeight dir height snapshotFormatVersion
  writeManifest M { dir with archives := dir.archives.set archivePath archive } archivePath height appHashHex
    (sha256Hex archive) exportedStateSha256 createdAt

/-- `load_snapshot_chunk_response`. -/
def loadSnapshotChunkResponse (height formatVersion chunkIndex : Int) : Bytes :=
  match servedRecord dir height formatVersion with
  | none => []
  | some record =>
    if chunkIndex < 0 ∨ record.chunks ≤ chunkIndex then []
    else match dir.archives.get? record.path with
      | none => []
      | some archive => readAt archive (chunkIndex * record.chunkSize) record.chunkSize

end Directory

/-! ### The record that is served -/

section Served

variable {M : SnapshotManager} {dir : SnapshotDir}

theorem mem_listSnapshotRecords {record : SnapshotRecord} :
    record ∈ listSnapshotRecords dir ↔ dir.archives.contains record.path ∧
      ∃ manifest, dir.manifests.get? record.path = some manifest ∧ record = { manifest with path := record.path } := by
  unfold listSnapshotRecords
  simp only [List.mem_mergeSort, List.mem_map, List.mem_filter, Prod.exists]
  constructor
  · rintro ⟨path, manifest, ⟨hmem, harchive⟩, rfl⟩
    exact ⟨harchive, manifest, PyDict.mem_items_iff.1 hmem, rfl⟩
  · rintro ⟨harchive, manifest, hget, hrecord⟩
    exact ⟨record.path, manifest, ⟨PyDict.mem_items_iff.2 hget, harchive⟩, hrecord.symm⟩

/-- Erasing the archives of some records leaves the others. -/
theorem mem_foldl_erase {records : List SnapshotRecord} {record : SnapshotRecord}
    (h : record ∈ listSnapshotRecords (records.foldl (fun dir record =>
      ⟨dir.archives.erase record.path, dir.manifests.erase record.path⟩) dir)) :
    record ∈ listSnapshotRecords dir ∧ ∀ r ∈ records, r.path ≠ record.path := by
  induction records generalizing dir with
  | nil => exact ⟨h, fun r hr => (by cases hr)⟩
  | cons first records ih =>
    obtain ⟨hmem, hrest⟩ := ih h
    rw [mem_listSnapshotRecords, PyDict.contains, PyDict.get?_erase, PyDict.get?_erase] at hmem
    by_cases hpath : record.path = first.path
    · rw [if_pos hpath] at hmem
      cases hmem.1
    · rw [if_neg hpath, if_neg hpath] at hmem
      refine ⟨mem_listSnapshotRecords.2 hmem, ?_⟩
      rintro r (_ | ⟨_, hr⟩)
      · exact fun h => hpath h.symm
      · exact hrest r hr

theorem not_mem_cleanup {height formatVersion : Int} {record : SnapshotRecord}
    (h : record ∈ listSnapshotRecords (cleanupExistingHeight dir height formatVersion)) :
    ¬ (record.height = height ∧ record.format = formatVersion) := by
  intro hmatch
  obtain ⟨hmem, hpaths⟩ := mem_foldl_erase h
  exact hpaths record (List.mem_filter.2 ⟨hmem, decide_eq_true hmatch⟩) rfl

theorem find?_unique {l : List SnapshotRecord} {p : SnapshotRecord → Bool} {a : SnapshotRecord} (ha : a ∈ l)
    (hp : p a = true) (hunique : ∀ b ∈ l, p b = true → b = a) : l.find? p = some a := by
  obtain ⟨b, hb⟩ := Option.isSome_iff_exists.1 (List.find?_isSome.2 ⟨a, ha, hp⟩)
  rw [hb, hunique b (List.mem_of_find?_eq_some hb) (List.find?_some hb)]

variable {archivePath : String} {archive : Bytes} {height : Int}
  {appHashHex exportedStateSha256 createdAt : String} {dir' : SnapshotDir}

/-- What is announced and served of a stored archive. -/
structure Serves (M : SnapshotManager) (dir : SnapshotDir) (height : Int) (archive : Bytes) (record : SnapshotRecord)
    (quotient : ℚ) : Prop where
  divides : trueDivision archive.length M.chunkSize = .ok quotient
  served : servedRecord dir height snapshotFormatVersion = some record
  chunks : record.chunks = max 1 ⌈quotient⌉
  chunkSize : record.chunkSize = M.chunkSize
  stored : dir.archives.get? record.path = some archive

theorem storeSnapshot_serves
    (h : storeSnapshot M dir archivePath archive height appHashHex exportedStateSha256 createdAt = .ok dir') :
    ∃ record quotient, Serves M dir' height archive record quotient := by
  unfold storeSnapshot writeManifest at h
  simp only [PyDict.get?_set, ↓reduceIte, bind_eq_ok] at h
  obtain ⟨quotient, hquotient, hdir⟩ := h
  generalize hstored : snapshotRecord M archivePath height appHashHex (sha256Hex archive) exportedStateSha256 createdAt
    quotient = stored at hdir
  have hpath : stored.path = archivePath := by rw [← hstored]; rfl
  have hmatch : stored.height = height ∧ stored.format = snapshotFormatVersion := by rw [← hstored]; exact ⟨rfl, rfl⟩
  obtain rfl := Except.ok.inj hdir
  refine ⟨stored, quotient, hquotient, ?_, by rw [← hstored]; rfl, by rw [← hstored]; rfl, ?_⟩
  · refine find?_unique ?_ (decide_eq_true hmatch) ?_
    · refine mem_listSnapshotRecords.2 ⟨?_, stored, ?_, rfl⟩
      · rw [hpath, PyDict.contains, PyDict.get?_set, if_pos rfl]
        rfl
      · rw [hpath, PyDict.get?_set, if_pos rfl]
    · -- another snapshot of the height would have been removed
      intro record hrecord hsame
      obtain ⟨harchive, manifest, hmanifest, heq⟩ := mem_listSnapshotRecords.1 hrecord
      by_cases hother : record.path = archivePath
      · rw [hother, PyDict.get?_set, if_pos rfl] at hmanifest
        rw [heq, ← Option.some.inj hmanifest, hother, ← hpath]
      · rw [PyDict.contains, PyDict.get?_set, if_neg hother] at harchive
        rw [PyDict.get?_set, if_neg hother] at hmanifest
        refine absurd (of_decide_eq_true hsame) (not_mem_cleanup (mem_listSnapshotRecords.2 ⟨?_, manifest, hmanifest, heq⟩))
        exact harchive
  · rw [hpath, PyDict.get?_set, if_pos rfl]

end Served

/-! ### Reading the chunks back -/

section Reassembly

variable {M : SnapshotManager} {dir : SnapshotDir} {height : Int} {archive : Bytes} {record : SnapshotRecord} {quotient : ℚ}

theorem flatMap_take_drop {α : Type} (l : List α) (size n : Nat) :
    ((List.range n).flatMap fun i => (l.drop (i * size)).take size) = l.take (n * size) := by
  induction n with
  | zero => rw [Nat.zero_mul, List.take_zero]; rfl
  | succ n ih =>
    rw [List.range_succ, List.flatMap_append, ih, Nat.succ_mul, List.take_add]
    rw [List.flatMap_cons, List.flatMap_nil, List.append_nil]

theorem Serves.chunk (h : Serves M dir height archive record quotient) (hsize : 0 < M.chunkSize) {i : Nat}
    (hi : i < record.chunks.toNat) : loadSnapshotChunkResponse dir height snapshotFormatVersion i =
      (archive.drop (i * M.chunkSize.toNat)).take M.chunkSize.toNat := by
  have hrange : ¬ ((i : Int) < 0 ∨ record.chunks ≤ i) := by omega
  have hoffset : ((i : Int) * M.chunkSize).toNat = i * M.chunkSize.toNat := by
    rw [Int.toNat_mul (by omega) hsize.le, Int.toNat_natCast]
  simp only [loadSnapshotChunkResponse, h.served, h.stored, if_neg hrange, readAt, h.chunkSize]
  rw [if_neg (not_lt.2 hsize.le), hoffset]

theorem Serves.reassembled (h : Serves M dir height archive record quotient) (hsize : 0 < M.chunkSize) :
    ((List.range record.chunks.toNat).flatMap fun i : Nat => loadSnapshotChunkResponse dir height snapshotFormatVersion i) =
      archive.take (record.chunks.toNat * M.chunkSize.toNat) := by
  rw [← flatMap_take_drop]
  exact List.flatMap_congr fun i hi => h.chunk hsize (List.mem_range.1 hi)

/-- All of the archive is announced, unless the quotient of the sizes is rounded down onto a whole number. -/
theorem Serves.complete_iff (h : Serves M dir height archive record quotient) (hsize : 0 < M.chunkSize) :
    archive.length ≤ record.chunks.toNat * M.chunkSize.toNat ↔
      ¬ Binary64.RoundsOntoBelow (archive.length / M.chunkSize) := by
  have hquotient : quotient = Binary64.nearest (archive.length / M.chunkSize) := by
    have hdivides := h.divides
    simp only [trueDivision, bind_eq_ok, require_eq_ok] at hdivides
    obtain ⟨_, -, _, -, hq⟩ := hdivides
    exact_mod_cast (Except.ok.inj hq).symm
  have hpos : (0 : ℚ) < M.chunkSize := Int.cast_pos.2 hsize
  have hchunks : 1 ≤ record.chunks := by rw [h.chunks]; exact le_max_left _ _
  have hnat : archive.length ≤ record.chunks.toNat * M.chunkSize.toNat ↔
      (archive.length : Int) ≤ record.chunks * M.chunkSize := by
    rw [← Nat.cast_le (α := Int), Nat.cast_mul, Int.toNat_of_nonneg (by omega), Int.toNat_of_nonneg hsize.le]
  have hceil : (archive.length : Int) ≤ record.chunks * M.chunkSize ↔
      ⌈(archive.length / M.chunkSize : ℚ)⌉ ≤ record.chunks := by
    rw [Int.ceil_le, div_le_iff₀ hpos]
    exact_mod_cast Iff.rfl
  rw [hnat, hceil, h.chunks, hquotient, ← Binary64.ceil_nearest_lt_iff, not_lt]

theorem Serves.reassembled_iff (h : Serves M dir height archive record quotient) (hsize : 0 < M.chunkSize) :
    ((List.range record.chunks.toNat).flatMap fun i : Nat => loadSnapshotChunkResponse dir height snapshotFormatVersion i) =
      archive ↔ ¬ Binary64.RoundsOntoBelow (archive.length / M.chunkSize) := by
  rw [h.reassembled hsize, List.take_eq_self_iff, h.complete_iff hsize]

end Reassembly

/-! ### What a session assembles -/

section Assembly

variable {B : Builtins} {M : SnapshotManager} {D : Type} [Driver D]

/-- The archive a call completes, which is hashed and imported. -/
def assembledBy (session : Option IncomingSnapshotSession) : SyncCall → Option Bytes
  | .offer _ _ _ => none
  | .apply index chunk _ =>
    match session with
    | none => none
    | some session =>
      if index = session.nextIndex ∧ 0 ≤ index ∧ index < session.expectedChunks ∧
          chunk.length ≤ session.expectedChunkSize ∧ session.expectedChunks ≤ session.nextIndex + 1 then
        some (session.archive ++ chunk)
      else none

def SyncEvent.assembled (e : SyncEvent D) : Option Bytes := assembledBy e.before.session e.call

/-- The chunks accepted since the last accepted offer, with their indices. -/
def SyncEvent.receive (accepted : List (Int × Bytes)) (e : SyncEvent D) : List (Int × Bytes) :=
  match e.call, e.response with
  | .offer _ _ _, .offer .accept => []
  | .apply index chunk _, .apply .accept => accepted ++ [(index, chunk)]
  | _, _ => accepted

def acceptedChunks (events : List (SyncEvent D)) : List (Int × Bytes) := events.foldl SyncEvent.receive []

/-- The session holds the accepted chunks, which came at the indices 0, 1, 2, … -/
structure Received (s : SyncState D) (accepted : List (Int × Bytes)) (session : IncomingSnapshotSession) : Prop where
  archive : session.archive = accepted.flatMap Prod.snd
  indices : accepted.map Prod.fst = (List.range accepted.length).map Int.ofNat
  next : session.nextIndex = accepted.length
  open_ : session.nextIndex < session.expectedChunks
  announced : ∃ snapshot appHash, s.offered = some (snapshot, appHash) ∧ session.expectedChunks = snapshot.chunks

/-- One call either leaves the session alone, ends it, or appends an accepted chunk to it. -/
theorem applySnapshotChunk_cases (session : Option IncomingSnapshotSession) (index : Int) (chunk : Bytes) (io : SyncIo)
    (storage : D) {result : ApplyResult} {session' : Option IncomingSnapshotSession} {storage' : D}
    (h : applySnapshotChunkResponse B M session index chunk io storage = (result, session', storage')) :
    (session' = session ∧ result ≠ .accept ∧ storage' = storage ∧ assembledBy session (.apply index chunk io) = none) ∨
    (session' = none ∧ result = .rejectSnapshot ∧ storage' = storage ∧
      assembledBy session (.apply index chunk io) = none) ∨
    ∃ s t, session = some s ∧ index = s.nextIndex ∧
      t = { s with archive := s.archive ++ chunk, nextIndex := s.nextIndex + 1 } ∧
      ((session' = some t ∧ result = .accept ∧ storage' = storage ∧ t.nextIndex < t.expectedChunks ∧
          assembledBy session (.apply index chunk io) = none) ∨
        (session' = none ∧ assembledBy session (.apply index chunk io) = some t.archive ∧
          t.nextIndex = t.expectedChunks ∧ ∃ out, restoreSnapshot B M t io storage = (out, storage') ∧
            (result = .accept ↔ out = .ok ()))) := by
  unfold applySnapshotChunkResponse at h
  rcases session with _ | s
  · cases h
    exact .inl ⟨rfl, by simp, rfl, rfl⟩
  dsimp only [assembledBy] at h ⊢
  split at h
  · rename_i hindex
    cases h
    exact .inl ⟨rfl, by simp, rfl, if_neg fun hall => hindex hall.1⟩
  rename_i hindex
  rw [not_not] at hindex
  split at h
  · rename_i hrange
    cases h
    refine .inl ⟨rfl, by simp, rfl, if_neg ?_⟩
    omega
  rename_i hrange
  rw [not_or, not_lt, not_le] at hrange
  split at h
  · rename_i hsize
    cases h
    refine .inr (.inl ⟨rfl, rfl, rfl, if_neg ?_⟩)
    omega
  rename_i hsize
  refine .inr (.inr ⟨s, _, rfl, hindex, rfl, ?_⟩)
  split at h
  · rename_i hmore
    cases h
    refine .inl ⟨rfl, rfl, rfl, hmore, if_neg ?_⟩
    omega
  · rename_i hlast
    right
    have hall : index = s.nextIndex ∧ 0 ≤ index ∧ index < s.expectedChunks ∧ (chunk.length : Int) ≤ s.expectedChunkSize ∧
        s.expectedChunks ≤ s.nextIndex + 1 := by omega
    rw [if_pos hall]
    obtain ⟨⟨e | _, storage₁⟩, hout⟩ : ∃ out, restoreSnapshot B M
        { s with archive := s.archive ++ chunk, nextIndex := s.nextIndex + 1 } io storage = out := ⟨_, rfl⟩
    · rw [hout] at h
      cases h
      exact ⟨rfl, rfl, by dsimp only; omega, _, hout, by simp⟩
    · rw [hout] at h
      cases h
      exact ⟨rfl, rfl, by dsimp only; omega, _, hout, by simp⟩

theorem offerSnapshot_cases {snapshot : Snapshot} {appHash : Bytes} {currentHeight : Int} {result : OfferResult}
    {session : Option IncomingSnapshotSession}
    (h : offerSnapshotResponse B M snapshot appHash currentHeight = (result, session)) :
    (session = none ∧ result ≠ .accept) ∨ ∃ t, session = some t ∧ result = .accept ∧ 0 < snapshot.chunks ∧
      t.expectedChunks = snapshot.chunks ∧ t.nextIndex = 0 ∧ t.archive = [] := by
  unfold offerSnapshotResponse at h
  iterate 2 (split at h; · cases h; exact .inl ⟨rfl, nofun⟩)
  split at h
  · cases h; exact .inl ⟨rfl, nofun⟩
  rename_i hchunks
  split at h
  · cases h; exact .inl ⟨rfl, nofun⟩
  split at h
  · cases h; exact .inl ⟨rfl, nofun⟩
  iterate 6 (split at h; · cases h; exact .inl ⟨rfl, nofun⟩)
  cases h
  exact .inr ⟨_, rfl, rfl, not_le.1 hchunks, rfl, rfl, rfl⟩

theorem Received.step {s : SyncState D} {accepted : List (Int × Bytes)}
    (h : ∀ t, s.session = some t → Received s accepted t) (call : SyncCall) {e : SyncEvent D}
    (he : e = ⟨s, call, (syncStep B M s call).1, (syncStep B M s call).2⟩) :
    ∀ t, e.after.session = some t → Received e.after (e.receive accepted) t := by
  subst he
  intro t ht
  rcases call with ⟨snapshot, appHash, currentHeight⟩ | ⟨index, chunk, io⟩
  · obtain ⟨result, session, hoffer⟩ : ∃ result session,
      offerSnapshotResponse B M snapshot appHash currentHeight = (result, session) := ⟨_, _, rfl⟩
    rcases offerSnapshot_cases hoffer with ⟨rfl, hne⟩ | ⟨session, rfl, rfl, hpos, hchunks, hnext, harchive⟩
    · simp only [syncStep, hoffer] at ht ⊢
      have hreceive : SyncEvent.receive accepted ⟨s, .offer snapshot appHash currentHeight, .offer result, s⟩ = accepted := by
        cases result <;> first | rfl | exact absurd rfl hne
      rw [hreceive]
      exact h t ht
    · simp only [syncStep, hoffer] at ht ⊢
      obtain rfl : session = t := Option.some.inj ht
      exact ⟨harchive, rfl, hnext, by rw [hnext, hchunks]; exact hpos, snapshot, appHash, rfl, hchunks⟩
  · obtain ⟨result, session', storage', hcall⟩ : ∃ result session' storage',
      applySnapshotChunkResponse B M s.session index chunk io s.storage = (result, session', storage') := ⟨_, _, _, rfl⟩
    simp only [syncStep, hcall] at ht ⊢
    rcases applySnapshotChunk_cases s.session index chunk io s.storage hcall with
      ⟨rfl, hne, -, -⟩ | ⟨rfl, -⟩ | ⟨old, t', hold, rfl, ht', ⟨rfl, rfl, -, hmore, -⟩ | ⟨rfl, -⟩⟩
    · have hold := h t ht
      have hreceive : ∀ after, SyncEvent.receive accepted ⟨s, .apply index chunk io, .apply result, after⟩ = accepted := by
        intro after
        cases result <;> first | rfl | exact absurd rfl hne
      rw [hreceive]
      exact ⟨hold.archive, hold.indices, hold.next, hold.open_, hold.announced⟩
    · cases ht
    · obtain rfl : t' = t := Option.some.inj ht
      have hprev := h old hold
      subst ht'
      refine ⟨?_, ?_, ?_, hmore, hprev.announced⟩
      · show old.archive ++ chunk = (accepted ++ [(old.nextIndex, chunk)]).flatMap Prod.snd
        rw [hprev.archive, List.flatMap_append]
        simp
      · show (accepted ++ [(old.nextIndex, chunk)]).map Prod.fst =
          (List.range (accepted ++ [(old.nextIndex, chunk)]).length).map Int.ofNat
        rw [List.map_append, hprev.indices, List.length_append, List.length_singleton, List.range_succ, List.map_append,
          hprev.next]
        rfl
      · show old.nextIndex + 1 = ((accepted ++ [(old.nextIndex, chunk)]).length : Int)
        rw [hprev.next, List.length_append]
        rfl
    · cases ht

/-- Every event of a run is a step, and its session holds what was accepted before it. -/
theorem syncRun_received {s : SyncState D} {accepted : List (Int × Bytes)}
    (h : ∀ t, s.session = some t → Received s accepted t) {calls : List SyncCall} {pre post : List (SyncEvent D)}
    {e : SyncEvent D} (hrun : syncRun B M s calls = pre ++ e :: post) :
    e.IsStep B M ∧ ∀ t, e.before.session = some t → Received e.before (pre.foldl SyncEvent.receive accepted) t := by
  induction calls generalizing s accepted pre with
  | nil => cases pre <;> cases hrun
  | cons call calls ih =>
    rw [syncRun] at hrun
    cases pre with
    | nil =>
      obtain ⟨rfl, -⟩ := List.cons.inj hrun
      exact ⟨rfl, h⟩
    | cons first pre =>
      obtain ⟨rfl, hrest⟩ := List.cons.inj hrun
      exact ih (Received.step h call rfl) hrest

/-- The call imports what the session was sent, all of it and nothing else, or imports nothing. -/
structure SyncEvent.ImportsAccepted (B : Builtins) (M : SnapshotManager) (accepted : List (Int × Bytes))
    (e : SyncEvent D) : Prop where
  holds : ∀ t, e.before.session = some t → Received e.before accepted t
  idle : e.assembled = none → e.after.storage = e.before.storage ∧ ¬ e.Restored
  imports : ∀ archive, e.assembled = some archive → ∃ snapshot appHash chunk io session out,
    e.before.offered = some (snapshot, appHash) ∧ e.call = .apply accepted.length chunk io ∧
      (accepted.length + 1 : Int) = snapshot.chunks ∧ archive = accepted.flatMap Prod.snd ++ chunk ∧
      session.archive = archive ∧ restoreSnapshot B M session io e.before.storage = (out, e.after.storage) ∧
      (e.Restored ↔ out = .ok ())

theorem SyncEvent.IsStep.importsAccepted {e : SyncEvent D} (h : e.IsStep B M) {accepted : List (Int × Bytes)}
    (hreceived : ∀ t, e.before.session = some t → Received e.before accepted t) : e.ImportsAccepted B M accepted := by
  obtain ⟨before, call, response, after⟩ := e
  simp only [SyncEvent.IsStep] at h hreceived
  rcases call with ⟨snapshot, appHash, currentHeight⟩ | ⟨index, chunk, io⟩
  · refine ⟨hreceived, fun _ => ?_, fun archive harchive => (by cases harchive)⟩
    simp only [syncStep] at h
    split at h <;> cases h <;> exact ⟨rfl, fun hr => by cases hr.1⟩
  · obtain ⟨result, session', storage', hcall⟩ : ∃ result session' storage',
      applySnapshotChunkResponse B M before.session index chunk io before.storage = (result, session', storage') :=
        ⟨_, _, _, rfl⟩
    simp only [syncStep, hcall] at h
    obtain ⟨rfl, rfl⟩ := Prod.mk.inj h
    rcases applySnapshotChunk_cases before.session index chunk io before.storage hcall with
      ⟨rfl, hne, rfl, hnone⟩ | ⟨rfl, rfl, rfl, hnone⟩ |
        ⟨old, t, hold, rfl, rfl, ⟨rfl, rfl, rfl, -, hnone⟩ | ⟨rfl, hsome, hlast, out, hout, hresult⟩⟩
    · refine ⟨hreceived, fun _ => ⟨rfl, fun hr => ?_⟩, fun archive harchive => ?_⟩
      · exact hne (SyncResponse.apply.inj hr.1)
      · cases hnone.symm.trans harchive
    · refine ⟨hreceived, fun _ => ⟨rfl, fun hr => (by cases hr.1)⟩, fun archive harchive => ?_⟩
      cases hnone.symm.trans harchive
    · refine ⟨hreceived, fun _ => ⟨rfl, fun hr => (by cases hr.2)⟩, fun archive harchive => ?_⟩
      cases hnone.symm.trans harchive
    · refine ⟨hreceived, fun hnone => (by cases hnone.symm.trans hsome), fun archive harchive => ?_⟩
      obtain rfl := Option.some.inj (hsome.symm.trans harchive)
      have hprev := hreceived old hold
      obtain ⟨snapshot, appHash, hoffered, hchunks⟩ := hprev.announced
      refine ⟨snapshot, appHash, chunk, io, _, out, hoffered, by rw [hprev.next], ?_, ?_, rfl, hout, ?_⟩
      · rw [← hchunks, ← hprev.next]
        exact hlast
      · rw [← hprev.archive]
      · rw [← hresult]
        exact ⟨fun hr => SyncResponse.apply.inj hr.1, fun hr => ⟨congrArg _ hr, rfl⟩⟩

/-! ### Applying the chunks in order -/

theorem assembled_syncRun_cons (s : SyncState D) (call : SyncCall) (calls : List SyncCall) :
    (syncRun B M s (call :: calls)).filterMap SyncEvent.assembled = (assembledBy s.session call).toList ++
      (syncRun B M (syncStep B M s call).2 calls).filterMap SyncEvent.assembled := by
  rw [syncRun, List.filterMap_cons]
  dsimp only [SyncEvent.assembled]
  rcases assembledBy s.session call with _ | archive <;> rfl

/-- Chunks of the right size, sent in order up to the announced number, are assembled to one archive. -/
theorem assembled_of_chunks (f : Nat → Bytes) (io : Nat → SyncIo) (n j : Nat) {s : SyncState D}
    {session : IncomingSnapshotSession} (hs : s.session = some session) (hnext : session.nextIndex = j)
    (hchunks : session.expectedChunks = j + (n + 1))
    (hsize : ∀ i < j + (n + 1), ((f i).length : Int) ≤ session.expectedChunkSize) :
    (syncRun B M s ((List.range' j (n + 1)).map fun i : Nat => .apply i (f i) (io i))).filterMap SyncEvent.assembled =
      [session.archive ++ (List.range' j (n + 1)).flatMap f] := by
  induction n generalizing j s session with
  | zero =>
    have hcomplete : assembledBy s.session (.apply j (f j) (io j)) = some (session.archive ++ f j) := by
      have hfirst := hsize j (by omega)
      rw [hs, assembledBy, if_pos (by omega)]
    rw [zero_add, List.range'_one, List.map_cons, assembled_syncRun_cons, hcomplete, List.flatMap_cons,
      List.flatMap_nil, List.append_nil]
    rfl
  | succ n ih =>
    obtain ⟨result, session', storage', hcall⟩ : ∃ result session' storage',
      applySnapshotChunkResponse B M s.session j (f j) (io j) s.storage = (result, session', storage') := ⟨_, _, _, rfl⟩
    have hfirst := hsize j (by omega)
    have hopen : assembledBy s.session (.apply j (f j) (io j)) = none := by
      rw [hs, assembledBy, if_neg (by omega)]
    obtain ⟨t, rfl, ht⟩ : ∃ t, session' = some t ∧
        t = { session with archive := session.archive ++ f j, nextIndex := session.nextIndex + 1 } := by
      rw [hs, applySnapshotChunkResponse, if_neg (by omega), if_neg (by omega), if_neg (by omega)] at hcall
      dsimp only at hcall
      rw [if_pos (by omega)] at hcall
      cases hcall
      exact ⟨_, rfl, rfl⟩
    have hsession : (syncStep B M s (.apply j (f j) (io j))).2.session = some t := by simp only [syncStep, hcall]
    have hrest := ih (j + 1) hsession (by rw [ht]; push_cast; omega) (by rw [ht]; push_cast; omega)
      (by rw [ht]; exact fun i hi => hsize i (by omega))
    rw [List.range'_succ, List.map_cons, assembled_syncRun_cons, hopen, hrest, ht, List.flatMap_cons]
    rw [List.append_assoc]
    rfl

/-- A session that an offer of the record opens. -/
structure FreshFor (record : SnapshotRecord) (session : IncomingSnapshotSession) : Prop where
  next : session.nextIndex = 0
  empty : session.archive = []
  chunks : session.expectedChunks = record.chunks
  size : record.chunkSize ≤ session.expectedChunkSize

/-- Every peer that is sent the served chunks in order, from 0 to the announced number, assembles the archive. -/
def ServedLossless (B : Builtins) (D : Type) [Driver D] (dir : SnapshotDir) (height : Int) (archive : Bytes) : Prop :=
  ∃ record, servedRecord dir height snapshotFormatVersion = some record ∧
    ∀ (peer : SnapshotManager) (s : SyncState D) (session : IncomingSnapshotSession) (io : Nat → SyncIo),
      s.session = some session → FreshFor record session →
        (syncRun B peer s ((List.range record.chunks.toNat).map fun i : Nat =>
          .apply i (loadSnapshotChunkResponse dir height snapshotFormatVersion i) (io i))).filterMap SyncEvent.assembled =
            [archive]

theorem Serves.assembled {dir : SnapshotDir} {height : Int} {archive : Bytes} {record : SnapshotRecord} {quotient : ℚ}
    (h : Serves M dir height archive record quotient) (hsize : 0 < M.chunkSize) (peer : SnapshotManager)
    {s : SyncState D} {session : IncomingSnapshotSession} (io : Nat → SyncIo) (hs : s.session = some session)
    (hfresh : FreshFor record session) :
    (syncRun B peer s ((List.range record.chunks.toNat).map fun i : Nat =>
      .apply i (loadSnapshotChunkResponse dir height snapshotFormatVersion i) (io i))).filterMap SyncEvent.assembled =
        [(List.range record.chunks.toNat).flatMap fun i : Nat =>
          loadSnapshotChunkResponse dir height snapshotFormatVersion i] := by
  have hchunks : 1 ≤ record.chunks := by rw [h.chunks]; exact le_max_left _ _
  obtain ⟨n, hn⟩ : ∃ n, record.chunks.toNat = n + 1 := ⟨record.chunks.toNat - 1, by omega⟩
  have hrun := assembled_of_chunks (B := B) (M := peer)
    (fun i : Nat => loadSnapshotChunkResponse dir height snapshotFormatVersion i) io n 0 hs hfresh.next
    (by rw [hfresh.chunks]; omega) ?_
  · rw [hn, List.range_eq_range', hrun, hfresh.empty]
    rfl
  · intro i hi
    rw [h.chunk hsize (by omega), List.length_take]
    have hfits := hfresh.size
    rw [h.chunkSize] at hfits
    omega

theorem servedLossless_iff {dir : SnapshotDir} {height : Int} {archive : Bytes} {record : SnapshotRecord} {quotient : ℚ}
    (h : Serves M dir height archive record quotient) (hsize : 0 < M.chunkSize) (storage : D) :
    ServedLossless B D dir height archive ↔ ¬ Binary64.RoundsOntoBelow (archive.length / M.chunkSize) := by
  rw [← h.reassembled_iff hsize]
  constructor
  · rintro ⟨record', hserved, hall⟩
    obtain rfl : record = record' := Option.some.inj (h.served.symm.trans hserved)
    let session : IncomingSnapshotSession := ⟨0, 0, record.chunks, record.chunkSize, "", "", 0, []⟩
    have hfresh : FreshFor record session := ⟨rfl, rfl, rfl, le_refl _⟩
    have hrun := hall M ⟨some session, storage, none⟩ session (fun _ => ⟨none, none⟩) rfl hfresh
    rw [h.assembled hsize M _ rfl hfresh] at hrun
    exact (List.cons.inj hrun).1
  · intro hreassembled
    refine ⟨record, h.served, fun peer s session io hs hfresh => ?_⟩
    rw [h.assembled hsize peer io hs hfresh, hreassembled]

end Assembly

section Claims

variable (B : Builtins) (M : SnapshotManager) {D : Type} [Driver D]

theorem storeSnapshot_ok_iff (hsize : 0 < M.chunkSize) (dir : SnapshotDir) (archivePath : String) (archive : Bytes)
    (height : Int) (appHashHex exportedStateSha256 createdAt : String) :
    (∃ dir', storeSnapshot M dir archivePath archive height appHashHex exportedStateSha256 createdAt = .ok dir') ↔
      |Binary64.nearest (archive.length / M.chunkSize)| < 2 ^ 1024 := by
  unfold storeSnapshot writeManifest trueDivision
  simp only [PyDict.get?_set, ↓reduceIte, bind_eq_ok, require_eq_ok]
  constructor
  · rintro ⟨dir', quotient, ⟨_, -, _, hlt, -⟩, -⟩
    exact_mod_cast hlt
  · intro hlt
    exact ⟨_, _, ⟨(), hsize.ne', (), by exact_mod_cast hlt, rfl⟩, rfl⟩

/-- A stored archive comes through its chunks, for every peer and every archive, exactly where the floating-point
quotient of the sizes exists and is not rounded down onto a whole number, so wherever the archive has fewer than
2⁵³ bytes. In every run of calls the session holds the chunks accepted at the indices 0, 1, 2, …, and a call that
imports anything imports these, in the announced number. -/
theorem snapshot_chunks_lossless_iff (hsize : 0 < M.chunkSize) (dir : SnapshotDir) (archivePath : String)
    (archive : Bytes) (height : Int) (appHashHex exportedStateSha256 createdAt : String) (storage : D) :
    ((∃ dir', storeSnapshot M dir archivePath archive height appHashHex exportedStateSha256 createdAt = .ok dir' ∧
        ServedLossless B D dir' height archive) ↔
      |Binary64.nearest (archive.length / M.chunkSize)| < 2 ^ 1024 ∧
        ¬ Binary64.RoundsOntoBelow (archive.length / M.chunkSize)) ∧
    (archive.length < 2 ^ 53 → ∃ dir',
      storeSnapshot M dir archivePath archive height appHashHex exportedStateSha256 createdAt = .ok dir' ∧
        ServedLossless B D dir' height archive) ∧
    ∀ (peer : SnapshotManager) (calls : List SyncCall) (pre post : List (SyncEvent D)) (e : SyncEvent D),
      syncRun B peer ⟨none, storage, none⟩ calls = pre ++ e :: post → e.ImportsAccepted B peer (acceptedChunks pre) := by
  have hlossless : (∃ dir', storeSnapshot M dir archivePath archive height appHashHex exportedStateSha256 createdAt =
      .ok dir' ∧ ServedLossless B D dir' height archive) ↔
      |Binary64.nearest (archive.length / M.chunkSize)| < 2 ^ 1024 ∧
        ¬ Binary64.RoundsOntoBelow (archive.length / M.chunkSize) := by
    rw [← storeSnapshot_ok_iff M hsize dir archivePath archive height appHashHex exportedStateSha256 createdAt]
    constructor
    · rintro ⟨dir', hstore, hserved⟩
      obtain ⟨record, quotient, hserves⟩ := storeSnapshot_serves hstore
      exact ⟨⟨dir', hstore⟩, (servedLossless_iff hserves hsize storage).1 hserved⟩
    · rintro ⟨⟨dir', hstore⟩, hround⟩
      obtain ⟨record, quotient, hserves⟩ := storeSnapshot_serves hstore
      exact ⟨dir', hstore, (servedLossless_iff hserves hsize storage).2 hround⟩
  refine ⟨hlossless, fun hlength => hlossless.2 ?_, fun peer calls pre post e hrun => ?_⟩
  · obtain ⟨size, hnat⟩ := Int.eq_ofNat_of_zero_le hsize.le
    have hpos : 0 < size := by omega
    have hcast : ((M.chunkSize : Int) : ℚ) = (size : ℚ) := by rw [hnat]; rfl
    have hquotient : (archive.length : ℚ) / size < 2 ^ 53 := by
      refine lt_of_le_of_lt (div_le_self (Nat.cast_nonneg _) (Nat.one_le_cast.2 hpos)) ?_
      exact_mod_cast hlength
    rw [hcast]
    exact ⟨Binary64.abs_nearest_lt (by positivity) hquotient, Binary64.not_roundsOntoBelow hpos hlength⟩
  · have hnone : ∀ t, (SyncState.mk none storage none).session = some t →
        Received (SyncState.mk none storage none) [] t := fun t ht => (by cases ht)
    obtain ⟨hstep, hreceived⟩ := syncRun_received hnone hrun
    exact hstep.importsAccepted hreceived

end Claims

def chunkManager (chunkSize : Int) : SnapshotManager :=
  ⟨"xian-test-1", chunkSize, fun _ => .ok .none, fun _ => .error (.other "not a gzip file")⟩

theorem short_archive_lossless : ∃ dir', storeSnapshot (chunkManager 2) ⟨.empty, .empty⟩ "a.tar.gz" [31, 139, 8] 42 "" "" "" =
    .ok dir' ∧ ServedLossless .plain MemoryDriver dir' 42 [31, 139, 8] :=
  (snapshot_chunks_lossless_iff .plain (chunkManager 2) (by decide) ⟨.empty, .empty⟩ "a.tar.gz" [31, 139, 8] 42 "" "" ""
    nodeStore).2.1 (by decide)

/-- One byte more than 2³¹ chunks of the default size. -/
def longArchive : Bytes := List.replicate (2 ^ 53 + 1) 0

theorem longArchive_roundsOntoBelow : Binary64.RoundsOntoBelow (longArchive.length / defaultChunkSize) := by
  have hq : ((longArchive.length : ℚ) / (defaultChunkSize : Int)) = (2 ^ 53 + 1) / 2 ^ 22 := by
    rw [longArchive, List.length_replicate, defaultChunkSize]
    norm_num
  have hlog : Int.log 2 ((2 ^ 53 + 1) / 2 ^ 22 : ℚ) = 31 := by
    have hpos : (0 : ℚ) < (2 ^ 53 + 1) / 2 ^ 22 := by norm_num
    refine le_antisymm ?_ ((Int.zpow_le_iff_le_log one_lt_two hpos).1 (by norm_num))
    exact Int.lt_add_one_iff.1 ((Int.lt_zpow_iff_log_lt one_lt_two hpos).1 (by norm_num))
  have hulp : Binary64.ulp ((2 ^ 53 + 1) / 2 ^ 22) = 1 / 2 ^ 21 := by
    rw [Binary64.ulp, Binary64.ulpExponent, abs_of_pos (by norm_num), hlog]
    norm_num
  have hscaled : ((2 ^ 53 + 1) / 2 ^ 22 / (1 / 2 ^ 21) : ℚ) = 2 ^ 52 + 1 / 2 := by norm_num
  have hfloor : ⌊(2 ^ 52 + 1 / 2 : ℚ)⌋ = 2 ^ 52 := by norm_num [Int.floor_eq_iff]
  rw [hq]
  refine ⟨2 ^ 31, by norm_num, ?_, by norm_num⟩
  rw [Binary64.nearest, hulp, hscaled, Binary64.roundHalfEven, hfloor]
  norm_num

/-- Its last byte is not announced. -/
theorem longArchive_not_lossless : ¬ ∃ dir', storeSnapshot (chunkManager defaultChunkSize) ⟨.empty, .empty⟩ "a.tar.gz"
    longArchive 42 "" "" "" = .ok dir' ∧ ServedLossless .plain MemoryDriver dir' 42 longArchive := by
  rintro ⟨dir', hstore, hserved⟩
  obtain ⟨record, quotient, hserves⟩ := storeSnapshot_serves hstore
  have hsize : 0 < (chunkManager defaultChunkSize).chunkSize := by decide
  exact (servedLossless_iff hserves hsize nodeStore).1 hserved longArchive_roundsOntoBelow

end XianAbci
