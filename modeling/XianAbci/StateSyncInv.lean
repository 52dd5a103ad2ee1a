import XianAbci.StateSync
import XianAbci.StateImport
import XianAbci.StateRootInv

/-!
# State sync over whole runs

Two facts about every run of `offer_snapshot` and `apply_snapshot_chunk` calls. A restore that is
accepted leaves a store with the offered app hash as root; its marker carries the offered height
exactly when the document says so, as nothing else ties it to the offer. A run without an accepted
restore leaves the store alone as long as every archive that reaches the flush also gets through
(`SyncEvent.GetsThrough`): what is checked after the flush is not undone.
-/

namespace XianAbci

section Steps

variable {B : Builtins} {M : SnapshotManager} {D : Type} [Driver D]

/-- The session goes on under the terms of the same offer. -/
def SameOffer (s t : IncomingSnapshotSession) : Prop :=
  s.expectedHeight = t.expectedHeight ∧ s.expectedAppHashHex = t.expectedAppHashHex

/-- The call takes the last chunk of the session `s` and the archive has the offered digest. -/
structure SyncEvent.Completes (e : SyncEvent D) (s : IncomingSnapshotSession) (chunk : Bytes) (io : SyncIo) :
    Prop where
  session : e.before.session = some s
  call : e.call = .apply s.nextIndex chunk io
  nonneg : 0 ≤ s.nextIndex
  last : s.nextIndex + 1 = s.expectedChunks
  size : (chunk.length : Int) ≤ s.expectedChunkSize
  digest : sha256Hex (s.archive ++ chunk) = s.expectedSnapshotHashHex

/-- The event is a step of the manager. -/
def SyncEvent.IsStep (B : Builtins) (M : SnapshotManager) (e : SyncEvent D) : Prop :=
  syncStep B M e.before e.call = (e.response, e.after)

/-- A call leaves the store alone and restores nothing, or it imports a completed archive. -/
theorem SyncEvent.IsStep.cases {e : SyncEvent D} (h : e.IsStep B M) :
    (e.after.storage = e.before.storage ∧ ¬ e.Restored) ∨
    ∃ s chunk io, e.Completes s chunk io ∧ e.after.session = none ∧ e.after.offered = e.before.offered ∧
      ∃ out, importSnapshotArchive B M (s.archive ++ chunk) io e.before.storage = (out, e.after.storage) ∧
        (e.Restored ↔ out = .ok s.expectedAppHashHex) := by
  obtain ⟨before, call, response, after⟩ := e
  simp only [SyncEvent.IsStep] at h
  cases call with
  | offer snapshot appHash currentHeight =>
    left
    simp only [syncStep] at h
    split at h <;> cases h <;> exact ⟨rfl, fun hr => by cases hr.1⟩
  | apply index chunk io =>
    simp only [syncStep, applySnapshotChunkResponse] at h
    cases hs : before.session with
    | none => rw [hs] at h; cases h; exact .inl ⟨rfl, fun hr => by cases hr.1⟩
    | some s =>
      rw [hs] at h
      dsimp only at h
      split at h
      · cases h; exact .inl ⟨rfl, fun hr => by cases hr.1⟩
      rename_i hindex
      rw [not_not] at hindex
      subst hindex
      split at h
      · cases h; exact .inl ⟨rfl, fun hr => by cases hr.1⟩
      rename_i hrange
      rw [not_or, not_lt, not_le] at hrange
      split at h
      · cases h; exact .inl ⟨rfl, fun hr => by cases hr.1⟩
      rename_i hsize
      rw [not_lt] at hsize
      split at h
      · cases h; exact .inl ⟨rfl, fun hr => by cases hr.2⟩
      rename_i hlast
      unfold restoreSnapshot at h
      dsimp only at h
      by_cases hdigest : sha256Hex (s.archive ++ chunk) = s.expectedSnapshotHashHex
      swap
      · rw [if_pos hdigest] at h
        cases h; exact .inl ⟨rfl, fun hr => by cases hr.1⟩
      rw [if_neg (not_not.2 hdigest)] at h
      right
      refine ⟨s, chunk, io, ⟨hs, rfl, hrange.1, by omega, hsize, hdigest⟩, ?_⟩
      obtain ⟨⟨_ | appHash, storage⟩, himp⟩ :
        ∃ imp, importSnapshotArchive B M (s.archive ++ chunk) io before.storage = imp := ⟨_, rfl⟩ <;>
        rw [himp] at h
      · cases h
        exact ⟨rfl, rfl, _, himp, fun hr => (by cases hr.1), fun h => (by cases h)⟩
      · dsimp only at h
        by_cases hne : appHash = s.expectedAppHashHex
        · rw [if_neg (not_not.2 hne)] at h
          cases h
          exact ⟨rfl, rfl, _, himp, fun _ => by rw [hne], fun _ => ⟨rfl, rfl⟩⟩
        · rw [if_pos hne] at h
          cases h
          exact ⟨rfl, rfl, _, himp, fun hr => (by cases hr.1), fun h => absurd (Except.ok.inj h) hne⟩

/-! ### The session stands for the accepted offer -/

/-- The terms of the session are those of the offer last accepted. -/
def SyncState.Inv (s : SyncState D) : Prop :=
  ∀ session, s.session = some session → ∃ snapshot appHash, s.offered = some (snapshot, appHash) ∧
    session.expectedHeight = snapshot.height ∧ session.expectedAppHashHex = bytesHex appHash

theorem applySnapshotChunk_session {session : Option IncomingSnapshotSession} {index : Int} {chunk : Bytes}
    {io : SyncIo} {storage : D} {t : IncomingSnapshotSession}
    (h : (applySnapshotChunkResponse B M session index chunk io storage).2.1 = some t) :
    ∃ s, session = some s ∧ SameOffer s t := by
  unfold applySnapshotChunkResponse at h
  cases session with
  | none => cases h
  | some s =>
    dsimp only at h
    split at h
    · cases h; exact ⟨_, rfl, rfl, rfl⟩
    split at h
    · cases h; exact ⟨_, rfl, rfl, rfl⟩
    split at h
    · cases h
    split at h
    · cases h; exact ⟨_, rfl, rfl, rfl⟩
    split at h <;> cases h

theorem offerSnapshot_session {snapshot : Snapshot} {appHash : Bytes} {currentHeight : Int}
    {t : IncomingSnapshotSession}
    (h : (offerSnapshotResponse B M snapshot appHash currentHeight).2 = some t) :
    t.expectedHeight = snapshot.height ∧ t.expectedAppHashHex = bytesHex appHash := by
  unfold offerSnapshotResponse at h
  iterate 4 (split at h; · cases h)
  split at h
  · cases h
  iterate 6 (split at h; · cases h)
  cases h
  exact ⟨rfl, rfl⟩

theorem SyncState.Inv.step {s : SyncState D} (h : s.Inv) (call : SyncCall) : (syncStep B M s call).2.Inv := by
  intro t ht
  cases call with
  | offer snapshot appHash currentHeight =>
    simp only [syncStep] at ht ⊢
    split at ht <;> rename_i heq
    · exact h t ht
    · cases ht
      obtain ⟨h₁, h₂⟩ := offerSnapshot_session (congrArg Prod.snd heq)
      exact ⟨snapshot, appHash, rfl, h₁, h₂⟩
  | apply index chunk io =>
    obtain ⟨s', hs', hsame⟩ := applySnapshotChunk_session ht
    obtain ⟨snapshot, appHash, hoff, h₁, h₂⟩ := h s' hs'
    exact ⟨snapshot, appHash, hoff, hsame.1.symm.trans h₁, hsame.2.symm.trans h₂⟩

/-- Every event of a run is a step, from a state whose session stands for its offer. -/
theorem syncRun_inv {s : SyncState D} (calls : List SyncCall) (h : s.Inv) :
    ∀ e ∈ syncRun B M s calls, e.IsStep B M ∧ e.before.Inv := by
  induction calls generalizing s with
  | nil => intro e he; cases he
  | cons call calls ih =>
    intro e he
    rcases List.mem_cons.1 he with rfl | he
    · exact ⟨rfl, h⟩
    · exact ih (h.step call) e he

/-! ### An accepted restore -/

theorem importSnapshotArchive_ok {archive : Bytes} {io : SyncIo} {storage storage' : D} {appHash : String}
    (h : importSnapshotArchive B M archive io storage = (.ok appHash, storage')) :
    ∃ doc r, checkSnapshotArchive B M archive = .ok doc ∧
      importState B doc io.commitError storage = (.ok r, storage') ∧ r.appHash = appHash := by
  unfold importSnapshotArchive at h
  split at h
  · cases h
  rename_i doc hdoc
  split at h
  · cases h
  rename_i r storage'' himp
  split at h
  · cases h
  · cases h
    exact ⟨doc, r, hdoc, himp, rfl⟩

/-- The marker reads as the given app hash and height. -/
def TrustedMarker (B : Builtins) (durable : PyDict String Value) (appHash : Bytes) (height : Int) : Prop :=
  ∃ m, getCommittedLatestBlock B durable = .ok m ∧ bytesFromHex m.hash = .ok appHash ∧ m.height = height

/-- The document leaves a marker of this app hash and height: its own `number` is the height, or its
last `__latest_block` entry, where it has one, reads so. -/
def DocumentTrusted (B : Builtins) (stored : Value → Value) (doc : Value) (appHash : Bytes) (height : Int) :
    Prop :=
  ∃ items, exportedStateItems B doc = .ok items ∧
    match items.reverse.lookup (.str latestBlockKey) with
    | none => (doc.get "number" (.int 0) >>= B.toInt) = .ok height
    | some v => TrustedMarker B
      (if v = .none then .empty else .ofList [(latestBlockKey, stored v)]) appHash height

theorem TrustedMarker.congr {m m' : PyDict String Value} {appHash : Bytes} {height : Int}
    (h : m.get? latestBlockKey = m'.get? latestBlockKey) :
    TrustedMarker B m appHash height ↔ TrustedMarker B m' appHash height := by
  unfold TrustedMarker getCommittedLatestBlock loadCommittedLatestBlock
  rw [h]

/-- The document the call imports, if the archive passes the checks before the import. -/
def SyncEvent.document (B : Builtins) (M : SnapshotManager) (e : SyncEvent D) : Option Value :=
  match e.before.session, e.call with
  | some s, .apply _ chunk _ => (checkSnapshotArchive B M (s.archive ++ chunk)).toOption
  | _, _ => none

omit [Driver D] in
theorem SyncEvent.Completes.document {e : SyncEvent D} {s : IncomingSnapshotSession} {chunk : Bytes}
    {io : SyncIo} (h : e.Completes s chunk io) :
    e.document B M = (checkSnapshotArchive B M (s.archive ++ chunk)).toOption := by
  unfold SyncEvent.document
  rw [h.session, h.call]

/-- After an accepted restore the root of the store is the app hash that was offered, and the marker
carries it and the offered height exactly when the document says so. -/
theorem restored_trusted_iff (storage : D) (calls : List SyncCall) :
    ∀ e ∈ syncRun B M ⟨none, storage, none⟩ calls, e.Restored →
      ∃ snapshot appHash doc, e.before.offered = some (snapshot, appHash) ∧ e.document B M = some doc ∧
        computeDriverStateRoot (Driver.durable e.after.storage) = .ok appHash ∧
        (TrustedMarker B (Driver.durable e.after.storage) appHash snapshot.height ↔
          DocumentTrusted B (Driver.stored D) doc appHash snapshot.height) := by
  intro e he hrest
  have h₀ : (SyncState.mk none storage none).Inv := fun _ h => by cases h
  obtain ⟨hstep, hinv⟩ := syncRun_inv calls h₀ e he
  rcases hstep.cases with ⟨-, hno⟩ | ⟨s, chunk, io, hc, -, -, out, himp, hiff⟩
  · exact absurd hrest hno
  obtain ⟨snapshot, appHash, hoff, -, happ⟩ := hinv s hc.session
  rw [hiff.1 hrest] at himp
  obtain ⟨doc, r, hdoc, himport, hr⟩ := importSnapshotArchive_ok himp
  obtain ⟨root, items, hImp, hdur, hroot⟩ := importState_ok himport
  have hrootEq : root = appHash := bytesHex_injective (by rw [← hImp.appHash, hr, happ])
  subst hrootEq
  refine ⟨snapshot, root, doc, hoff, by rw [hc.document, hdoc]; rfl, hroot, ?_⟩
  have hdoc' : DocumentTrusted B (Driver.stored D) doc root snapshot.height ↔
      match items.reverse.lookup (.str latestBlockKey) with
      | none => (doc.get "number" (.int 0) >>= B.toInt) = .ok snapshot.height
      | some v => TrustedMarker B
        (if v = .none then .empty else .ofList [(latestBlockKey, Driver.stored D v)]) root snapshot.height := by
    unfold DocumentTrusted
    rw [hImp.items_eq]
    simp
  rw [hdoc']
  have hmark := hdur latestBlockKey
  unfold importPending at hmark
  cases hlast : items.reverse.lookup (.str latestBlockKey) with
  | none =>
    rw [hlast, if_pos rfl, Option.none_or, committedValue, if_neg (LatestBlock.value_ne_none _),
      LatestBlock.value, Driver.stored_latestBlock] at hmark
    have hread : getCommittedLatestBlock B _ = .ok ⟨bytesHex root, _, _⟩ := getCommittedLatestBlock_value hmark
    dsimp only
    rw [hImp.number]
    constructor
    · rintro ⟨m, hm, -, hh⟩
      rw [hread] at hm
      cases hm
      exact congrArg Except.ok hh
    · intro hh
      exact ⟨_, hread, bytesFromHex_bytesHex root, Except.ok.inj hh⟩
  | some v =>
    refine TrustedMarker.congr ?_
    rw [hmark, hlast, Option.some_or, committedValue]
    split
    · rfl
    · rw [PyDict.get?_ofList, List.reverse_singleton, PyDict.lookup_cons_ite, if_pos rfl]

/-! ### A run without a restore -/

/-- No consensus key of the document has a value that a later `None` entry takes out of the write set:
the root counts such a value, the store then lacks it. -/
def NoDroppedValue (B : Builtins) (doc : Value) : Prop :=
  ∀ items, exportedStateItems B doc = .ok items → ∀ k v, isConsensusStateKey k → (Key.str k, v) ∈ items →
    v ≠ .none → items.reverse.lookup (.str k) ≠ some .none

/-- An archive that passes every check made before the store is emptied also passes the later ones:
its root is the offered app hash, its `nanos` is a number, it drops no value, and neither the storage
transaction nor the files kept afterwards fail. -/
def SyncEvent.GetsThrough (B : Builtins) (M : SnapshotManager) (e : SyncEvent D) : Prop :=
  ∀ s chunk io doc root, e.Completes s chunk io → checkSnapshotArchive B M (s.archive ++ chunk) = .ok doc →
    verifyExportedState B doc (Driver.durable e.before.storage) = .ok root →
    bytesHex root = s.expectedAppHashHex ∧ (∃ nanos, (doc.get "nanos" (.int 0) >>= B.toInt) = .ok nanos) ∧
      NoDroppedValue B doc ∧ io.commitError = none ∧ io.bookkeepingError = none

theorem checkSnapshotArchive_number {archive : Bytes} {doc : Value}
    (h : checkSnapshotArchive B M archive = .ok doc) :
    ∃ height, (doc.get "number" (.int 0) >>= B.toInt) = .ok height := by
  simp only [checkSnapshotArchive, bind_eq_ok] at h
  obtain ⟨files, -, metadata, -, policy, -, -, -, doc', -, v, -, version, -, -, -, chain, -, -, -, hv, -,
    height, -, nv, hnv, number, hnumber, -, -, appHash, -, hash, -, -, -, root, -, -, -, h⟩ := h
  cases h
  refine ⟨number, bind_eq_ok.2 ⟨nv, ?_, hnumber⟩⟩
  unfold Value.index at hnv
  split at hnv
  · split at hnv
    · rename_i hl
      cases hnv
      rw [Value.get, hl]
      rfl
    · cases hnv
  · cases hnv

/-- An import whose checks hold, whose values the codec keeps and whose document drops no value returns. -/
theorem importState_returns {doc : Value} {storage : D} {root : Bytes} {items : List (Key × Value)}
    {height nanos : Int} (hverify : verifyExportedState B doc (Driver.durable storage) = .ok root)
    (hitems : exportedStateItems B doc = .ok items)
    (hnumber : (doc.get "number" (.int 0) >>= B.toInt) = .ok height)
    (hnanos : (doc.get "nanos" (.int 0) >>= B.toInt) = .ok nanos)
    (hcodec : ∀ p ∈ items, Driver.stored D p.2 = p.2) (hprio : Set.InjOn hashPriority (consensusKeys items))
    (hkeep : NoDroppedValue B doc) :
    ∃ r storage', importState B doc none storage = (.ok r, storage') ∧ r.appHash = bytesHex root := by
  obtain ⟨items', hitems', hroot⟩ := verifyExportedState_ok hverify
  cases hitems.symm.trans hitems'
  have hwrites : importedWrites B doc = .ok (.ofList (stringKeys items), height, nanos) := by
    obtain ⟨n, hn, hn'⟩ := bind_eq_ok.1 hnumber
    obtain ⟨t, ht, ht'⟩ := bind_eq_ok.1 hnanos
    simp only [importedWrites, bind_eq_ok]
    exact ⟨items, hitems, n, hn, height, hn', t, ht, nanos, ht', rfl⟩
  unfold importState
  rw [hverify]
  dsimp only
  rw [hwrites]
  dsimp only
  rw [stageLatestBlock_eq]
  dsimp only
  generalize hm : LatestBlock.mk (bytesHex root) height nanos = marker
  generalize hd : (Driver.commit _ : D) = committed
  have hdur : ∀ k, (Driver.durable committed).get? k =
      committedValue (Driver.stored D) none (importPending items marker k) := by
    intro k
    rw [← hd, Driver.get?_durable_commit, pending_import]
    simp
  have hcons : ∀ k, isConsensusStateKey k → importPending items marker k = items.reverse.lookup (.str k) := by
    intro k hk
    have hne : k ≠ latestBlockKey := by
      rintro rfl
      rw [latestBlockKey_local] at hk
      cases hk
    rw [importPending, if_neg hne, Option.or_none]
  have hfinal : computeDriverStateRoot (Driver.durable committed) = .ok root := by
    refine StateRootCache.computeDriverStateRoot_eq hprio hroot (fun k v hv hk => ?_) fun k v hk hv hvn => ?_
    · rw [hdur, hcons k hk] at hv
      cases hlast : items.reverse.lookup (.str k) with
      | none => rw [hlast] at hv; cases hv
      | some w =>
        rw [hlast, committedValue] at hv
        split at hv
        · cases hv
        · rename_i hw
          have hmem := PyDict.mem_of_lookup_reverse hlast
          rw [hcodec _ hmem] at hv
          cases hv
          exact ⟨hw, hmem⟩
    · rw [hdur, hcons k hk]
      cases hlast : items.reverse.lookup (.str k) with
      | none =>
        rw [List.lookup_eq_none_iff] at hlast
        have := hlast _ (List.mem_reverse.2 hv)
        simp at this
      | some w =>
        have hw : w ≠ .none := fun hw => hkeep items hitems k v hk hv hvn (by rw [hlast, hw])
        rw [committedValue, if_neg hw]
        exact Option.some_ne_none _
  rw [hfinal]
  dsimp only
  rw [if_neg (not_not.2 rfl)]
  exact ⟨_, _, rfl, rfl⟩

/-- A call that restores nothing leaves the store alone. -/
theorem SyncEvent.IsStep.storage_eq {e : SyncEvent D} (h : e.IsStep B M) (hno : ¬ e.Restored)
    (hthrough : e.GetsThrough B M)
    (hcodec : ∀ archive doc items, checkSnapshotArchive B M archive = .ok doc →
      exportedStateItems B doc = .ok items → ∀ p ∈ items, Driver.stored D p.2 = p.2)
    (hprio : ∀ doc items, e.document B M = some doc → exportedStateItems B doc = .ok items →
      Set.InjOn hashPriority (consensusKeys items)) :
    e.after.storage = e.before.storage := by
  rcases h.cases with ⟨hsame, -⟩ | ⟨s, chunk, io, hc, -, -, out, himp, hiff⟩
  · exact hsame
  unfold importSnapshotArchive at himp
  cases hdoc : checkSnapshotArchive B M (s.archive ++ chunk) with
  | error e => rw [hdoc] at himp; exact (congrArg Prod.snd himp).symm
  | ok doc =>
    rw [hdoc] at himp
    dsimp only at himp
    cases hverify : verifyExportedState B doc (Driver.durable e.before.storage) with
    | error e =>
      unfold importState at himp
      rw [hverify] at himp
      exact (congrArg Prod.snd himp).symm
    | ok root =>
      -- the archive got through, so the call restored
      obtain ⟨hroot, ⟨nanos, hnanos⟩, hkeep, hcommit, hbook⟩ := hthrough s chunk io doc root hc hdoc hverify
      obtain ⟨height, hnumber⟩ := checkSnapshotArchive_number hdoc
      obtain ⟨items, hitems, -⟩ := verifyExportedState_ok hverify
      obtain ⟨r, storage', hr, happ⟩ := importState_returns hverify hitems hnumber hnanos
        (hcodec _ doc items hdoc hitems) (hprio doc items (by rw [hc.document, hdoc]; rfl) hitems) hkeep
      rw [hcommit, hr, hbook] at himp
      cases himp
      exact absurd (hiff.2 (by rw [happ, hroot])) hno

/-- Calls that restore nothing leave the store as it was, as long as no archive gets past the flush and
is then turned down. -/
theorem storage_unchanged_of_no_restore (storage : D) (calls : List SyncCall)
    (hcodec : ∀ archive doc items, checkSnapshotArchive B M archive = .ok doc →
      exportedStateItems B doc = .ok items → ∀ p ∈ items, Driver.stored D p.2 = p.2)
    (hprio : ∀ e ∈ syncRun B M ⟨none, storage, none⟩ calls, ∀ doc items, e.document B M = some doc →
      exportedStateItems B doc = .ok items → Set.InjOn hashPriority (consensusKeys items))
    (hthrough : ∀ e ∈ syncRun B M ⟨none, storage, none⟩ calls, e.GetsThrough B M)
    (hno : ∀ e ∈ syncRun B M ⟨none, storage, none⟩ calls, ¬ e.Restored) :
    ∀ e ∈ syncRun B M ⟨none, storage, none⟩ calls,
      Driver.durable e.after.storage = Driver.durable storage := by
  suffices h : ∀ s : SyncState D, s.Inv → (∀ e ∈ syncRun B M s calls, e.after.storage = e.before.storage) →
      ∀ e ∈ syncRun B M s calls, e.after.storage = s.storage by
    have h₀ : (SyncState.mk none storage none).Inv := fun _ h => by cases h
    intro e he
    rw [h _ h₀ (fun e he => (syncRun_inv calls h₀ e he).1.storage_eq (hno e he) (hthrough e he) hcodec
      (hprio e he)) e he]
  intro s hs hsame
  clear hprio hthrough hno
  induction calls generalizing s with
  | nil => intro e he; cases he
  | cons call calls ih =>
    have hhead : (syncStep B M s call).2.storage = s.storage := hsame _ (List.mem_cons_self ..)
    intro e he
    rcases List.mem_cons.1 he with rfl | he
    · exact hhead
    · rw [← hhead]
      exact ih _ (hs.step call) (fun e he => hsame e (List.mem_cons_of_mem _ he)) e he

end Steps

/-! ### A peer with a small archive -/

/-- A gzipped tar file of `metadata.json` and `exported_state.json`, made at height 7 of a chain whose
state is the execution policy. -/
def peerArchive : Bytes :=
  toBytesBig 40 0x1f8b0800000000000203ed94cd4ec3301084f328c8e716d9f94f5e05216be3ac1b43e344b113b5aa ++
  toBytesBig 40 0xf2ee6c2b28a8083840b934dfc5d6ec6863299a69d1430d1eee9f5c6783ebc089348e4f277179f238 ++
  toBytesBig 40 0x4ccef7932e4812c11d0ffe81d17918e8f3c16d7260d0f7b201d7b092091deb3c2f5411f3308fb8ca ++
  toBytesBig 40 0x42d43c16904795424d439d1709aa30d39057a0b412194fa23aac9017512880ad986ac058696adab6 ++
  toBytesBig 40 0x3360d78234dca11abde9acecbbad517b561e58b5f7a8ba1ae58483a3d1d13fb517f60127f361781e ++
  toBytesBig 40 0xac13b26dc049a71aacc72dbe1a485a873472e8e571b97a7b0509b47a5eb106cda6f1acccc864a177 ++
  toBytesBig 40 0x4de7a5ee8616fcfb43c2f986fe3feefa6ef0584b8a81c7ebb4c08ff917e222ff224dd325ffff93ff ++
  toBytesBig 40 0xbfcbbe1ddb0a8753b82cd8ceb132a198a24567e8fe7060cf48d967527e2a84159b603be2b1187e9f ++
  toBytesBig 25 0xfe6faae5ab62981fe760616161e1b67801ac6f5e6e000c0000

def peerDigest : Bytes := toBytesBig 32 0x86167418ff89046d73da2a07e4eca9a22c8fa02d24c6562c0a2d31e8cf960e09

/-- `policyRootHex` as bytes. -/
def policyRoot : Bytes := toBytesBig 32 0x1f4f889c9402830c72ef041a83bceff4ff895ec27fa8bacfc17053d2be09321a

def sortedExecutionPolicy : Value :=
  .dict [("bytecode_version", .str vmBytecodeVersion), ("execution_revision", .str vmExecutionRevision),
    ("gas_schedule", .str vmGasSchedule), ("set_codec", .str setCodec)]

/-- The two files of `peerArchive`. -/
def peerFiles : SnapshotFiles where
  metadata := .ok (.dict [("app_hash", .str policyRootHex), ("chain_id", .str "xian-1"),
    ("execution_policy", sortedExecutionPolicy), ("height", .int 7), ("snapshot_format_version", .int 2)])
  exportedState := .ok (policyDocument policyRootHex (.int 7) (.int 5) [])

def peerOfferMetadata (height : Int) (appHash : Bytes) : Value :=
  .dict [("app_hash", .str (bytesHex appHash)), ("archive_sha256", .str (bytesHex peerDigest)),
    ("chain_id", .str "xian-1"), ("chunk_size", .int 4194304), ("execution_policy", sortedExecutionPolicy),
    ("height", .int height), ("snapshot_format_version", .int 2)]

def peerOfferBytes (height : Int) (appHash : Bytes) : Bytes :=
  (encodeAbciJson (peerOfferMetadata height appHash)).toOption.getD []

/-- A manager that sees the peer's offer and archive only. -/
def peerManager (height : Int) (appHash : Bytes) : SnapshotManager where
  chainId := "xian-1"
  chunkSize := 4194304
  jsonLoads _ := .ok (peerOfferMetadata height appHash)
  unpack _ := .ok peerFiles

/-- The peer offers its archive under this height and app hash and sends it in one chunk. -/
def peerCalls (height : Int) (appHash : Bytes) : List SyncCall :=
  [.offer ⟨height, 2, 1, peerDigest, peerOfferBytes height appHash⟩ appHash 0,
    .apply 0 peerArchive ⟨none, none⟩]

/-- The store of a node that holds the policy and one contract value. -/
def nodeStore : MemoryDriver :=
  ⟨.ofList [(executionPolicyKey, .dict currentExecutionPolicy), ("con.S:x", .int 1)], .empty⟩

@[irreducible] def peerRun (height : Int) (appHash : Bytes) : List (SyncEvent MemoryDriver) :=
  syncRun .plain (peerManager height appHash) ⟨none, nodeStore, none⟩ (peerCalls height appHash)

/-- The event accepts a restore, as a test. -/
def SyncEvent.restored {D : Type} (e : SyncEvent D) : Bool :=
  decide (e.response = .apply .accept) && e.after.session.isNone

theorem SyncEvent.restored_iff {D : Type} {e : SyncEvent D} : e.restored = true ↔ e.Restored := by
  rw [SyncEvent.restored, Bool.and_eq_true, decide_eq_true_eq, Option.isNone_iff_eq_none]
  rfl

theorem peerRun_restores : (peerRun 7 policyRoot).any SyncEvent.restored = true := by decide +kernel

theorem restored_trusted_iff_peer :
    ∃ e ∈ peerRun 7 policyRoot, e.Restored ∧
      ∃ snapshot appHash doc, e.before.offered = some (snapshot, appHash) ∧
        e.document .plain (peerManager 7 policyRoot) = some doc ∧
        computeDriverStateRoot (Driver.durable e.after.storage) = .ok appHash ∧
        (TrustedMarker .plain (Driver.durable e.after.storage) appHash snapshot.height ↔
          DocumentTrusted .plain (Driver.stored MemoryDriver) doc appHash snapshot.height) := by
  obtain ⟨e, he, hr⟩ := List.any_eq_true.1 peerRun_restores
  have hr := SyncEvent.restored_iff.1 hr
  exact ⟨e, he, hr, restored_trusted_iff nodeStore (peerCalls 7 policyRoot) e (by rwa [peerRun] at he) hr⟩

theorem peerRun_height : (peerRun 9 policyRoot).any (fun e => e.restored &&
    (decide (e.before.offered.map (fun o => (o.1.height, o.2)) = some (9, policyRoot)) &&
      decide (e.after.storage.durable.get? latestBlockKey =
        some (LatestBlock.mk (bytesHex policyRoot) 7 5).value))) = true := by decide +kernel

/-- The offer says height 9, the archive height 7: the restore is accepted and the marker says 7. -/
theorem restored_height_not_offered :
    ∃ e ∈ peerRun 9 policyRoot, e.Restored ∧
      ∃ snapshot, e.before.offered = some (snapshot, policyRoot) ∧ snapshot.height = 9 ∧
        ¬ TrustedMarker .plain (Driver.durable e.after.storage) policyRoot snapshot.height := by
  obtain ⟨e, he, hr⟩ := List.any_eq_true.1 peerRun_height
  simp only [Bool.and_eq_true, decide_eq_true_eq, Option.map_eq_some_iff, Prod.mk.injEq] at hr
  obtain ⟨hrest, ⟨⟨snapshot, appHash⟩, hoff, hheight, happ⟩, hmark⟩ := hr
  dsimp only at hheight happ
  rw [happ] at hoff
  refine ⟨e, he, SyncEvent.restored_iff.1 hrest, snapshot, hoff, hheight, ?_⟩
  rintro ⟨m, hm, -, hh⟩
  rw [show Driver.durable e.after.storage = e.after.storage.durable from rfl,
    getCommittedLatestBlock_value hmark] at hm
  cases hm
  dsimp only at hh
  omega

/-- The peer's offer, and then a chunk that is no archive. -/
@[irreducible] def garbledRun : List (SyncEvent MemoryDriver) :=
  syncRun .plain { peerManager 9 policyRoot with unpack := fun _ => .error (.other "not a gzip file") }
    ⟨none, nodeStore, none⟩
    [.offer ⟨9, 2, 1, peerDigest, peerOfferBytes 9 policyRoot⟩ policyRoot 0, .apply 0 [1, 2, 3] ⟨none, none⟩]

theorem garbledRun_rejects : garbledRun.all (fun e => !e.restored &&
    match e.before.session, e.call with
    | some s, .apply _ chunk _ => decide (sha256Hex (s.archive ++ chunk) ≠ s.expectedSnapshotHashHex)
    | _, _ => true) = true := by decide +kernel

theorem storage_unchanged_of_no_restore_garbled :
    garbledRun.length = 2 ∧ (∀ e ∈ garbledRun, ¬ e.Restored) ∧
      ∀ e ∈ garbledRun, Driver.durable e.after.storage = Driver.durable nodeStore := by
  have hno : ∀ e ∈ garbledRun, ¬ e.Restored := by
    intro e he hr
    have := List.all_eq_true.1 garbledRun_rejects e he
    rw [SyncEvent.restored_iff.2 hr] at this
    cases this
  refine ⟨by rw [garbledRun]; rfl, hno, ?_⟩
  rw [garbledRun] at hno ⊢
  refine storage_unchanged_of_no_restore nodeStore _ (fun _ _ _ _ _ _ _ => rfl) (fun e _ doc items hdoc _ => ?_)
    (fun e he s chunk io doc root hc _ _ => ?_) hno
  · -- nothing unpacks
    unfold SyncEvent.document at hdoc
    split at hdoc <;> cases hdoc
  · have hall := List.all_eq_true.1 garbledRun_rejects e (by rwa [garbledRun])
    rw [hc.session, hc.call, Bool.and_eq_true, decide_eq_true_eq] at hall
    exact absurd hc.digest hall.2

theorem peerRun_erases : (peerRun 7 (List.replicate 32 0xcd)).all (fun e => !e.restored) = true ∧
    (peerRun 7 (List.replicate 32 0xcd)).any (fun e => decide (e.response = .apply .rejectSnapshot) &&
      decide (e.after.storage.durable.get? "con.S:x" = none)) = true := by decide +kernel

/-- The archive's own app hash is not the offered one: the call answers REJECT_SNAPSHOT, and the node
has lost its state. -/
theorem rejected_restore_erases :
    (∀ e ∈ peerRun 7 (List.replicate 32 0xcd), ¬ e.Restored) ∧
      ∃ e ∈ peerRun 7 (List.replicate 32 0xcd), e.response = .apply .rejectSnapshot ∧
        (Driver.durable nodeStore).get? "con.S:x" = some (.int 1) ∧
        (Driver.durable e.after.storage).get? "con.S:x" = none ∧
        Driver.durable e.after.storage ≠ Driver.durable nodeStore := by
  constructor
  · intro e he hr
    have := List.all_eq_true.1 peerRun_erases.1 e he
    rw [SyncEvent.restored_iff.2 hr] at this
    cases this
  · obtain ⟨e, he, hr⟩ := List.any_eq_true.1 peerRun_erases.2
    rw [Bool.and_eq_true, decide_eq_true_eq, decide_eq_true_eq] at hr
    have hnode : (Driver.durable nodeStore).get? "con.S:x" = some (.int 1) := rfl
    refine ⟨e, he, hr.1, hnode, hr.2, fun heq => ?_⟩
    have hgone : (Driver.durable e.after.storage).get? "con.S:x" = none := hr.2
    rw [heq, hnode] at hgone
    cases hgone

end XianAbci
