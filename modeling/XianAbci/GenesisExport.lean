import XianAbci.ExportRoundTrip
import XianAbci.Proposal

/-!
# An exported state as a genesis (`methods/init_chain.py`)

A chain can be started from an exported document, and a node can import it. Both take the same entries, but an
exported nonce stands under the key of the store without its `__n.` prefix, the closing `:` included, and
`init_chain` hands it to `set_nonce` as if it were the sender's name: the key it writes ends in `::`. The two
agree exactly for states without a nonce (`genesis_agrees_iff`).
-/

namespace XianAbci

open StateRootCache

section InitChain

variable (B : Builtins) (C : Codec) {D : Type} [Driver D]

/-- `init_chain` for the document under `abci_genesis`: the app hash and the height of the genesis. -/
def initChain (abciGenesisState : Value) (cache : StateRootCache) (driver : D) : Except PyErr (Bytes × Int) × D :=
  match validateGenesisExecutionPolicy abciGenesisState with
  | .error e => (.error e, driver)
  | .ok _ =>
    match applyStateChangesFromBlock C abciGenesisState (Driver.flushFull driver) with
    | (.error e, driver) => (.error e, driver)
    | (.ok _, driver) =>
      let checked := do
        let stateRoot ← (cache.rebuild (toItems (Driver.durable driver))).1
        let expectedHash ← abciGenesisState.get "hash" .none
        if B.truthy expectedHash then
          require ((← bytesFromHexValue expectedHash) = stateRoot)
            (.valueError "genesis state root does not match abci_genesis.hash")
        let height ← B.toInt (orDefault B (← abciGenesisState.get "number" (.int 0)) (.int 0))
        return (stateRoot, height)
      (checked, driver)

end InitChain

/-- The nonce a sender's next transaction has to have in a store with nothing pending. -/
def nextNonce (durable : PyDict String Value) (sender : String) : Except PyErr Int :=
  (NonceTracker.ofState fun k => (durable.get? k).getD .none).expectedNonce sender

/-- Both loaders return, and leave one consensus map, one next nonce for every sender and one root. -/
structure LoadersAgree {D : Type} [Driver D] (started : Except PyErr (Bytes × Int) × D)
    (imported : Except PyErr ImportResult × D) : Prop where
  returned : ∃ root height r, started.1 = .ok (root, height) ∧ imported.1 = .ok r ∧ bytesHex root = r.appHash
  consensus : ∀ k, isConsensusStateKey k = true →
    (Driver.durable started.2).get? k = (Driver.durable imported.2).get? k
  nonces : ∀ sender, nextNonce (Driver.durable started.2) sender = nextNonce (Driver.durable imported.2) sender
  root : computeDriverStateRoot (Driver.durable started.2) = computeDriverStateRoot (Driver.durable imported.2)

/-! ### What the calls write -/

section Sets

variable {C : Codec} {D : Type} [Driver D]

/-- What `init_chain` writes of a document: a nonce goes under its exported key with one more `:`. -/
def genesisWrites (e : ExportedState) (encode : Value → Value) : List (String × Value) :=
  e.genesis ++ e.nonces.map fun p => (nonceFilename ++ indexSeparator ++ p.1 ++ delimiter, encode p.2)

variable {encode : Value → Value} {e : ExportedState}

theorem blockSets_document
    (hread : ∀ p ∈ e.genesis, isJson (encode p.2) = true ∧ runtimeValue C.typed (encode p.2) = p.2) :
    blockSets C (e.mapValues encode).document = (genesisWrites e encode).map .ok := by
  have hgenesis : (e.mapValues encode).genesis.map (fun p => stateSet C (ExportedState.entry p)) = e.genesis.map .ok := by
    rw [ExportedState.mapValues, List.map_map]
    refine List.map_congr_left fun p hp => ?_
    show (.ok (p.1, convertRuntimeValue C (encode p.2)) : Except PyErr (String × Value)) = _
    rw [convertRuntimeValue_eq _ (hread p hp).1, (hread p hp).2]
  have hnonces : (e.mapValues encode).nonces.map (fun p => nonceSet (ExportedState.entry p)) = (e.nonces.map fun p =>
      (nonceFilename ++ indexSeparator ++ p.1 ++ delimiter, encode p.2)).map .ok := by
    rw [ExportedState.mapValues, List.map_map, List.map_map]
    rfl
  have hsets : blockSets C (e.mapValues encode).document =
      ((e.mapValues encode).genesis.map ExportedState.entry).map (stateSet C) ++
        ((e.mapValues encode).nonces.map ExportedState.entry).map nonceSet ++ [] := rfl
  rw [hsets, List.append_nil, List.map_map, List.map_map, genesisWrites, List.map_append, ← hgenesis, ← hnonces]
  rfl

/-- The store of a chain that was started from the document. -/
theorem applyStateChanges_document (driver : D)
    (hread : ∀ p ∈ e.genesis, isJson (encode p.2) = true ∧ runtimeValue C.typed (encode p.2) = p.2) :
    ∃ started, applyStateChangesFromBlock C (e.mapValues encode).document (Driver.flushFull driver) = (.ok (), started) ∧
      ∀ k, (Driver.durable started).get? k =
        committedValue (Driver.stored D) none ((genesisWrites e encode).reverse.lookup k) := by
  obtain ⟨hok, hdurable, hpending⟩ := setEach_ok (genesisWrites e encode) (Driver.flushFull driver)
  rw [applyStateChangesFromBlock, blockSets_document hread]
  generalize setEach ((genesisWrites e encode).map .ok) (Driver.flushFull driver) = result at hok hdurable hpending ⊢
  obtain ⟨outcome, written⟩ := result
  obtain rfl : outcome = .ok () := hok
  refine ⟨Driver.commit written, rfl, fun k => ?_⟩
  rw [Driver.get?_durable_commit, hdurable, hpending]
  simp

end Sets

/-! ### The two loaders -/

section Loaders

variable {B : Builtins} {C : Codec} {encode : Value → Value} {D : Type} [Driver D]
  {durable contractState runState : PyDict String Value} {e : ExportedState} {policy : Value}

theorem startsWith_append {s p : String} (h : startsWith s p = true) (t : String) : startsWith (s ++ t) p = true := by
  rw [startsWith_iff] at h ⊢
  rw [String.toList_append]
  exact h.trans (List.prefix_append ..)

/-- A nonce of the state is written with one `:` more. -/
theorem started_nonce (hvalues : CommittedValues C encode durable) (hsource : ExportSource durable contractState runState)
    (h : e.Parts contractState runState policy) {started : D}
    (hstarted : ∀ k, (Driver.durable started).get? k =
      committedValue (Driver.stored D) none ((genesisWrites e encode).reverse.lookup k)) {k : String}
    (hk : startsWith k noncePrefix = true) (hget : durable.get? k ≠ none) :
    (Driver.durable started).get? (k ++ delimiter) ≠ none := by
  obtain ⟨v, hv⟩ := Option.ne_none_iff_exists'.1 hget
  have hlonger := startsWith_append hk delimiter
  have hmem : (k ++ delimiter, encode v) ∈ genesisWrites e encode := by
    obtain ⟨p, hp, heq⟩ := List.mem_map.1 ((mem_nonces hsource h).2 ⟨hk, hv⟩)
    obtain ⟨hpk, rfl⟩ := Prod.mk.inj heq
    rw [genesisWrites, List.mem_append, List.mem_map]
    refine .inr ⟨p, hp, ?_⟩
    rw [show nonceFilename ++ indexSeparator ++ p.1 = k from Key.str.inj hpk]
  -- whatever is written last under the longer key, it is a nonce of the state
  obtain ⟨w, hw⟩ : ∃ w, (genesisWrites e encode).reverse.lookup (k ++ delimiter) = some w := by
    rw [← Option.isSome_iff_exists, List.lookup_isSome_iff]
    exact ⟨_, List.mem_reverse.2 hmem, beq_self_eq_true _⟩
  have hwmem : (k ++ delimiter, w) ∈ genesisWrites e encode := by
    obtain ⟨l, r, hl, -⟩ := List.lookup_eq_some_iff.1 hw
    rw [← List.mem_reverse, hl]
    simp
  have hwn : w ≠ .none := by
    rw [genesisWrites, List.mem_append] at hwmem
    rcases hwmem with hwmem | hwmem
    · rcases (mem_genesis hsource (fun k v hv => (hvalues k v hv).1) h).1 hwmem with ⟨hname, -⟩ | ⟨hname, -⟩
      · rw [startsWith_run hlonger] at hname
        cases hname
      · rw [hname] at hlonger
        exact absurd hlonger (by decide)
    · obtain ⟨p, hp, heq⟩ := List.mem_map.1 hwmem
      obtain ⟨-, rfl⟩ := Prod.mk.inj heq
      obtain ⟨hpn, -, hread⟩ := hvalues _ _ ((mem_nonces hsource h).1 (List.mem_map.2 ⟨p, hp, rfl⟩)).2
      intro hnone
      rw [hnone] at hread
      exact hpn (hread.symm.trans (by rw [runtimeValue] <;> simp))
  rw [hstarted, hw, committedValue, if_neg hwn]
  simp

/-- Without nonces, what is started has the consensus keys of the state. -/
theorem started_consensus (hstored : ∀ v, Driver.stored D v = runtimeValue C.typed v)
    (hvalues : CommittedValues C encode durable) (hsource : ExportSource durable contractState runState)
    (hpolicy : durable.get? executionPolicyKey = some policy) (h : e.Parts contractState runState policy) {started : D}
    (hstarted : ∀ k, (Driver.durable started).get? k =
      committedValue (Driver.stored D) none ((genesisWrites e encode).reverse.lookup k))
    (hnone : ∀ k, startsWith k noncePrefix = true → durable.get? k = none) {k : String}
    (hk : isConsensusStateKey k = true) : (Driver.durable started).get? k = durable.get? k := by
  have hne : ∀ k v, durable.get? k = some v → v ≠ .none := fun k v hv => (hvalues k v hv).1
  have hnonces : e.nonces = [] := by
    rcases hlist : e.nonces with _ | ⟨p, rest⟩
    · rfl
    · obtain ⟨hstarts, hget⟩ := (mem_nonces hsource h).1 (List.mem_map.2 ⟨p, hlist ▸ List.mem_cons_self .., rfl⟩)
      rw [hnone _ hstarts] at hget
      cases hget
  have hwrites : genesisWrites e encode = e.genesis := by
    rw [genesisWrites, hnonces, List.map_nil, List.append_nil]
  have hitems : e.items = e.genesis.map fun p => (Key.str p.1, p.2) := by
    rw [ExportedState.items, hnonces, List.map_nil, List.append_nil]
  have hnodup : (e.genesis.map Prod.fst).Nodup := by
    have := nodup_exported_items hsource h
    rw [hitems, List.map_map] at this
    refine List.Nodup.of_map Key.str ?_
    rw [List.map_map]
    exact this
  have hlookup : ∀ v, (genesisWrites e encode).reverse.lookup k = some v ↔ durable.get? k = some v := by
    intro v
    have hmem := mem_exported_items hsource hne hpolicy h k v
    rw [hitems] at hmem
    rw [hwrites, PyDict.lookup_reverse_items (d := ⟨e.genesis, hnodup⟩), ← PyDict.mem_items_iff]
    simpa [hk] using hmem
  rw [hstarted]
  rcases hget : durable.get? k with _ | v
  · have hmissing : (genesisWrites e encode).reverse.lookup k = none := by
      rw [Option.eq_none_iff_forall_ne_some]
      intro v hv
      rw [(hlookup v).1 hv] at hget
      cases hget
    rw [hmissing]
    rfl
  · obtain ⟨hvn, -, hread⟩ := hvalues k v hget
    rw [(hlookup v).2 hget, committedValue, if_neg hvn, hstored]
    conv_lhs => rw [← hread, runtimeValue_idem, hread]

/-- Keys that go on with a `:` each have no end. -/
theorem no_growing_keys (hgrow : ∀ k, startsWith k noncePrefix = true → durable.get? k ≠ none →
    durable.get? (k ++ delimiter) ≠ none) (k : String) (hk : startsWith k noncePrefix = true) : durable.get? k = none := by
  -- no key of the map is longer than all of them together
  have hbound : ∀ k, durable.get? k ≠ none → k.length ≤ (durable.keys.map String.length).sum := by
    intro k hk
    obtain ⟨v, hv⟩ := Option.ne_none_iff_exists'.1 hk
    exact List.le_sum_of_mem (List.mem_map_of_mem (PyDict.mem_keys_iff.2 ⟨v, hv⟩))
  by_contra hget
  induction hm : (durable.keys.map String.length).sum - k.length using Nat.strong_induction_on generalizing k with
  | _ m ih =>
    have hnext := hgrow k hk hget
    have hlength : (k ++ delimiter).length = k.length + 1 := by
      rw [String.length_append]
      rfl
    have hle := hbound _ hnext
    exact ih _ (by omega) (k ++ delimiter) (startsWith_append hk delimiter) hnext rfl

theorem isConsensusStateKey_nonce {k : String} (h : startsWith k noncePrefix = true) : isConsensusStateKey k = true := by
  have hname : "__n" ++ indexSeparator = noncePrefix := by decide
  rw [isConsensusStateKey, hname, h, Bool.or_true]

theorem validateGenesis_written (hsource : ExportSource durable contractState runState)
    (h : e.Parts contractState runState policy) (hvalid : validateExecutionPolicy policy = .ok ())
    (hwritten : encode policy = policy) :
    validateGenesisExecutionPolicy (e.mapValues encode).document = .ok () := by
  have hentry : ∀ p, policyEntry (ExportedState.entry (p.1, encode p.2)) =
      (policyEntry (ExportedState.entry p)).map encode := by
    intro p
    simp only [policyEntry, ExportedState.entry, List.lookup_cons]
    simp only [beq_self_eq_true, Option.some.injEq, Value.str.injEq]
    split
    · rfl
    · rfl
  have hpolicies : ((e.mapValues encode).genesis.map ExportedState.entry).filterMap policyEntry = [policy] := by
    have hmapped : ((e.mapValues encode).genesis.map ExportedState.entry).filterMap policyEntry =
        ((e.genesis.map ExportedState.entry).filterMap policyEntry).map encode := by
      rw [ExportedState.mapValues, List.map_map, List.filterMap_map, List.filterMap_map, List.map_filterMap]
      exact List.filterMap_congr fun p _ => hentry p
    rw [hmapped, policyEntries_document hsource h, List.map_singleton, hwritten]
  rw [validateGenesis_document hpolicies, hvalid]

theorem rebuild_fst (cache : StateRootCache) (items : List (Key × Value)) :
    (cache.rebuild items).1 = merkleRootFromItems items := by
  rw [merkleRootFromItems, StateRootCache.new, rebuild, rebuild]
  rw [show ({ cache.rollback with root := .nil, leafHashes := .empty } : StateRootCache) = ⟨.nil, .empty, .empty⟩ from rfl,
    show ({ (StateRootCache.mk .nil .empty .empty).rollback with root := .nil, leafHashes := .empty } :
      StateRootCache) = ⟨.nil, .empty, .empty⟩ from rfl]
  obtain ⟨outcome, rebuilt⟩ := rebuildItems items ⟨.nil, .empty, .empty⟩
  rcases outcome with e | u
  · rfl
  · rfl

/-- A chain is started from the document: the store holds what was written, and where its root is the exported
one, `init_chain` returns it. -/
theorem initChain_document (hvalidate : validateGenesisExecutionPolicy (e.mapValues encode).document = .ok ())
    (hread : ∀ p ∈ e.genesis, isJson (encode p.2) = true ∧ runtimeValue C.typed (encode p.2) = p.2)
    (cache : StateRootCache) (driver : D) :
    ∃ started, (initChain B C (e.mapValues encode).document cache driver).2 = started ∧
      (∀ k, (Driver.durable started).get? k =
        committedValue (Driver.stored D) none ((genesisWrites e encode).reverse.lookup k)) ∧
      ∀ root height, computeDriverStateRoot (Driver.durable started) = .ok root → e.hash = bytesHex root →
        encode e.number = .int height →
        (initChain B C (e.mapValues encode).document cache driver).1 = .ok (root, height) := by
  obtain ⟨started, hstarted, hdurable⟩ := applyStateChanges_document driver hread
  refine ⟨started, ?_, hdurable, fun root height hroot hhash hnumber => ?_⟩
  · rw [initChain, hvalidate]
    dsimp only
    rw [hstarted]
  · rw [initChain, hvalidate]
    dsimp only
    rw [hstarted]
    dsimp only
    have hget : (e.mapValues encode).document.get "hash" .none = .ok (.str (bytesHex root)) := by
      rw [← hhash]
      rfl
    have hget' : (e.mapValues encode).document.get "number" (.int 0) = .ok (.int height) := by
      rw [← hnumber]
      rfl
    have hheight : B.toInt (orDefault B (.int height) (.int 0)) = .ok height := by
      rw [orDefault, B.truthy_int]
      by_cases hzero : height = 0
      · rw [if_neg (by simpa using hzero), B.toInt_int, hzero]
      · rw [if_pos (by simpa using hzero), B.toInt_int]
    have hrebuilt : (cache.rebuild (toItems (Driver.durable started))).1 = .ok root := (rebuild_fst ..).trans hroot
    rw [hrebuilt]
    simp only [bind, Except.bind, hget, hget', bytesFromHexValue, bytesFromHex_bytesHex, require, if_true, hheight, pure,
      Except.pure]
    split
    · rfl
    · rfl

/-- `init_chain` and `import_state` agree on an exported state exactly when no sender of it has a nonce. -/
theorem genesis_agrees_iff (B : Builtins)
    (signOrigin : String → List (String × Value) → Except PyErr (String × String)) (founder : Option String)
    {latestBlockHash : Option Bytes} {latestBlockHeight latestBlockNanos : Option Int} {mirror : Except PyErr LatestBlock}
    {persisted : Bool} {storage target : D} (cache : StateRootCache) (driver : D)
    (hplain : C.PlainNames) (hint : ∀ i, runtimeValue C.typed (encode (.int i)) = .int i)
    (hstored : ∀ v, Driver.stored D v = runtimeValue C.typed v)
    (hvalues : CommittedValues C encode (Driver.durable storage))
    (hsource : ExportSource (Driver.durable storage) contractState runState)
    (hK : Set.InjOn hashPriority (consensusKeys (toItems (Driver.durable storage))))
    (hbuilt : buildExportedState B signOrigin founder contractState runState latestBlockHash latestBlockHeight
      latestBlockNanos mirror = .ok e)
    (hnumber : encode e.number = e.number)
    (hpolicyWritten : ∀ policy, (Driver.durable storage).get? executionPolicyKey = some policy → encode policy = policy)
    (htarget : validatePersistedExecutionPolicy (Driver.durable target) = .ok persisted) :
    LoadersAgree (initChain B C (e.mapValues encode).document cache driver)
      (importState B (runtimeValue C.typed (e.mapValues encode).document) none target) ↔
    ∀ k, startsWith k noncePrefix = true → (Driver.durable storage).get? k = none := by
  have hne : ∀ k v, (Driver.durable storage).get? k = some v → v ≠ .none := fun k v hv => (hvalues k v hv).1
  obtain ⟨hash, height, nanos, root, -, hvalid, hparts, hheight, hnanos, hhash, hitems, -⟩ :=
    buildExportedState_eq_ok hbuilt
  rcases hrun : runState.get? executionPolicyKey with _ | policy
  · rw [hrun] at hvalid
    cases hvalid
  rw [hrun, Option.getD_some] at hvalid hparts
  have hpolicy := ((hsource.run _ _).1 hrun).1
  have hmem := mem_exported_items hsource hne hpolicy hparts
  have hkeys : consensusKeys e.items ⊆ consensusKeys (toItems (Driver.durable storage)) := by
    rintro k ⟨hcons, hk⟩
    obtain ⟨⟨key, v⟩, hp, rfl⟩ := List.mem_map.1 hk
    exact ⟨hcons, List.mem_map.2 ⟨(.str k, v), mem_toItems.2 ⟨k, rfl, ((hmem k v).1 hp).2⟩, rfl⟩⟩
  have hroot : computeDriverStateRoot (Driver.durable storage) = .ok root :=
    computeDriverStateRoot_eq (hK.mono hkeys) hitems
      (fun k v hget hcons => ⟨hne k v hget, (hmem k v).2 ⟨hcons, hget⟩⟩)
      (fun k v _ hp _ => by rw [((hmem k v).1 hp).2]; simp)
  obtain ⟨r, imported, himport, hconsensus, hroot', -⟩ := importState_exported (B := B) hstored hvalues hsource hpolicy
    hvalid hparts hheight hnanos hhash hK hroot htarget
  rw [runtimeValue_written hplain hint hvalues hsource hpolicy hparts hheight hnanos, himport]
  have hread : ∀ p ∈ e.genesis, isJson (encode p.2) = true ∧ runtimeValue C.typed (encode p.2) = p.2 := by
    intro p hp
    rcases (mem_genesis hsource hne hparts).1 hp with ⟨-, hget⟩ | ⟨-, hv⟩
    · exact (hvalues _ _ hget).2
    · rw [hv]
      exact (hvalues _ _ hpolicy).2
  obtain ⟨started, hstarted, hdurable, hreturns⟩ := initChain_document (B := B)
    (validateGenesis_written hsource hparts hvalid (hpolicyWritten _ hpolicy)) hread cache driver
  constructor
  · intro hagree
    refine no_growing_keys fun k hk hget => ?_
    have hnonce := started_nonce hvalues hsource hparts hdurable hk hget
    have hlonger := isConsensusStateKey_nonce (startsWith_append hk delimiter)
    have hsame := hagree.consensus _ hlonger
    rw [hstarted] at hsame
    rw [hsame] at hnonce
    rwa [← hconsensus _ hlonger]
  · intro hnone
    have hstartedConsensus : ∀ k, isConsensusStateKey k = true →
        (Driver.durable started).get? k = (Driver.durable storage).get? k :=
      fun k hk => started_consensus hstored hvalues hsource hpolicy hparts hdurable hnone hk
    have hstartedRoot := computeDriverStateRoot_congr hK hroot hne hstartedConsensus
    have hsame : ∀ k, isConsensusStateKey k = true →
        (Driver.durable started).get? k = (Driver.durable imported).get? k :=
      fun k hk => (hstartedConsensus k hk).trans (hconsensus k hk).symm
    obtain ⟨root', items, himported, -, hroot''⟩ := importState_ok himport
    have happ : bytesHex root = r.appHash := by
      rw [himported.appHash, Except.ok.inj (hroot'.symm.trans hroot'')]
    refine ⟨⟨root, height, r, hreturns root height hstartedRoot hhash (hnumber.trans hheight), rfl, happ⟩, ?_, ?_, ?_⟩
    · rw [hstarted]
      exact hsame
    · intro sender
      have hkey : isConsensusStateKey (nonceKey sender) = true :=
        isConsensusStateKey_nonce (startsWith_append (startsWith_append (by decide) sender) delimiter)
      rw [hstarted]
      simp only [nextNonce, NonceTracker.ofState, NonceTracker.expectedNonce, NonceTracker.currentNonce, hsame _ hkey]
    · rw [hstarted]
      exact hstartedRoot.trans hroot'.symm

end Loaders

/-! ### The state with a nonce -/

def nonceDocument : Except PyErr ExportedState :=
  buildExportedState .plain noSignature none .empty (nonceState nonceMarker) (some nonceRoot) (some 7) (some 1)
    (.ok .default)

def emptyCache : StateRootCache := ⟨.nil, .empty, .empty⟩

theorem nonceDocument_ok : ∃ e, nonceDocument = .ok e := by
  have hvalues := committedValues_nonceState nonceMarker
  have hpolicy : (nonceState nonceMarker).get? executionPolicyKey = some policyValue := rfl
  have hmarker : exportMarker (some nonceRoot) (some 7) (some 1) (.ok .default) = .ok (nonceRoot, 7, 1) := rfl
  exact buildExportedState_ok (fun k v hv => (hvalues k v hv).1) (exportSource_nonceState nonceMarker) hpolicy
    (by decide +kernel) (injOn_nonceKeys.mono (consensusKeys_nonceState nonceMarker))
    (computeDriverStateRoot_nonceState nonceMarker) hmarker (.inr rfl)

theorem genesis_agrees_iff_nonce : ∃ e, nonceDocument = .ok e ∧
    ¬ LoadersAgree (initChain .plain fixedCodec (e.mapValues id).document emptyCache emptyStore)
      (importState .plain (runtimeValue fixedCodec.typed (e.mapValues id).document) none emptyStore) := by
  obtain ⟨e, he⟩ := nonceDocument_ok
  have hvalues : CommittedValues fixedCodec id (Driver.durable (nonceStore nonceMarker)) :=
    committedValues_nonceState nonceMarker
  have htarget : validatePersistedExecutionPolicy (Driver.durable emptyStore) = .ok false := rfl
  have hiff := genesis_agrees_iff .plain noSignature none emptyCache emptyStore plainNames_fixedCodec (fun i => rfl)
    stored_fixedStore hvalues (exportSource_nonceState nonceMarker)
    (injOn_nonceKeys.mono (consensusKeys_nonceState nonceMarker)) he rfl (fun policy _ => rfl) htarget
  refine ⟨e, he, fun hagree => ?_⟩
  have hnone : (nonceState nonceMarker).get? "__n.alice:" = none := hiff.1 hagree "__n.alice:" (by decide)
  rw [nonceState, PyDict.get?_set, if_neg (by decide)] at hnone
  cases hnone

/-- The chain does not start from the document that the node imports: the root differs, and with it the nonce of
`alice`, who starts again at 0. -/
theorem exported_nonce_lost : ∃ e, nonceDocument = .ok e ∧
    (initChain .plain fixedCodec (e.mapValues id).document emptyCache emptyStore).1 =
      .error (.valueError "genesis state root does not match abci_genesis.hash") ∧
    nextNonce (Driver.durable (initChain .plain fixedCodec (e.mapValues id).document emptyCache emptyStore).2) "alice" =
      .ok 0 ∧
    nextNonce (Driver.durable (importState .plain (runtimeValue fixedCodec.typed (e.mapValues id).document) none
      emptyStore).2) "alice" = .ok 6 := by
  obtain ⟨e, he⟩ := nonceDocument_ok
  have hrun : (nonceDocument.toOption.map fun e =>
      let started := initChain .plain fixedCodec (e.mapValues id).document emptyCache emptyStore
      let imported := importState .plain (runtimeValue fixedCodec.typed (e.mapValues id).document) none emptyStore
      (started.1, nextNonce (Driver.durable started.2) "alice", nextNonce (Driver.durable imported.2) "alice")) =
        some (.error (.valueError "genesis state root does not match abci_genesis.hash"), .ok 0, .ok 6) := by
    decide +kernel
  rw [he] at hrun
  obtain ⟨hinit, hrun⟩ := Prod.mk.inj (Option.some.inj hrun)
  obtain ⟨hstarted, himported⟩ := Prod.mk.inj hrun
  exact ⟨e, he, hinit, hstarted, himported⟩

end XianAbci
