import XianAbci.FinalizeFailure

/-!
# Commit across failures and crashes

A node goes through FinalizeBlock, Commit, failed Commits and restarts in any order the consensus
engine and the machine allow. Beside it runs a node that only ever finalizes and commits (`replay`),
over the blocks committed so far. The run keeps the two stores equal: between blocks both nodes are at
rest (`Resting`), and once a block is finalized its writes are staged, or pending with the marker after
a failed Commit (`Opened`).
-/

namespace XianAbci

open StateRootCache

section Runs

variable (B : Builtins) (H : BlockHooks) {D : Type} [Driver D]

/-- One block without interruption. -/
def finalizeAndCommit (n : Node D) (req : FinalizeRequest) : Option (Node D) :=
  match finalizeBlock H n req with
  | (.error _, _) => none
  | (.ok _, n) =>
    match commitBlock B n none with
    | (.error _, _) => none
    | (.ok _, n) => some n

/-- The node after exactly these blocks. -/
def replay (n : Node D) (chain : List FinalizeRequest) : Option (Node D) := chain.foldlM (finalizeAndCommit B H) n

/-- The runs of a node from `n₀`, whose first block has height `h₀`: the blocks committed so far, the
block finalized and not yet committed, the node. Heights are consecutive, and the writes stay within
`K`. A crash loses everything but the store, wherever it falls: inside a Commit the store is either
that before it or that after it, as `hard_apply` is one storage transaction. -/
inductive NodeRun (K : Set String) (h₀ : Int) (n₀ : Node D) :
    List FinalizeRequest → Option FinalizeRequest → Node D → Prop
  | start : NodeRun K h₀ n₀ [] none n₀
  | finalize {chain n req response n'} : NodeRun K h₀ n₀ chain none n → req.height = h₀ + chain.length →
      consensusKeys (toItems (finalizeWrites H n req)) ⊆ K → finalizeBlock H n req = (.ok response, n') →
      NodeRun K h₀ n₀ chain (some req) n'
  | commit {chain req n n'} : NodeRun K h₀ n₀ chain (some req) n → commitBlock B n none = (.ok (), n') →
      NodeRun K h₀ n₀ (chain ++ [req]) none n'
  | commitFails {chain req n e e' n'} : NodeRun K h₀ n₀ chain (some req) n →
      commitBlock B n (some e) = (.error e', n') → NodeRun K h₀ n₀ chain (some req) n'
  | crash {chain opened n n'} : NodeRun K h₀ n₀ chain opened n → restart n = .ok n' →
      NodeRun K h₀ n₀ chain none n'
  | checkTx {chain opened n pendingNonces} : NodeRun K h₀ n₀ chain opened n →
      NodeRun K h₀ n₀ chain opened (checkTx n pendingNonces)
  | query {chain opened n vmWrites} : NodeRun K h₀ n₀ chain opened n →
      NodeRun K h₀ n₀ chain opened (query n vmWrites)

end Runs

/-- The cache stands for a state that the store mirrors. -/
structure Synced {D : Type} [Driver D] (K : Set String) (n : Node D) (L : Logical) : Prop where
  inv : Inv K n.stateRootCache L
  mirrors : Mirrors K (Driver.durable n.driver) L.committed
  values : ∀ k v, (Driver.durable n.driver).get? k = some v → v ≠ .none

/-- Between blocks: nothing staged and nothing pending. -/
structure Resting {D : Type} [Driver D] (K : Set String) (n : Node D) : Prop where
  synced : ∃ L, Synced K n L
  unstaged : n.pendingCommitDriverState = none
  pending : Driver.pending n.driver = .empty

/-- The marker of a block. -/
def markerOf (root : Bytes) (req : FinalizeRequest) : LatestBlock := ⟨bytesHex root, req.height, req.nanos⟩

/-- What Commit persists of a block: its writes and its marker. -/
def withMarker (w : PyDict String Value) (root : Bytes) (req : FinalizeRequest) : PyDict String Value :=
  w.set latestBlockKey (markerOf root req).value

/-- A finalized block with the writes `w`, before or after a failed Commit. -/
structure Opened {D : Type} [Driver D] (K : Set String) (n : Node D) (req : FinalizeRequest)
    (w : PyDict String Value) : Prop where
  synced : ∃ L, L.current = applyWrites (toItems w) L.committed ∧ Synced K n L
  keys : consensusKeys (toItems w) ⊆ K
  hashable : ∀ p ∈ toItems w, Hashable p
  root : n.merkleRootHash = some n.stateRootCache.rootHash
  block : n.currentBlockMeta = some (blockMeta req)
  writes : (n.pendingCommitDriverState = some w ∧ Driver.pending n.driver = .empty) ∨
    (n.pendingCommitDriverState = none ∧
      Driver.pending n.driver = withMarker w n.stateRootCache.rootHash req)

section Steps

variable {B : Builtins} {H : BlockHooks} {D : Type} [Driver D] {K : Set String} {n n' m : Node D} {L : Logical}
  {req : FinalizeRequest} {response : ResponseFinalizeBlock} {w : PyDict String Value} {e : PyErr}

theorem Resting.finalize (hK : Set.InjOn hashPriority K) (h : Resting K n)
    (hkeys : consensusKeys (toItems (finalizeWrites H n req)) ⊆ K)
    (hfin : finalizeBlock H n req = (.ok response, n')) :
    Opened K n' req (finalizeWrites H n req) ∧ response.appHash = n'.stateRootCache.rootHash := by
  obtain ⟨L, hs⟩ := h.synced
  have hf := finalizeBlock_ok hfin
  have hroot : response.appHash = n'.stateRootCache.rootHash := by rw [hf.cache]; exact (prepare_ok hf.root).1
  refine ⟨⟨⟨⟨L.committed, applyWrites (toItems (finalizeWrites H n req)) L.committed⟩, rfl, ?_, ?_, ?_⟩, hkeys, (prepare_ok hf.root).2, ?_, hf.block,
    .inl ⟨hf.staged, hf.pending⟩⟩, hroot⟩
  · rw [hf.cache]; exact hs.inv.prepare hK (keyed (finalizeWrites H n req)) hkeys
  · rw [hf.durable]; exact hs.mirrors
  · rw [hf.durable]; exact hs.values
  · rw [hf.appHash, hroot]

/-- However often Commit failed before, it finds the block's writes and the marker. -/
theorem Opened.stagedForCommit (h : Opened K n req w) :
    ∃ n', stagedForCommit B n = .ok n' ∧ Driver.durable n'.driver = Driver.durable n.driver ∧
      Driver.pending n'.driver = withMarker w n.stateRootCache.rootHash req ∧
      n'.stateRootCache = n.stateRootCache ∧ n'.pendingCommitDriverState = none ∧
      n'.merkleRootHash = n.merkleRootHash ∧ n'.currentBlockMeta = n.currentBlockMeta := by
  unfold XianAbci.stagedForCommit restorePendingCommitDriverState
  rcases h.writes with ⟨hst, -⟩ | ⟨hst, hp⟩
  · rw [hst]
    dsimp only
    rw [h.root, h.block]
    dsimp only
    rw [stageLatestBlock_eq]
    refine ⟨_, rfl, ?_, ?_, rfl, rfl, rfl, rfl⟩
    · exact (Driver.durable_applyWrites ..).trans (Driver.durable_setPending ..)
    · exact (Driver.pending_applyWrites ..).trans (by rw [Driver.pending_setPending]; rfl)
  · rw [hst]
    dsimp only
    rw [h.root, h.block]
    dsimp only
    rw [stageLatestBlock_eq]
    refine ⟨_, rfl, Driver.durable_applyWrites .., ?_, rfl, hst, rfl, rfl⟩
    refine (Driver.pending_applyWrites ..).trans ?_
    -- the marker is staged over itself
    rw [hp]
    exact PyDict.set_eq_self (by rw [withMarker, PyDict.get?_set, if_pos rfl]; rfl)

theorem get?_withMarker (root : Bytes) (k : String) : (withMarker w root req).get? k =
    if k = latestBlockKey then some (markerOf root req).value else w.get? k := by
  rw [withMarker, PyDict.get?_set]

/-- A failed Commit can be repeated. -/
theorem Opened.commitFails (h : Opened K n req w) (e : PyErr) :
    ∃ n', commitBlock B n (some e) = (.error e, n') ∧ Opened K n' req w ∧
      Driver.durable n'.driver = Driver.durable n.driver ∧ n'.stateRootCache = n.stateRootCache := by
  obtain ⟨L, hcur, hs⟩ := h.synced
  obtain ⟨n', hn', hdur, hpend, hcache, hst, hroot, hblock⟩ := h.stagedForCommit (B := B)
  refine ⟨n', by rw [commitBlock, hn'], ⟨⟨L, hcur, ?_, ?_, ?_⟩, h.keys, h.hashable, ?_, ?_, .inr ⟨hst, ?_⟩⟩,
    hdur, hcache⟩
  · rw [hcache]; exact hs.inv
  · rw [hdur]; exact hs.mirrors
  · rw [hdur]; exact hs.values
  · rw [hroot, h.root, hcache]
  · rw [hblock, h.block]
  · rw [hpend, hcache]

/-- Commit persists the writes and the marker, whose hash is then the root of the store. -/
theorem Opened.commit (hK : Set.InjOn hashPriority K) (hstored : ∀ v, Driver.stored D v = v)
    (h : Opened K n req w) :
    ∃ n', commitBlock B n none = (.ok (), n') ∧ Resting K n' ∧
      (∀ k, (Driver.durable n'.driver).get? k = committedValue id ((Driver.durable n.driver).get? k)
        ((withMarker w n.stateRootCache.rootHash req).get? k)) ∧
      computeDriverStateRoot (Driver.durable n'.driver) = .ok n.stateRootCache.rootHash := by
  obtain ⟨L, hcur, hs⟩ := h.synced
  obtain ⟨s, hn', hdur, hpend, hcache, hst, -, -⟩ := h.stagedForCommit (B := B)
  have hid : Driver.stored D = id := funext hstored
  have hget : ∀ k, (Driver.durable (Driver.commit s.driver)).get? k =
      committedValue id ((Driver.durable n.driver).get? k)
        ((withMarker w n.stateRootCache.rootHash req).get? k) := fun k => by
    rw [Driver.get?_durable_commit, hdur, hpend, hid]
  -- the marker lies outside consensus, so the root covers the writes only
  have hmirrors : Mirrors K (Driver.durable (Driver.commit s.driver)) (applyWrites (toItems w) L.committed) := by
    have hstable : ∀ k v, w.get? k = some v → isConsensusStateKey k → v ≠ .none →
        id v ≠ Value.none ∧ LeafStable id k v := fun k v _ _ hv => ⟨hv, rfl⟩
    refine hs.mirrors.commit h.keys h.hashable hstable fun k hcons => ?_
    have hk : k ≠ latestBlockKey := by
      rintro rfl
      rw [latestBlockKey_local] at hcons
      cases hcons
    rw [hget, get?_withMarker, if_neg hk]
  have hinv : Inv K s.stateRootCache.commit ⟨L.current, L.current⟩ := by rw [hcache]; exact hs.inv.commit
  have hcommit : commitBlock B n none = (.ok (), { s with
      driver := Driver.commit s.driver
      stateRootCache := s.stateRootCache.commit
      merkleRootHash := none
      currentBlockMeta := none }) := by
    rw [commitBlock, hn']
  refine ⟨_, hcommit, ⟨⟨⟨L.current, L.current⟩, hinv, ?_, ?_⟩, hst, Driver.pending_commit _⟩, hget, ?_⟩
  · rw [hcur]; exact hmirrors
  · intro k v hv hnone
    subst hnone
    rw [hget] at hv
    generalize (withMarker w n.stateRootCache.rootHash req).get? k = pending at hv
    obtain _ | v := pending
    · exact hs.values k _ hv rfl
    · rw [committedValue] at hv
      split at hv
      · cases hv
      · rename_i hne; exact hne (Option.some.inj hv)
  · exact (hcur ▸ hmirrors : Mirrors K _ L.current).root hK hs.inv

/-- A new process comes up over the store, at rest. -/
theorem Synced.restart (hK : Set.InjOn hashPriority K) (h : Synced K n L) :
    ∃ n', restart n = .ok n' ∧ Resting K n' ∧ Driver.durable n'.driver = Driver.durable n.driver := by
  obtain ⟨c, hc⟩ := h.mirrors.new hK h.inv
  obtain ⟨hinv, hmirrors⟩ := new_mirrors hK h.mirrors.keys h.values hc
  refine ⟨_, by rw [XianAbci.restart, hc]; rfl, ⟨⟨_, hinv, ?_, ?_⟩, rfl, Driver.pending_fresh _⟩,
    Driver.durable_fresh _⟩
  · rw [Driver.durable_fresh]; exact hmirrors
  · rw [Driver.durable_fresh]; exact h.values

/-- Two nodes at rest over equal stores finalize a block alike. -/
theorem Resting.driverView_eq (hn : Resting K n) (hm : Resting K m)
    (heq : ∀ k, (Driver.durable n.driver).get? k = (Driver.durable m.driver).get? k) :
    driverView m.driver = driverView n.driver := by
  rw [driverView, driverView, hn.pending, hm.pending]
  congr 1 <;> funext k <;> simp only [heq]

theorem Resting.finalizeWrites_eq (hn : Resting K n) (hm : Resting K m)
    (heq : ∀ k, (Driver.durable n.driver).get? k = (Driver.durable m.driver).get? k) :
    finalizeWrites H m req = finalizeWrites H n req := by
  rw [finalizeWrites, finalizeWrites, finalizeSets, finalizeSets, hn.driverView_eq hm heq, hn.pending, hm.pending]

theorem Resting.finalize_same (hK : Set.InjOn hashPriority K) (hn : Resting K n) (hm : Resting K m)
    (heq : ∀ k, (Driver.durable n.driver).get? k = (Driver.durable m.driver).get? k)
    (hkeys : consensusKeys (toItems (finalizeWrites H n req)) ⊆ K)
    (hfin : finalizeBlock H n req = (.ok response, n')) :
    finalizeWrites H m req = finalizeWrites H n req ∧ ∃ m', finalizeBlock H m req = (.ok response, m') := by
  obtain ⟨L, hL⟩ := hn.synced
  obtain ⟨M, hM⟩ := hm.synced
  have hview := hn.driverView_eq hm heq
  have hpend : Driver.pending m.driver = Driver.pending n.driver := by rw [hn.pending, hm.pending]
  refine ⟨hn.finalizeWrites_eq hm heq, ?_⟩
  have hleaf : ∀ k, leafOf M.committed k = leafOf L.committed k :=
    hM.mirrors.leafOf_eq (hL.mirrors.congr fun k _ => (heq k).symm) hM.inv.admittedCommitted hL.inv.admittedCommitted
  have hout : outcome (finalizeBlock H m req) = outcome (finalizeBlock H n req) :=
    outcome_finalizeBlock_congr hview hpend (hm.unstaged.trans hn.unstaged.symm)
      (prepare_fst_congr hK hM.inv hL.inv hleaf hkeys)
  rw [hfin] at hout
  have hfst : (finalizeBlock H m req).1 = .ok response := (Prod.ext_iff.1 hout).1
  exact ⟨_, Prod.ext hfst rfl⟩

/-- CheckTx and Query leave all of this as it is. -/
structure Alike (n n' : Node D) : Prop where
  durable : Driver.durable n'.driver = Driver.durable n.driver
  pending : Driver.pending n'.driver = Driver.pending n.driver
  cache : n'.stateRootCache = n.stateRootCache
  staged : n'.pendingCommitDriverState = n.pendingCommitDriverState
  root : n'.merkleRootHash = n.merkleRootHash
  block : n'.currentBlockMeta = n.currentBlockMeta

theorem alike_checkTx (n : Node D) (pendingNonces : PyDict String (List Int)) :
    Alike n (checkTx n pendingNonces) := ⟨rfl, rfl, rfl, rfl, rfl, rfl⟩

theorem alike_query (n : Node D) (vmWrites : PyDict String Value) : Alike n (query n vmWrites) :=
  ⟨(Driver.durable_setPending ..).trans (Driver.durable_applyWrites ..), Driver.pending_setPending ..,
    rfl, rfl, rfl, rfl⟩

theorem Alike.synced (h : Alike n n') (hs : Synced K n L) : Synced K n' L := by
  refine ⟨?_, ?_, ?_⟩
  · rw [h.cache]; exact hs.inv
  · rw [h.durable]; exact hs.mirrors
  · rw [h.durable]; exact hs.values

theorem Alike.resting (h : Alike n n') (hr : Resting K n) : Resting K n' := by
  obtain ⟨L, hs⟩ := hr.synced
  exact ⟨⟨L, h.synced hs⟩, h.staged.trans hr.unstaged, h.pending.trans hr.pending⟩

theorem Alike.opened (h : Alike n n') (ho : Opened K n req w) : Opened K n' req w := by
  obtain ⟨L, hcur, hs⟩ := ho.synced
  refine ⟨⟨L, hcur, h.synced hs⟩, ho.keys, ho.hashable, ?_, h.block.trans ho.block, ?_⟩
  · rw [h.root, h.cache]; exact ho.root
  · rw [h.staged, h.pending, h.cache]; exact ho.writes

end Steps

/-! ### Whole runs -/

section Track

variable (B : Builtins) (H : BlockHooks) {D : Type} [Driver D] (K : Set String) (h₀ : Int) (n₀ : Node D)

/-- The marker is that of the last committed block, and its hash the root of the store. -/
def Marked (durable : PyDict String Value) (chain : List FinalizeRequest) : Prop :=
  (chain = [] ∧ durable.get? latestBlockKey = none) ∨
    ∃ before last root, chain = before ++ [last] ∧ durable.get? latestBlockKey = some (markerOf root last).value ∧
      computeDriverStateRoot durable = .ok root

/-- Where the node is, beside the reference node `m`: a finalized block is one that the reference
node finalizes to the same writes and the same root. -/
def Phase (chain : List FinalizeRequest) (m n : Node D) : Option FinalizeRequest → Prop
  | none => Resting K n
  | some req => req.height = h₀ + chain.length ∧ ∃ w response m', Opened K n req w ∧
      finalizeBlock H m req = (.ok response, m') ∧ Opened K m' req w ∧
      m'.stateRootCache.rootHash = n.stateRootCache.rootHash

/-- The run's store is the reference node's, and its marker the chain's. -/
structure Tracked (chain : List FinalizeRequest) (opened : Option FinalizeRequest) (n : Node D) : Prop where
  heights : chain.map (·.height) = (List.range chain.length).map fun i : Nat => h₀ + (i : Int)
  marked : Marked (Driver.durable n.driver) chain
  reference : ∃ m, replay B H n₀ chain = some m ∧ Resting K m ∧
    (∀ k, (Driver.durable n.driver).get? k = (Driver.durable m.driver).get? k) ∧ Phase H K h₀ chain m n opened

variable {B H K h₀ n₀} {chain : List FinalizeRequest} {opened : Option FinalizeRequest} {n n' : Node D}

theorem Phase.synced {m : Node D} (h : Phase H K h₀ chain m n opened) : ∃ L, Synced K n L := by
  rcases opened with _ | req
  · exact Resting.synced h
  · obtain ⟨-, w, -, -, ho, -⟩ := h
    obtain ⟨L, -, hs⟩ := ho.synced
    exact ⟨L, hs⟩

theorem Phase.alike {m : Node D} (h : Phase H K h₀ chain m n opened) (ha : Alike n n') :
    Phase H K h₀ chain m n' opened := by
  rcases opened with _ | req
  · exact ha.resting h
  · obtain ⟨hheight, w, response, m', ho, hfin, ho', hroots⟩ := h
    exact ⟨hheight, w, response, m', ha.opened ho, hfin, ho', by rw [hroots, ha.cache]⟩

/-- A step that does not touch the store. -/
theorem Tracked.sameStore {opened' : Option FinalizeRequest} (h : Tracked B H K h₀ n₀ chain opened n)
    (hdur : Driver.durable n'.driver = Driver.durable n.driver)
    (hphase : ∀ m, Resting K m → (∀ k, (Driver.durable n.driver).get? k = (Driver.durable m.driver).get? k) →
      Phase H K h₀ chain m n opened → Phase H K h₀ chain m n' opened') :
    Tracked B H K h₀ n₀ chain opened' n' := by
  obtain ⟨m, hreplay, hm, heq, hph⟩ := h.reference
  refine ⟨h.heights, by rw [hdur]; exact h.marked, m, hreplay, hm, by rw [hdur]; exact heq, hphase m hm heq hph⟩

theorem Tracked.commit (hK : Set.InjOn hashPriority K) (hstored : ∀ v, Driver.stored D v = v)
    {req : FinalizeRequest} (h : Tracked B H K h₀ n₀ chain (some req) n)
    (hcommit : commitBlock B n none = (.ok (), n')) : Tracked B H K h₀ n₀ (chain ++ [req]) none n' := by
  obtain ⟨m, hreplay, -, heq, hheight, w, response, m₁, ho, hfin, ho', hroots⟩ := h.reference
  obtain ⟨_, hn', hrest, hget, hroot⟩ := ho.commit (B := B) hK hstored
  obtain ⟨m', hm', hrest', hget', -⟩ := ho'.commit (B := B) hK hstored
  cases hcommit.symm.trans hn'
  have hdur : Driver.durable m₁.driver = Driver.durable m.driver := (finalizeBlock_ok hfin).durable
  refine ⟨?_, .inr ⟨chain, req, n.stateRootCache.rootHash, rfl, ?_, hroot⟩, m', ?_, hrest', fun k => ?_, hrest⟩
  · rw [List.map_append, h.heights, List.length_append, List.length_singleton, List.range_succ, List.map_append]
    simp [hheight]
  · rw [hget, get?_withMarker, if_pos rfl, committedValue, if_neg (LatestBlock.value_ne_none _)]
    rfl
  · rw [replay, List.foldlM_append, show chain.foldlM (finalizeAndCommit B H) n₀ = some m from hreplay]
    show (finalizeAndCommit B H m req).bind some = some m'
    rw [finalizeAndCommit, hfin]
    dsimp only
    rw [hm']
    rfl
  · rw [hget, hget', hdur, heq, hroots]

theorem NodeRun.tracked (hK : Set.InjOn hashPriority K) (hstored : ∀ v, Driver.stored D v = v)
    (hn₀ : Resting K n₀) (hno : (Driver.durable n₀.driver).get? latestBlockKey = none)
    (hrun : NodeRun B H K h₀ n₀ chain opened n) : Tracked B H K h₀ n₀ chain opened n := by
  induction hrun with
  | start => exact ⟨rfl, .inl ⟨rfl, hno⟩, n₀, rfl, hn₀, fun _ => rfl, hn₀⟩
  | @finalize chain n req response n' _ hheight hkeys hfin ih =>
    refine ih.sameStore (finalizeBlock_ok hfin).durable fun m hm heq hn => ?_
    obtain ⟨hwrites, m', hfin'⟩ := Resting.finalize_same hK hn hm heq hkeys hfin
    obtain ⟨ho, hroot⟩ := Resting.finalize hK hn hkeys hfin
    obtain ⟨ho', hroot'⟩ := hm.finalize hK (by rw [hwrites]; exact hkeys) hfin'
    rw [hwrites] at ho'
    exact ⟨hheight, _, response, m', ho, hfin', ho', hroot'.symm.trans hroot⟩
  | commit _ hcommit ih => exact ih.commit hK hstored hcommit
  | @commitFails chain req n e e' n' _ hcommit ih =>
    obtain ⟨-, -, -, -, -, w, -, -, ho, -⟩ := ih.reference
    obtain ⟨_, hn', -, hdur, hcache⟩ := ho.commitFails (B := B) e
    cases hcommit.symm.trans hn'
    refine ih.sameStore hdur fun m _ _ hph => ?_
    obtain ⟨hheight, w, response, m', ho, hfin, ho', hroots⟩ := hph
    obtain ⟨_, hn', ho'', -, -⟩ := ho.commitFails (B := B) e
    cases hcommit.symm.trans hn'
    exact ⟨hheight, w, response, m', ho'', hfin, ho', by rw [hroots, hcache]⟩
  | @crash chain opened n n' _ hrestart ih =>
    obtain ⟨m, -, -, -, hph⟩ := ih.reference
    obtain ⟨L, hs⟩ := hph.synced
    obtain ⟨_, hn', hrest, hdur⟩ := hs.restart hK
    cases hrestart.symm.trans hn'
    exact ih.sameStore hdur fun _ _ _ _ => hrest
  | @checkTx chain opened n pendingNonces _ ih =>
    exact ih.sameStore rfl fun m _ _ hph => hph.alike (alike_checkTx n pendingNonces)
  | @query chain opened n vmWrites _ ih =>
    exact ih.sameStore (alike_query n vmWrites).durable fun m _ _ hph => hph.alike (alike_query n vmWrites)

/-- A node started over a store without `None`. -/
theorem resting_of_restart {n : Node D} (hK : Set.InjOn hashPriority K) (hstart : restart n = .ok n₀)
    (hkeys : consensusKeys (toItems (Driver.durable n.driver)) ⊆ K)
    (hvalues : ∀ k v, (Driver.durable n.driver).get? k = some v → v ≠ .none) :
    Resting K n₀ ∧ Driver.durable n₀.driver = Driver.durable n.driver := by
  unfold restart at hstart
  rcases hnew : StateRootCache.new (toItems (Driver.durable n.driver)) with e | c
  · rw [hnew] at hstart; cases hstart
  rw [hnew] at hstart
  cases hstart
  obtain ⟨hinv, hmirrors⟩ := new_mirrors hK hkeys hvalues hnew
  refine ⟨⟨⟨_, hinv, ?_, ?_⟩, rfl, Driver.pending_fresh _⟩, Driver.durable_fresh _⟩
  · rw [Driver.durable_fresh]; exact hmirrors
  · rw [Driver.durable_fresh]; exact hvalues

end Track

end XianAbci
