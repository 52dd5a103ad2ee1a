import XianAbci.Block
import XianAbci.Parallel
import XianAbci.RestartRoot

/-!
# FinalizeBlock, Commit and restart (`methods/finalize_block.py`, `methods/commit.py`, `xian_abci.py`)

FinalizeBlock runs the stages of a block on the live driver, computes the app hash from the pending
writes and detaches these until Commit, which attaches them again, adds the latest-block marker and
persists everything in one storage transaction.

A stage is a program that reads the driver's values, sets some and may raise; what it set before
raising stays set. Decoding, evidence, rebalancing, validator updates and patches are such programs
given from outside (`BlockHooks`); the execution of the transactions is `processAll`.
-/

namespace XianAbci

/-- What a stage reads: `raw_driver.value_from_disk` and `raw_driver.get`. -/
structure DriverView where
  committed : String → Value
  current : String → Value

/-- The view after some calls of `raw_driver.set`. -/
def DriverView.overwrite (view : DriverView) (sets : List (String × Value)) : DriverView :=
  { view with current := fun key => (sets.reverse.lookup key).getD (view.current key) }

/-- The result of a stage, and the calls of `raw_driver.set` it made. -/
def BlockM (α : Type) : Type := DriverView → Except PyErr α × List (String × Value)

namespace BlockM

variable {α β : Type}

def bind (m : BlockM α) (f : α → BlockM β) : BlockM β := fun view =>
  match m view with
  | (.error e, sets) => (.error e, sets)
  | (.ok a, sets) =>
    let (result, sets') := f a (view.overwrite sets)
    (result, sets ++ sets')

instance : Monad BlockM where
  pure a := fun _ => (.ok a, [])
  bind := bind

def set (key : String) (value : Value) : BlockM Unit := fun _ => (.ok (), [(key, value)])

def lift (x : Except PyErr α) : BlockM α := fun _ => (x, [])

def reads (f : (String → Value) → α) : BlockM α := fun view => (.ok (f view.current), [])

end BlockM

/-- An evidence entry of a block. -/
structure Misbehavior where
  type : Int
  validatorAddress : Bytes
  height : Int
  timeSeconds : Int
  timeNanos : Int
  totalVotingPower : Int

structure ValidatorUpdate where
  pubKey : Bytes
  power : Int
deriving DecidableEq, Repr

structure FinalizeRequest where
  height : Int
  nanos : Int
  hash : Bytes
  txs : List Bytes
  misbehavior : List Misbehavior

structure BlockMeta where
  nanos : Int
  height : Int
  hash : String

inductive ExecTxResult
  | error (message : String)
  | result (code : Int) (data : Value)

structure BlockHooks where
  -- `convert_cometbft_time_to_datetime`, which raises outside the years of `datetime`
  blockDatetime : Int → Except PyErr Unit
  -- an entry is a transaction, or why it is rejected
  decodeBlockTransactions : FinalizeRequest → (String → Value) → List (Except String Tx)
  executeTransactions : List Tx → BlockM (List (Option TxResult))
  -- `encode_abci_json(tx_result)` and the events
  encodeResult : TxResult → Except PyErr Value
  applyEvidencePenalties : FinalizeRequest → BlockM Unit
  runEpochRebalance : Int → BlockM Unit
  buildValidatorUpdates : Int → BlockM (List ValidatorUpdate)
  applyPatchesForBlock : BlockMeta → BlockM (Option String)

/-- The transactions of a block by `process_tx`, one after another, from an empty chi cost cache. -/
def serialExecution (E : Decimals) (R : Runtime) (policy : TxFeePolicy) (txs : List Tx) :
    BlockM (List (Option TxResult)) := fun view =>
  let (results, final) := processAll E R policy true ⟨view.current, .empty, none⟩ txs
  (.ok results, final.pending.items)

def nonceKey (sender : String) : String := "__n" ++ indexSeparator ++ sender ++ delimiter

structure BlockResult where
  validatorUpdates : List ValidatorUpdate
  txResults : List ExecTxResult

structure ResponseFinalizeBlock where
  validatorUpdates : List ValidatorUpdate
  txResults : List ExecTxResult
  appHash : Bytes

section Stages

variable (H : BlockHooks)

/-- `_assemble_tx_results` over the entries and their results: the nonce is set before the result is encoded. -/
def assembleTxResults : List (Except String Tx) → List (Option TxResult) → BlockM (List ExecTxResult)
  | [], _ => return []
  | .error message :: entries, results => return .error message :: (← assembleTxResults entries results)
  | .ok _ :: entries, [] => return .error "Error processing tx: " :: (← assembleTxResults entries [])
  | .ok _ :: entries, none :: results =>
    return .error "Transaction processor returned no tx_result" :: (← assembleTxResults entries results)
  | .ok tx :: entries, some result :: results =>
    if result.hash = "" then
      return .error "Transaction processor returned no tx hash" :: (← assembleTxResults entries results)
    else do
      .set (nonceKey tx.sender) tx.nonce
      let data ← .lift (H.encodeResult result)
      return .result result.status data :: (← assembleTxResults entries results)

def blockMeta (req : FinalizeRequest) : BlockMeta := ⟨req.nanos, req.height, bytesHex req.hash⟩

/-- Everything FinalizeBlock does to the driver before the state root. -/
def blockStages (req : FinalizeRequest) : BlockM BlockResult := do
  let entries ← .reads (H.decodeBlockTransactions req)
  let results ← H.executeTransactions (entries.filterMap Except.toOption)
  let txResults ← assembleTxResults H entries results
  H.applyEvidencePenalties req
  H.runEpochRebalance req.height
  let validatorUpdates ← H.buildValidatorUpdates req.height
  let _ ← H.applyPatchesForBlock (blockMeta req)
  return ⟨validatorUpdates, txResults⟩

end Stages

/-! ### The node -/

structure Node (D : Type) where
  driver : D
  stateRootCache : StateRootCache
  pendingCommitDriverState : Option (PyDict String Value)
  merkleRootHash : Option Bytes
  currentBlockMeta : Option BlockMeta
  -- `NonceStorage.pending_nonces`, which only CheckTx and the clean-up after a commit touch
  pendingNonces : PyDict String (List Int)

/-- The values of the driver; an absent key reads as `None`. -/
def driverView {D : Type} [Driver D] (driver : D) : DriverView where
  committed key := ((Driver.durable driver).get? key).getD .none
  current key := ((Driver.pending driver).get? key).getD (((Driver.durable driver).get? key).getD .none)

section Node

variable (B : Builtins) (H : BlockHooks) {D : Type} [Driver D]

/-- `_initialize_block`. -/
def initializeBlock (n : Node D) (req : FinalizeRequest) : Except PyErr (Node D) :=
  (H.blockDatetime req.nanos).map fun _ => { n with currentBlockMeta := some (blockMeta req) }

/-- `finalize_block` of `methods/finalize_block.py`. A failing BDS enqueue is logged and dropped. -/
def finalizeBlockBody (n : Node D) (req : FinalizeRequest) : Except PyErr ResponseFinalizeBlock × Node D :=
  match initializeBlock H n req with
  | .error e => (.error e, n)
  | .ok n =>
    let (result, sets) := blockStages H req (driverView n.driver)
    let n := { n with driver := Driver.applyWrites n.driver (.ofList sets) }
    match result with
    | .error e => (.error e, n)
    | .ok result =>
      match n.stateRootCache.prepare (keyed (Driver.pending n.driver)) with
      | (.error e, cache) => (.error e, { n with stateRootCache := cache })
      | (.ok root, cache) =>
        let n := { n with stateRootCache := cache, merkleRootHash := some root }
        -- `_stage_pending_commit_driver_state`
        match n.pendingCommitDriverState with
        | some _ => (.error (.runtimeError "previous block has staged writes that were not committed"), n)
        | none => (.ok ⟨result.validatorUpdates, result.txResults, root⟩,
            { n with
              pendingCommitDriverState := some (Driver.pending n.driver)
              driver := Driver.setPending n.driver .empty })

/-- `Xian.finalize_block`: on an exception the staged writes are discarded and the root cache rolled back. -/
def finalizeBlock (n : Node D) (req : FinalizeRequest) : Except PyErr ResponseFinalizeBlock × Node D :=
  match finalizeBlockBody H n req with
  | (.ok response, n) => (.ok response, n)
  | (.error e, n) => (.error e,
      { n with pendingCommitDriverState := none, stateRootCache := n.stateRootCache.rollback })

/-- `_restore_pending_commit_driver_state`. -/
def restorePendingCommitDriverState (n : Node D) : Node D :=
  match n.pendingCommitDriverState with
  | none => n
  | some staged => { n with driver := Driver.setPending n.driver staged, pendingCommitDriverState := none }

/-- The driver as `hard_apply` finds it: the block's writes attached, the marker staged. -/
def stagedForCommit (n : Node D) : Except PyErr (Node D) :=
  let n := restorePendingCommitDriverState n
  match n.merkleRootHash, n.currentBlockMeta with
  | some root, some block => (stageLatestBlock B n.driver root block.height block.nanos).map
      fun p => { n with driver := p.2 }
  | none, _ => .error (.attributeError "'NoneType' object has no attribute 'hex'")
  | some _, none => .error (.typeError "'NoneType' object is not subscriptable")

/-- `commit`; `hardApply` is what the storage transaction raises, if it fails. A failed one leaves the
writes, with the marker, pending. -/
def commitBlock (n : Node D) (hardApply : Option PyErr) : Except PyErr Unit × Node D :=
  match stagedForCommit B n with
  | .error e => (.error e, restorePendingCommitDriverState n)
  | .ok n =>
    match hardApply with
    | some e => (.error e, n)
    | none => (.ok (), { n with
        driver := Driver.commit n.driver
        stateRootCache := n.stateRootCache.commit
        merkleRootHash := none
        currentBlockMeta := none })

/-- A new process over the same storage. -/
def restart (n : Node D) : Except PyErr (Node D) :=
  (StateRootCache.new (StateRootCache.toItems (Driver.durable n.driver))).map
    fun cache => ⟨Driver.fresh n.driver, cache, none, none, none, .empty⟩

/-- `check_tx` puts back the reads it recorded; what is left of it is nonce reservations. -/
def checkTx (n : Node D) (pendingNonces : PyDict String (List Int)) : Node D :=
  { n with pendingNonces := pendingNonces }

/-- `query`: a contract call runs on the live driver, between `snapshot_state` and `restore_state`. -/
def query (n : Node D) (vmWrites : PyDict String Value) : Node D :=
  { n with driver := Driver.setPending (Driver.applyWrites n.driver vmWrites) (Driver.pending n.driver) }

/-! ### What a call of FinalizeBlock comes to -/

/-- What the stages set, up to the exception if one raises. -/
def finalizeSets (n : Node D) (req : FinalizeRequest) : List (String × Value) :=
  match H.blockDatetime req.nanos with
  | .error _ => []
  | .ok _ => (blockStages H req (driverView n.driver)).2

/-- The pending writes once the stages have run. -/
def finalizeWrites (n : Node D) (req : FinalizeRequest) : PyDict String Value :=
  (Driver.pending n.driver).update (PyDict.ofList (finalizeSets H n req)).items

/-- A call that returned. -/
structure Finalized (n : Node D) (req : FinalizeRequest) (response : ResponseFinalizeBlock) (n' : Node D) :
    Prop where
  datetime : H.blockDatetime req.nanos = .ok ()
  stages : ∃ result, blockStages H req (driverView n.driver) = (.ok result, finalizeSets H n req) ∧
    response = ⟨result.validatorUpdates, result.txResults, response.appHash⟩
  unstaged : n.pendingCommitDriverState = none
  root : (n.stateRootCache.prepare (keyed (finalizeWrites H n req))).1 = .ok response.appHash
  cache : n'.stateRootCache = (n.stateRootCache.prepare (keyed (finalizeWrites H n req))).2
  durable : Driver.durable n'.driver = Driver.durable n.driver
  pending : Driver.pending n'.driver = .empty
  staged : n'.pendingCommitDriverState = some (finalizeWrites H n req)
  appHash : n'.merkleRootHash = some response.appHash
  block : n'.currentBlockMeta = some (blockMeta req)

variable {H} {n n' : Node D} {req : FinalizeRequest} {e : PyErr} {response : ResponseFinalizeBlock}

theorem finalizeBlock_error (h : finalizeBlock H n req = (.error e, n')) :
    n'.pendingCommitDriverState = none ∧ Driver.durable n'.driver = Driver.durable n.driver ∧
      Driver.pending n'.driver = finalizeWrites H n req ∧
      (n'.stateRootCache = n.stateRootCache.rollback ∨
        n'.stateRootCache = (n.stateRootCache.prepare (keyed (finalizeWrites H n req))).2.rollback) := by
  unfold finalizeBlock finalizeBlockBody initializeBlock at h
  unfold finalizeWrites finalizeSets
  rcases ht : H.blockDatetime req.nanos with e' | u
  · rw [ht] at h
    obtain ⟨-, rfl⟩ := Prod.mk.inj h
    exact ⟨rfl, rfl, rfl, .inl rfl⟩
  rw [ht] at h
  dsimp only [Except.map] at h ⊢
  rcases hst : blockStages H req (driverView n.driver) with ⟨e' | result, sets⟩
  · rw [hst] at h
    obtain ⟨-, rfl⟩ := Prod.mk.inj h
    exact ⟨rfl, Driver.durable_applyWrites .., Driver.pending_applyWrites .., .inl rfl⟩
  rw [hst] at h
  dsimp only at h ⊢
  rw [Driver.pending_applyWrites] at h
  rcases hp : n.stateRootCache.prepare (keyed ((Driver.pending n.driver).update (PyDict.ofList sets).items))
    with ⟨e' | root, cache⟩
  · rw [hp] at h
    obtain ⟨-, rfl⟩ := Prod.mk.inj h
    exact ⟨rfl, Driver.durable_applyWrites .., Driver.pending_applyWrites .., .inr rfl⟩
  rw [hp] at h
  rcases hs : n.pendingCommitDriverState with _ | staged
  · rw [hs] at h; cases (Prod.mk.inj h).1
  · rw [hs] at h
    obtain ⟨-, rfl⟩ := Prod.mk.inj h
    exact ⟨rfl, Driver.durable_applyWrites .., Driver.pending_applyWrites .., .inr rfl⟩

theorem finalizeBlock_ok (h : finalizeBlock H n req = (.ok response, n')) : Finalized H n req response n' := by
  unfold finalizeBlock finalizeBlockBody initializeBlock at h
  rcases ht : H.blockDatetime req.nanos with e' | u
  · rw [ht] at h; cases (Prod.mk.inj h).1
  rw [ht] at h
  dsimp only [Except.map] at h
  rcases hst : blockStages H req (driverView n.driver) with ⟨e' | result, sets⟩
  · rw [hst] at h; cases (Prod.mk.inj h).1
  rw [hst] at h
  dsimp only at h
  rw [Driver.pending_applyWrites] at h
  rcases hp : n.stateRootCache.prepare (keyed ((Driver.pending n.driver).update (PyDict.ofList sets).items))
    with ⟨e' | root, cache⟩
  · rw [hp] at h; cases (Prod.mk.inj h).1
  rw [hp] at h
  rcases hs : n.pendingCommitDriverState with _ | staged
  · rw [hs] at h
    obtain ⟨hr, rfl⟩ := Prod.mk.inj h
    cases hr
    have hsets : finalizeSets H n req = sets := by rw [finalizeSets, ht, hst]
    have hw : finalizeWrites H n req = (Driver.pending n.driver).update (PyDict.ofList sets).items := by
      rw [finalizeWrites, hsets]
    refine ⟨ht, ⟨result, by rw [hst, hsets], rfl⟩, hs, ?_, ?_, ?_, Driver.pending_setPending .., ?_, rfl, rfl⟩
    · rw [hw, hp]
    · rw [hw, hp]
    · exact (Driver.durable_setPending ..).trans (Driver.durable_applyWrites ..)
    · rw [hw, ← Driver.pending_applyWrites]
  · rw [hs] at h; cases (Prod.mk.inj h).1

/-- The response or the exception, and what is staged for Commit. -/
def outcome (r : Except PyErr ResponseFinalizeBlock × Node D) :
    Except PyErr ResponseFinalizeBlock × Option (PyDict String Value) :=
  (r.1, r.2.pendingCommitDriverState)

/-- The outcome depends on what the driver reads and holds pending, on what is staged and on the prepared root. -/
theorem outcome_finalizeBlock_congr (hview : driverView n'.driver = driverView n.driver)
    (hpend : Driver.pending n'.driver = Driver.pending n.driver)
    (hstaged : n'.pendingCommitDriverState = n.pendingCommitDriverState)
    (hroot : (n'.stateRootCache.prepare (keyed (finalizeWrites H n req))).1 =
      (n.stateRootCache.prepare (keyed (finalizeWrites H n req))).1) :
    outcome (finalizeBlock H n' req) = outcome (finalizeBlock H n req) := by
  unfold finalizeWrites finalizeSets at hroot
  unfold finalizeBlock finalizeBlockBody initializeBlock
  rcases ht : H.blockDatetime req.nanos with e' | u
  · rfl
  rw [ht] at hroot
  dsimp only [Except.map] at hroot ⊢
  rw [hview]
  rcases hst : blockStages H req (driverView n.driver) with ⟨e' | result, sets⟩
  · rfl
  rw [hst] at hroot
  dsimp only at hroot ⊢
  rw [Driver.pending_applyWrites, Driver.pending_applyWrites, hpend]
  generalize n'.stateRootCache.prepare (keyed ((Driver.pending n.driver).update (PyDict.ofList sets).items)) = r'
    at hroot ⊢
  generalize n.stateRootCache.prepare (keyed ((Driver.pending n.driver).update (PyDict.ofList sets).items)) = r
    at hroot ⊢
  obtain ⟨_ | root', cache'⟩ := r' <;> obtain ⟨_ | root, cache⟩ := r <;> cases hroot
  · rfl
  · dsimp only
    rw [hstaged]
    rcases n.pendingCommitDriverState with _ | staged <;> rfl

end Node

end XianAbci
