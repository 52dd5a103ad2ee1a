import XianAbci.BlockStages
import XianAbci.Proposal

/-!
# FinalizeBlock with the node's own settings

`_assemble_tx_results` and the enqueueing of a block for the indexer (BDS) read settings that differ
from node to node: the mempool's transaction size, whether the node indexes, what it logs.
`finalizeBlockLocal` is `finalize_block` with all of them, with the log lines and the payload it hands to
the indexer. The payload shares the transaction result with the response; its hash is replaced only after
the response was encoded, so leaving the payload out gives `finalizeBlock` (`finalizeBlockLocal_fst`).
-/

namespace XianAbci

/-- Settings of `config.toml`; the log lines are those of `transaction_trace_logging` at the levels
`DEBUG` and `TRACE`. -/
structure LocalSettings where
  maxTxBytes : Nat
  bdsEnabled : Bool
  traceDebugLogging : Bool
  traceFullLogging : Bool

/-- What `_assemble_tx_results` logs of a transaction. -/
inductive LogLine
  | finalized (txIndex : Nat) (status chiUsed : Int) (stateWriteCount eventCount : Nat)
  | encoded (txIndex : Nat) (status : Int) (receipt : Value)

structure BdsTransactionPayload where
  txIndex : Nat
  -- the transaction without its block metadata
  envelope : Value
  txResult : TxResult

structure BdsBlockPayload where
  blockMeta : BlockMeta
  -- `block_time`, in microseconds
  blockTime : Int
  appHash : String
  transactions : List BdsTransactionPayload
  statePatches : List Value
  statePatchHash : Option String

structure Assembled where
  txResults : List ExecTxResult
  bdsTransactions : List BdsTransactionPayload
  log : List LogLine

/-- `s.upper()` of hexadecimal text. -/
def upperHex (s : String) : String := String.ofList (s.toList.map Char.toUpper)

/-- `tx_result["hash"] = hash_bytes(tx_bytes).upper()`. -/
def indexedResult (txBytes : Bytes) (result : TxResult) : TxResult :=
  { result with hash := upperHex (sha256Hex txBytes) }

section Stages

variable (H : BlockHooks) (envelope : Tx → Value) (settings : LocalSettings)

def traceLines (txIndex : Nat) (result : TxResult) (receipt : Value) : List LogLine :=
  (if settings.traceDebugLogging then
    [.finalized txIndex result.status result.chiUsed result.state.length result.events.length] else []) ++
  if settings.traceFullLogging then [.encoded txIndex result.status receipt] else []

/-- One entry in front of what the later ones give. -/
def Assembled.cons (txResult : ExecTxResult) (bds : List BdsTransactionPayload) (log : List LogLine)
    (rest : Assembled) : Assembled :=
  ⟨txResult :: rest.txResults, bds ++ rest.bdsTransactions, log ++ rest.log⟩

/-- `_execute_block_transactions` and `_assemble_tx_results` over the entries, with their raw bytes. -/
def assembleIndexed : Nat → List (Bytes × Except String Tx) → List (Option TxResult) → BlockM Assembled
  | _, [], _ => return ⟨[], [], []⟩
  | i, (_, .error message) :: entries, results =>
    return .cons (.error message) [] [] (← assembleIndexed (i + 1) entries results)
  | i, (_, .ok _) :: entries, [] =>
    return .cons (.error "Error processing tx: ") [] [] (← assembleIndexed (i + 1) entries [])
  | i, (_, .ok _) :: entries, none :: results =>
    return .cons (.error "Transaction processor returned no tx_result") [] []
      (← assembleIndexed (i + 1) entries results)
  | i, (txBytes, .ok tx) :: entries, some result :: results =>
    if result.hash = "" then
      return .cons (.error "Transaction processor returned no tx hash") [] []
        (← assembleIndexed (i + 1) entries results)
    else do
      .set (nonceKey tx.sender) tx.nonce
      let data ← .lift (H.encodeResult result)
      -- the response holds the encoded result; only then is the shared dict given CometBFT's hash
      let bds := if settings.bdsEnabled then [⟨i, envelope tx, indexedResult txBytes result⟩] else []
      return .cons (.result result.status data) bds (traceLines settings i result data)
        (← assembleIndexed (i + 1) entries results)

/-- `blockStages` with everything the block leaves for the indexer. -/
def blockStagesLocal (req : FinalizeRequest) : BlockM (BlockResult × Assembled × Option String) := do
  let entries ← .reads (H.decodeBlockTransactions req)
  let results ← H.executeTransactions (entries.filterMap Except.toOption)
  let assembled ← assembleIndexed H envelope settings 0 (req.txs.zip entries) results
  H.applyEvidencePenalties req
  H.runEpochRebalance req.height
  let validatorUpdates ← H.buildValidatorUpdates req.height
  let patchHash ← H.applyPatchesForBlock (blockMeta req)
  return (⟨validatorUpdates, assembled.txResults⟩, assembled, patchHash)

variable {D : Type} [Driver D] (appliedPatches : DriverView → BlockMeta → List Value)

/-- The payload of `_enqueue_bds_block`. -/
def livePayload (req : FinalizeRequest) (view : DriverView) (assembled : Assembled) (patchHash : Option String)
    (appHash : Bytes) : BdsBlockPayload where
  blockMeta := blockMeta req
  blockTime := req.nanos / 1000
  appHash := upperHex (bytesHex appHash)
  transactions := assembled.bdsTransactions
  statePatches := appliedPatches view (blockMeta req)
  statePatchHash := patchHash

/-- `finalize_block` of `methods/finalize_block.py`: the response, the node, and the payload enqueued for the
indexer. -/
def finalizeBlockBodyLocal (n : Node D) (req : FinalizeRequest) :
    (Except PyErr ResponseFinalizeBlock × Node D) × Option BdsBlockPayload :=
  match initializeBlock H n req with
  | .error e => ((.error e, n), none)
  | .ok n =>
    let view := driverView n.driver
    let (result, sets) := blockStagesLocal H envelope settings req view
    let n := { n with driver := Driver.applyWrites n.driver (.ofList sets) }
    match result with
    | .error e => ((.error e, n), none)
    | .ok (result, assembled, patchHash) =>
      match n.stateRootCache.prepare (keyed (Driver.pending n.driver)) with
      | (.error e, cache) => ((.error e, { n with stateRootCache := cache }), none)
      | (.ok root, cache) =>
        let n := { n with stateRootCache := cache, merkleRootHash := some root }
        let enqueued := if settings.bdsEnabled then
          some (livePayload appliedPatches req view assembled patchHash root) else none
        match n.pendingCommitDriverState with
        | some _ => ((.error (.runtimeError "previous block has staged writes that were not committed"), n), enqueued)
        | none => ((.ok ⟨result.validatorUpdates, result.txResults, root⟩,
            { n with
              pendingCommitDriverState := some (Driver.pending n.driver)
              driver := Driver.setPending n.driver .empty }), enqueued)

def finalizeBlockLocal (n : Node D) (req : FinalizeRequest) :
    (Except PyErr ResponseFinalizeBlock × Node D) × Option BdsBlockPayload :=
  match finalizeBlockBodyLocal H envelope settings appliedPatches n req with
  | ((.ok response, n), enqueued) => ((.ok response, n), enqueued)
  | ((.error e, n), enqueued) => ((.error e,
      { n with pendingCommitDriverState := none, stateRootCache := n.stateRootCache.rollback }), enqueued)

end Stages

/-! ### The indexer and the log do not reach the response -/

namespace BlockM

variable {α β γ : Type}

/-- A stage with its result read through `f`. -/
def mapOk (f : α → β) (m : BlockM α) : BlockM β := fun view => ((m view).1.map f, (m view).2)

theorem mapOk_bind (f : β → γ) (m : BlockM α) (k : α → BlockM β) : mapOk f (m >>= k) = m >>= fun a => mapOk f (k a) := by
  funext view
  change mapOk f (BlockM.bind m k) view = BlockM.bind m _ view
  unfold mapOk BlockM.bind
  rcases m view with ⟨e | a, sets⟩
  · rfl
  · rfl

theorem bind_mapOk (f : α → β) (m : BlockM α) (k : β → BlockM γ) : (mapOk f m >>= k) = m >>= fun a => k (f a) := by
  funext view
  change BlockM.bind (mapOk f m) k view = BlockM.bind m _ view
  unfold mapOk BlockM.bind
  dsimp only
  rcases m view with ⟨e | a, sets⟩
  · rfl
  · rfl

theorem reads_bind (f : (String → Value) → α) (k : α → BlockM β) (view : DriverView) :
    (BlockM.reads f >>= k) view = k (f view.current) view := rfl

end BlockM

section Response

variable (H : BlockHooks) (envelope : Tx → Value) (settings : LocalSettings)

theorem mapOk_cons (txResult : ExecTxResult) (bds : List BdsTransactionPayload) (log : List LogLine)
    (m : BlockM Assembled) :
    BlockM.mapOk Assembled.txResults (do return .cons txResult bds log (← m)) =
      (do return txResult :: (← BlockM.mapOk Assembled.txResults m)) := by
  rw [BlockM.mapOk_bind, BlockM.bind_mapOk]
  rfl

/-- The results of a block are those of `assembleTxResults`, whatever is indexed and logged. -/
theorem assembleIndexed_txResults (i : Nat) (entries : List (Bytes × Except String Tx))
    (results : List (Option TxResult)) :
    BlockM.mapOk Assembled.txResults (assembleIndexed H envelope settings i entries results) =
      assembleTxResults H (entries.map Prod.snd) results := by
  induction entries generalizing i results with
  | nil => rfl
  | cons entry entries ih =>
    rcases entry with ⟨txBytes, message | tx⟩
    · rw [List.map_cons, assembleIndexed, assembleTxResults, mapOk_cons, ih]
    · rcases results with _ | ⟨_ | result, results⟩
      · rw [List.map_cons, assembleIndexed, assembleTxResults, mapOk_cons, ih]
      · rw [List.map_cons, assembleIndexed, assembleTxResults, mapOk_cons, ih]
      · rw [List.map_cons, assembleIndexed, assembleTxResults]
        by_cases hhash : result.hash = ""
        · rw [if_pos hhash, if_pos hhash, mapOk_cons, ih]
        · rw [if_neg hhash, if_neg hhash, BlockM.mapOk_bind]
          congr 1
          funext _
          rw [BlockM.mapOk_bind]
          congr 1
          funext data
          rw [mapOk_cons, ih]

theorem blockStagesLocal_result {req : FinalizeRequest} {view : DriverView}
    (hlength : (H.decodeBlockTransactions req view.current).length = req.txs.length) :
    BlockM.mapOk Prod.fst (blockStagesLocal H envelope settings req) view = blockStages H req view := by
  have hentries : (req.txs.zip (H.decodeBlockTransactions req view.current)).map Prod.snd =
      H.decodeBlockTransactions req view.current := List.map_snd_zip hlength.le
  have hassemble : ∀ results, assembleTxResults H (H.decodeBlockTransactions req view.current) results =
      BlockM.mapOk Assembled.txResults (assembleIndexed H envelope settings 0
        (req.txs.zip (H.decodeBlockTransactions req view.current)) results) := by
    intro results
    rw [assembleIndexed_txResults, hentries]
  unfold blockStagesLocal blockStages
  rw [BlockM.mapOk_bind, BlockM.reads_bind, BlockM.reads_bind, BlockM.mapOk_bind]
  refine congrFun (congrArg _ (funext fun results => ?_)) view
  rw [hassemble, BlockM.bind_mapOk, BlockM.mapOk_bind]
  congr 1
  funext assembled
  simp only [BlockM.mapOk_bind]
  rfl

variable {D : Type} [Driver D] (appliedPatches : DriverView → BlockMeta → List Value) {n : Node D}
  {req : FinalizeRequest}

/-- Without its payload, the block is `finalizeBlock`'s. -/
theorem finalizeBlockLocal_fst (hlength : ∀ s, (H.decodeBlockTransactions req s).length = req.txs.length) :
    (finalizeBlockLocal H envelope settings appliedPatches n req).1 = finalizeBlock H n req := by
  have hbody : (finalizeBlockBodyLocal H envelope settings appliedPatches n req).1 = finalizeBlockBody H n req := by
    unfold finalizeBlockBodyLocal finalizeBlockBody
    rcases initializeBlock H n req with e | n'
    · rfl
    have hstages := blockStagesLocal_result H envelope settings (hlength (driverView n'.driver).current)
    dsimp only
    rw [← hstages, BlockM.mapOk]
    rcases blockStagesLocal H envelope settings req (driverView n'.driver)
      with ⟨e | ⟨result, assembled, patchHash⟩, sets⟩
    · rfl
    · dsimp only [Except.map]
      rcases n'.stateRootCache.prepare _ with ⟨e | root, cache⟩
      · rfl
      · dsimp only
        rcases n'.pendingCommitDriverState with _ | staged
        · rfl
        · rfl
  unfold finalizeBlockLocal finalizeBlock
  rw [← hbody]
  rcases finalizeBlockBodyLocal H envelope settings appliedPatches n req with ⟨⟨e | response, n'⟩, enqueued⟩
  · rfl
  · rfl

end Response

end XianAbci
