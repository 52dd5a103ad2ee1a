import XianAbci.LocalSettings

/-!
# Which result belongs to which transaction (`methods/finalize_block.py`)

`_decode_block_transactions` leaves an entry for every raw transaction, and only the decoded ones are executed. In
a serial block `process_tx` is called entry by entry, and its exception becomes the entry's error; after a parallel
execution the results are taken from an iterator, one for each entry that is no error. `_assemble_tx_results` turns
what is left into the results of the block and the transactions for the indexer. `AnsweredAt` says what stands at
a place of the block, and the transactions' places and the results' are the same.
-/

namespace XianAbci

/-- What `_execute_block_transactions` leaves of an entry. -/
inductive ProcessedEntry
  | error (message : String)
  | processed (blockTxIndex : Nat) (tx : Tx) (txBytes : Bytes) (txResult : TxResult)

/-- The entry of a transaction from its response: an exception, a response without a result, or a result. -/
def processedEntry (i : Nat) (tx : Tx) (txBytes : Bytes) : Except PyErr (Option TxResult) → ProcessedEntry
  | .error e => .error ("Error processing tx: " ++ e.text)
  | .ok none => .error "Transaction processor returned no tx_result"
  | .ok (some txResult) => .processed i tx txBytes txResult

/-- `next` of an iterator that has ended. -/
def stopIteration : PyErr := .other ""

section Model

variable (E : Decimals) (R : Runtime) (policy : TxFeePolicy)

/-- `process_tx`; the block time and the chi cost are read before its own handler, and that may raise. -/
def processTxRaising (raises : BlockState → Tx → Option PyErr) (S : BlockState) (tx : Tx) :
    Except PyErr (Option TxResult) × BlockState :=
  match raises S tx with
  | some e => (.error e, S)
  | none =>
    let (response, S') := processTx E R policy true S tx
    (.ok (responseResult tx response), S')

/-- `_execute_block_transactions` over the entries, with their raw bytes; without processed results each
transaction is processed in its turn. -/
def executeBlockTransactions (raises : BlockState → Tx → Option PyErr) : BlockState → Nat →
    List (Bytes × Except String Tx) → Option (List (Option TxResult)) → List ProcessedEntry × BlockState
  | S, _, [], _ => ([], S)
  | S, i, (_, .error message) :: entries, processed =>
    let (rest, S') := executeBlockTransactions raises S (i + 1) entries processed
    (.error message :: rest, S')
  | S, i, (txBytes, .ok tx) :: entries, some [] =>
    let (rest, S') := executeBlockTransactions raises S (i + 1) entries (some [])
    (processedEntry i tx txBytes (.error stopIteration) :: rest, S')
  | S, i, (txBytes, .ok tx) :: entries, some (result :: processed) =>
    let (rest, S') := executeBlockTransactions raises S (i + 1) entries (some processed)
    (processedEntry i tx txBytes (.ok result) :: rest, S')
  | S, i, (txBytes, .ok tx) :: entries, none =>
    let (response, S₁) := processTxRaising E R policy raises S tx
    let (rest, S') := executeBlockTransactions raises S₁ (i + 1) entries none
    (processedEntry i tx txBytes response :: rest, S')

variable (H : BlockHooks) (encode : TxResult → Except PyErr Value) (envelope : Tx → Value) (settings : LocalSettings)

/-- `_assemble_tx_results`; `encode` is `encode_abci_json`. -/
def assembleProcessed : List ProcessedEntry → BlockM Assembled
  | [] => return ⟨[], [], []⟩
  | .error message :: entries => return .cons (.error message) [] [] (← assembleProcessed entries)
  | .processed i tx txBytes txResult :: entries =>
    if txResult.hash = "" then
      return .cons (.error "Transaction processor returned no tx hash") [] [] (← assembleProcessed entries)
    else do
      .set (nonceKey tx.sender) tx.nonce
      let data ← .lift (encode txResult)
      let bds := if settings.bdsEnabled then [⟨i, envelope tx, indexedResult txBytes txResult⟩] else []
      return .cons (.result txResult.status data) bds (traceLines settings i txResult data)
        (← assembleProcessed entries)

/-- From the request to the results: decoding, execution and assembly. `parallel` is the parallel executor, which
gives no results where it is not enabled for the block. -/
def transactionStages (parallel : List Tx → BlockM (Option (List (Option TxResult))))
    (raises : BlockState → Tx → Option PyErr) (req : FinalizeRequest) : BlockM Assembled := do
  let entries ← .reads (H.decodeBlockTransactions req)
  let processed ← parallel (entries.filterMap Except.toOption)
  let processedEntries ← fun view =>
    let (processedEntries, S) := executeBlockTransactions E R policy raises ⟨view.current, .empty, none⟩ 0
      (req.txs.zip entries) processed
    (.ok processedEntries, S.pending.items)
  assembleProcessed H.encodeResult envelope settings processedEntries

/-- The execution of a block as one stage. -/
def executeHook (parallel : List Tx → BlockM (Option (List (Option TxResult)))) (txs : List Tx) :
    BlockM (List (Option TxResult)) := do
  match ← parallel txs with
  | some results => return results
  | none => serialExecution E R policy txs

end Model

/-! ### Whose response it is -/

section Responses

variable (E : Decimals) (R : Runtime) (policy : TxFeePolicy)

/-- The response is the transaction's own, from the main process or from an accepted speculation. -/
inductive Responds (tx : Tx) : Option TxResult → Prop
  | processed (S : BlockState) : Responds tx (responseResult tx (processTx E R policy true S tx).1)
  | speculated (base current : BlockState) {outcome : TxOutcome} {writes : List (String × Value)}
      (hspeculated : speculativeProcessTx E R policy true base tx = .ok outcome)
      (hwrites : (materializeWrites E outcome).run current.read = .ok writes) :
      Responds tx (some (txResult tx outcome writes))

variable {E R policy}

/-- A result carries the hash of its transaction. -/
theorem Responds.hash {tx : Tx} {result : TxResult} (h : Responds E R policy tx (some result)) : result.hash = tx.hash := by
  generalize hresponse : some result = response at h
  cases h with
  | processed S =>
    rcases hprocessed : (processTx E R policy true S tx).1 with _ | ⟨outcome, writes⟩
    · rw [hprocessed] at hresponse
      cases hresponse
    · rw [hprocessed] at hresponse
      cases hresponse
      rfl
  | speculated base current hspeculated hwrites =>
    cases hresponse
    rfl

theorem processAll_responds (S : BlockState) (txs : List Tx) :
    List.Forall₂ (Responds E R policy) txs (processAll E R policy true S txs).1 := by
  induction txs generalizing S with
  | nil => exact .nil
  | cons tx rest ih =>
    rw [processAll]
    exact .cons (.processed S) (ih _)

/-- The results of a parallel block stand in the order of its transactions. -/
theorem ParallelRun.responds {c c' : ParallelState} {txs : List Tx} (h : ParallelRun E R policy true c txs c') :
    ∃ results, c'.results = c.results ++ results ∧ List.Forall₂ (Responds E R policy) txs results := by
  induction h with
  | done c => exact ⟨[], (List.append_nil _).symm, .nil⟩
  | wave _ ih => exact ih
  | step hstep _ ih =>
    obtain ⟨results, hresults, hall⟩ := ih
    cases hstep with
    | serial => exact ⟨_ :: results, by rw [hresults, List.append_assoc]; rfl, .cons (.processed _) hall⟩
    | accept _ _ hspeculated _ hwrites =>
      exact ⟨_ :: results, by rw [hresults, List.append_assoc]; rfl, .cons (.speculated _ _ hspeculated hwrites) hall⟩

end Responses

/-! ### What stands at a place of the block -/

section Alignment

variable (B : Builtins) (T : TxDecoder) (cfg : NodeConfig) (E : Decimals) (R : Runtime) (policy : TxFeePolicy)
  (raises : BlockState → Tx → Option PyErr) (encode : TxResult → Except PyErr Value) (envelope : Tx → Value)
  (settings : LocalSettings)

/-- The entry of a raw transaction: why it is rejected, or the transaction decoded from these bytes. -/
inductive EntryFor (block : BlockMeta) (rawTx : Bytes) : Except String Tx → Prop
  | undecodable {e : PyErr} (h : decodeAndValidateTransactionStaticBytes T cfg rawTx = .error e) :
      EntryFor block rawTx (.error ("Error decoding transaction: " ++ e.text))
  | invalid {tx : Tx} {totals : BlockTotals} {e : PyErr} (h : decodeAndValidateTransactionStaticBytes T cfg rawTx = .ok tx)
      (hinvalid : validateInBlock B cfg totals tx = .error e) :
      EntryFor block rawTx (.error ("Invalid transaction in block: " ++ e.text))
  | valid {tx : Tx} {totals totals' : BlockTotals} (h : decodeAndValidateTransactionStaticBytes T cfg rawTx = .ok tx)
      (hvalid : validateInBlock B cfg totals tx = .ok totals') : EntryFor block rawTx (.ok (attachBlockMeta T block tx))

/-- The response `_execute_block_transactions` has for a transaction. -/
inductive Response (tx : Tx) : Except PyErr (Option TxResult) → Prop
  | raised {S : BlockState} {e : PyErr} (h : raises S tx = some e) : Response tx (.error e)
  | returned {result : Option TxResult} (h : Responds E R policy tx result) : Response tx (.ok result)

/-- The processed entry of the raw transaction at a place. -/
inductive ProcessedAt (i : Nat) (txBytes : Bytes) : Except String Tx → ProcessedEntry → Prop
  | rejected (message : String) : ProcessedAt i txBytes (.error message) (.error message)
  | executed {tx : Tx} {response : Except PyErr (Option TxResult)} (h : Response E R policy raises tx response) :
      ProcessedAt i txBytes (.ok tx) (processedEntry i tx txBytes response)

/-- The result of the raw transaction at a place, with what the indexer gets of it. -/
inductive AnsweredAt (block : BlockMeta) (i : Nat) (rawTx : Bytes) : ExecTxResult × Option BdsTransactionPayload → Prop
  | rejected {message : String} (h : EntryFor B T cfg block rawTx (.error message)) :
      AnsweredAt block i rawTx (.error message, none)
  | raised {tx : Tx} {S : BlockState} {e : PyErr} (h : EntryFor B T cfg block rawTx (.ok tx)) (he : raises S tx = some e) :
      AnsweredAt block i rawTx (.error ("Error processing tx: " ++ e.text), none)
  | missing {tx : Tx} (h : EntryFor B T cfg block rawTx (.ok tx)) (hnone : Responds E R policy tx none) :
      AnsweredAt block i rawTx (.error "Transaction processor returned no tx_result", none)
  | unhashed {tx : Tx} {result : TxResult} (h : EntryFor B T cfg block rawTx (.ok tx))
      (hresult : Responds E R policy tx (some result)) (hhash : result.hash = "") :
      AnsweredAt block i rawTx (.error "Transaction processor returned no tx hash", none)
  | executed {tx : Tx} {result : TxResult} {data : Value} (h : EntryFor B T cfg block rawTx (.ok tx))
      (hresult : Responds E R policy tx (some result)) (hdata : encode result = .ok data) :
      AnsweredAt block i rawTx (.result result.status data,
        if settings.bdsEnabled then some ⟨i, envelope tx, indexedResult rawTx result⟩ else none)

/-- The results stand at the places of the raw transactions, and the indexer's transactions are those of executed
ones, each with its place. -/
structure Aligned (req : FinalizeRequest) (assembled : Assembled) : Prop where
  length : assembled.txResults.length = req.txs.length
  answers : ∃ outcomes, assembled.txResults = outcomes.map Prod.fst ∧
    assembled.bdsTransactions = outcomes.filterMap Prod.snd ∧
    List.Forall₂ (fun place outcome => AnsweredAt B T cfg E R policy raises encode envelope settings (blockMeta req) place.2 place.1
      outcome) req.txs.zipIdx outcomes

variable {B T cfg E R policy raises encode envelope settings}

theorem decodeLoop_entryFor (block : BlockMeta) (totals : BlockTotals) (txs : List Bytes) :
    List.Forall₂ (EntryFor B T cfg block) txs (decodeLoop B T cfg block totals txs) := by
  induction txs generalizing totals with
  | nil => exact .nil
  | cons rawTx rest ih =>
    unfold decodeLoop
    rcases hdecode : decodeAndValidateTransactionStaticBytes T cfg rawTx with e | tx
    · exact .cons (.undecodable hdecode) (ih totals)
    · dsimp only
      rcases hvalid : validateInBlock B cfg totals tx with e | totals'
      · exact .cons (.invalid hdecode hvalid) (ih totals)
      · exact .cons (.valid hdecode hvalid) (ih totals')

/-- The raw transactions and their entries, with the places counted from `i`. -/
theorem zipIdx_zip {block : BlockMeta} {txs : List Bytes} {entries : List (Except String Tx)} (i : Nat)
    (h : List.Forall₂ (EntryFor B T cfg block) txs entries) :
    List.Forall₂ (fun place entry => entry.2 = place.2 ∧ entry.1.1 = place.1 ∧ EntryFor B T cfg block place.1 entry.1.2)
      (txs.zipIdx i) ((txs.zip entries).zipIdx i) := by
  induction h generalizing i with
  | nil => exact .nil
  | cons hentry _ ih => exact .cons ⟨rfl, rfl, hentry⟩ (ih (i + 1))

theorem processTxRaising_response (S : BlockState) (tx : Tx) :
    Response E R policy raises tx (processTxRaising E R policy raises S tx).1 := by
  unfold processTxRaising
  rcases hraises : raises S tx with _ | e
  · exact .returned (.processed S)
  · exact .raised hraises

/-- Every entry is followed by its own processed entry, whichever of the others are errors. -/
theorem executeBlockTransactions_processedAt {entries : List (Bytes × Except String Tx)} (S : BlockState) (i : Nat)
    {processed : Option (List (Option TxResult))}
    (hprocessed : ∀ results, processed = some results →
      List.Forall₂ (Responds E R policy) (entries.filterMap fun entry => entry.2.toOption) results) :
    List.Forall₂ (fun entry p => ProcessedAt E R policy raises entry.2 entry.1.1 entry.1.2 p) (entries.zipIdx i)
      (executeBlockTransactions E R policy raises S i entries processed).1 := by
  induction entries generalizing S i processed with
  | nil => exact .nil
  | cons entry entries ih =>
    rcases entry with ⟨txBytes, message | tx⟩
    · rw [executeBlockTransactions]
      exact .cons (.rejected message) (ih S (i + 1) hprocessed)
    · rcases processed with _ | results
      · rw [executeBlockTransactions]
        refine .cons (.executed (processTxRaising_response S tx)) (ih _ (i + 1) ?_)
        intro results hresults
        cases hresults
      · obtain ⟨result, rest, hresult, hrest, rfl⟩ := List.forall₂_cons_left_iff.1 (hprocessed results rfl)
        rw [executeBlockTransactions]
        refine .cons (.executed (.returned hresult)) (ih S (i + 1) ?_)
        rintro _ ⟨⟩
        exact hrest

/-- One processed entry in front of what the later ones give. -/
theorem assembleProcessed_answered {block : BlockMeta} {places : List (Bytes × Nat)} {entries : List ProcessedEntry}
    (h : List.Forall₂ (fun place p => ∃ entry, EntryFor B T cfg block place.1 entry ∧
      ProcessedAt E R policy raises place.2 place.1 entry p) places entries)
    {view : DriverView} {assembled : Assembled} {sets : List (String × Value)}
    (hassembled : assembleProcessed encode envelope settings entries view = (.ok assembled, sets)) :
    ∃ outcomes, assembled.txResults = outcomes.map Prod.fst ∧ assembled.bdsTransactions = outcomes.filterMap Prod.snd ∧
      List.Forall₂ (fun place outcome => AnsweredAt B T cfg E R policy raises encode envelope settings block place.2 place.1
        outcome) places outcomes := by
  induction h generalizing view assembled sets with
  | nil =>
    obtain rfl := Except.ok.inj (Prod.mk.inj hassembled).1
    exact ⟨[], rfl, rfl, .nil⟩
  | @cons place p places entries hplace _ ih =>
    have htail : ∀ {r : ExecTxResult} {bds : Option BdsTransactionPayload} {log : List LogLine} {view : DriverView}
        {sets : List (String × Value)},
        (do return Assembled.cons r bds.toList log (← assembleProcessed encode envelope settings entries)) view =
          (.ok assembled, sets) →
        AnsweredAt B T cfg E R policy raises encode envelope settings block place.2 place.1 (r, bds) →
        ∃ outcomes, assembled.txResults = outcomes.map Prod.fst ∧
          assembled.bdsTransactions = outcomes.filterMap Prod.snd ∧
          List.Forall₂ (fun place outcome => AnsweredAt B T cfg E R policy raises encode envelope settings block place.2 place.1
            outcome) (place :: places) outcomes := by
      intro r bds log view sets hrun hanswered
      obtain ⟨rest, s, s', hrest, hpure, -⟩ := BlockM.bind_ok hrun
      obtain rfl := Except.ok.inj (Prod.mk.inj hpure).1
      obtain ⟨outcomes, hresults, hbds, hall⟩ := ih hrest
      refine ⟨(r, bds) :: outcomes, ?_, ?_, .cons hanswered hall⟩
      · rw [List.map_cons, ← hresults]
        rfl
      · show bds.toList ++ rest.bdsTransactions = _
        rw [hbds]
        rcases bds with _ | bds <;> rfl
    obtain ⟨entry, hentry, hprocessed⟩ := hplace
    cases hprocessed with
    | rejected message =>
      rw [assembleProcessed] at hassembled
      exact htail hassembled (.rejected hentry)
    | @executed tx response hresponse =>
      cases hresponse with
      | raised he =>
        rw [processedEntry, assembleProcessed] at hassembled
        exact htail hassembled (.raised hentry he)
      | @returned result hresult =>
        rcases result with _ | result
        · rw [processedEntry, assembleProcessed] at hassembled
          exact htail hassembled (.missing hentry hresult)
        · rw [processedEntry, assembleProcessed] at hassembled
          by_cases hhash : result.hash = ""
          · rw [if_pos hhash] at hassembled
            exact htail hassembled (.unhashed hentry hresult hhash)
          · rw [if_neg hhash] at hassembled
            obtain ⟨_, s, s', hset, hlift, -⟩ := BlockM.bind_ok hassembled
            obtain ⟨data, t, t', hdata, hrun, -⟩ := BlockM.bind_ok hlift
            have hencoded : encode result = .ok data := (Prod.mk.inj hdata).1
            have hbds : (if settings.bdsEnabled then
                [(⟨place.2, envelope tx, indexedResult place.1 result⟩ : BdsTransactionPayload)] else []) =
                (if settings.bdsEnabled then some ⟨place.2, envelope tx, indexedResult place.1 result⟩ else none :
                  Option BdsTransactionPayload).toList := by
              split_ifs <;> rfl
            dsimp only at hrun
            rw [hbds] at hrun
            exact htail hrun (.executed hentry hresult hencoded)

theorem aligned_of_processed {req : FinalizeRequest} {state : String → Value} (S : BlockState)
    {processed : Option (List (Option TxResult))}
    (hprocessed : ∀ results, processed = some results → List.Forall₂ (Responds E R policy)
      ((decodeBlockTransactions B T cfg req state).filterMap Except.toOption) results)
    {view : DriverView} {assembled : Assembled} {sets : List (String × Value)}
    (hassembled : assembleProcessed encode envelope settings (executeBlockTransactions E R policy raises S 0
      (req.txs.zip (decodeBlockTransactions B T cfg req state)) processed).1 view = (.ok assembled, sets)) :
    Aligned B T cfg E R policy raises encode envelope settings req assembled := by
  have hentries : List.Forall₂ (EntryFor B T cfg (blockMeta req)) req.txs (decodeBlockTransactions B T cfg req state) :=
    decodeLoop_entryFor (blockMeta req) (.start state) req.txs
  have hdecoded : ((req.txs.zip (decodeBlockTransactions B T cfg req state)).filterMap fun entry => entry.2.toOption) =
      (decodeBlockTransactions B T cfg req state).filterMap Except.toOption := by
    conv_rhs => rw [← List.map_snd_zip hentries.length_eq.ge]
    rw [List.filterMap_map]
    rfl
  have hexecuted : List.Forall₂ (fun entry p => ProcessedAt E R policy raises entry.2 entry.1.1 entry.1.2 p)
      ((req.txs.zip (decodeBlockTransactions B T cfg req state)).zipIdx 0) _ :=
    executeBlockTransactions_processedAt S 0 (by rw [hdecoded]; exact hprocessed)
  have hplaces : List.Forall₂ (fun place p => ∃ entry, EntryFor B T cfg (blockMeta req) place.1 entry ∧
      ProcessedAt E R policy raises place.2 place.1 entry p) req.txs.zipIdx _ :=
    (forall₂_trans (zipIdx_zip 0 hentries) hexecuted).imp fun place p h => by
      obtain ⟨⟨⟨rawTx, entry⟩, i⟩, ⟨hi, hraw, hentry⟩, hp⟩ := h
      dsimp only at hi hraw hentry hp
      rw [hi, hraw] at hp
      exact ⟨entry, hentry, hp⟩
  obtain ⟨outcomes, hresults, hbds, hall⟩ := assembleProcessed_answered hplaces hassembled
  refine ⟨?_, outcomes, hresults, hbds, hall⟩
  rw [hresults, List.length_map, ← hall.length_eq, List.length_zipIdx]

/-! ### The block that finalizes -/

variable {H : BlockHooks}

/-- With results at hand, the two functions are the one pass of `finalizeBlockLocal`. -/
theorem assembleIndexed_eq (E : Decimals) (R : Runtime) (policy : TxFeePolicy)
    (raises : BlockState → Tx → Option PyErr) (S : BlockState) (i : Nat) (entries : List (Bytes × Except String Tx))
    (results : List (Option TxResult)) :
    assembleIndexed H envelope settings i entries results =
      assembleProcessed H.encodeResult envelope settings
        (executeBlockTransactions E R policy raises S i entries (some results)).1 := by
  induction entries generalizing S i results with
  | nil => rfl
  | cons entry entries ih =>
    rcases entry with ⟨txBytes, message | tx⟩
    · rw [assembleIndexed, executeBlockTransactions, assembleProcessed, ih S]
    · rcases results with _ | ⟨_ | result, results⟩
      · rw [assembleIndexed, executeBlockTransactions, processedEntry, assembleProcessed, ih S]
        rfl
      · rw [assembleIndexed, executeBlockTransactions, processedEntry, assembleProcessed, ih S]
      · rw [assembleIndexed, executeBlockTransactions, processedEntry, assembleProcessed, ih S]

theorem finalizeBlockLocal_assembled {D : Type} [Driver D] {appliedPatches : DriverView → BlockMeta → List Value}
    {n n' : Node D} {req : FinalizeRequest} {response : ResponseFinalizeBlock} {enqueued : Option BdsBlockPayload}
    (h : finalizeBlockLocal H envelope settings appliedPatches n req = ((.ok response, n'), enqueued)) :
    ∃ (view view' view'' : DriverView) (results : List (Option TxResult)) (assembled : Assembled)
      (sets sets' : List (String × Value)),
      H.executeTransactions ((H.decodeBlockTransactions req view.current).filterMap Except.toOption) view' =
        (.ok results, sets) ∧
      assembleIndexed H envelope settings 0 (req.txs.zip (H.decodeBlockTransactions req view.current)) results view'' =
        (.ok assembled, sets') ∧
      response.txResults = assembled.txResults ∧
      ∀ payload, enqueued = some payload → payload.transactions = assembled.bdsTransactions := by
  have hbody : finalizeBlockBodyLocal H envelope settings appliedPatches n req = ((.ok response, n'), enqueued) := by
    unfold finalizeBlockLocal at h
    split at h
    · rename_i heq
      rw [heq]
      exact h
    · cases (Prod.mk.inj (Prod.mk.inj h).1).1
  unfold finalizeBlockBodyLocal at hbody
  rcases hinit : initializeBlock H n req with e | n₁
  · rw [hinit] at hbody
    cases hbody
  rw [hinit] at hbody
  dsimp only at hbody
  rcases hstages : blockStagesLocal H envelope settings req (driverView n₁.driver) with ⟨e | ⟨r, assembled, patchHash⟩, sets⟩
  · rw [hstages] at hbody
    cases hbody
  rw [hstages] at hbody
  dsimp only at hbody
  have hresponse : response.txResults = r.txResults ∧
      ∀ payload, enqueued = some payload → payload.transactions = assembled.bdsTransactions := by
    split at hbody
    · cases hbody
    · split at hbody
      · cases hbody
      · obtain ⟨hresponse, henqueued⟩ := Prod.mk.inj hbody
        obtain rfl := (Except.ok.inj (Prod.mk.inj hresponse).1).symm
        refine ⟨rfl, fun payload hpayload => ?_⟩
        rw [← henqueued] at hpayload
        split_ifs at hpayload
        rw [← Option.some.inj hpayload]
        rfl
  obtain ⟨entries, s, _, hread, hstages, -⟩ := BlockM.bind_ok hstages
  obtain rfl : H.decodeBlockTransactions req (driverView n₁.driver).current = entries :=
    Except.ok.inj (Prod.mk.inj hread).1
  obtain ⟨results, s₁, _, hexecute, hstages, -⟩ := BlockM.bind_ok hstages
  obtain ⟨assembled', s₂, _, hassembled, hstages, -⟩ := BlockM.bind_ok hstages
  obtain ⟨_, _, _, -, hstages, -⟩ := BlockM.bind_ok hstages
  obtain ⟨_, _, _, -, hstages, -⟩ := BlockM.bind_ok hstages
  obtain ⟨_, _, _, -, hstages, -⟩ := BlockM.bind_ok hstages
  obtain ⟨_, _, _, -, hpure, -⟩ := BlockM.bind_ok hstages
  have hresult := Prod.mk.inj (Except.ok.inj (Prod.mk.inj hpure).1)
  obtain rfl : assembled' = assembled := (Prod.mk.inj hresult.2).1
  have htxResults : r.txResults = assembled'.txResults := congrArg BlockResult.txResults hresult.1.symm
  rw [htxResults] at hresponse
  exact ⟨_, _, _, results, assembled', _, _, hexecute, hassembled, hresponse⟩

end Alignment

section Blocks

variable (B : Builtins) (T : TxDecoder) (cfg : NodeConfig) (E : Decimals) (R : Runtime) (policy : TxFeePolicy)
  (H : BlockHooks) (envelope : Tx → Value) (settings : LocalSettings) {D : Type} [Driver D]
  (appliedPatches : DriverView → BlockMeta → List Value)

/-- The hooks of a node that executes a block in parallel where `parallel` gives results, and serially elsewhere. -/
def executingHooks (parallel : List Tx → BlockM (Option (List (Option TxResult)))) : BlockHooks :=
  { localHooks B T cfg H settings with executeTransactions := executeHook E R policy parallel }

/-- In every request and whatever is rejected, raises or comes back without a result, in serial and in parallel
execution, there is one result for each raw transaction, at its place, and the indexer gets the executed ones with
the place, the envelope and the hash of their own bytes. -/
theorem tx_results_aligned (parallel : List Tx → BlockM (Option (List (Option TxResult))))
    (hparallel : ∀ txs view results sets, parallel txs view = (.ok (some results), sets) →
      ∃ c, ParallelRun E R policy true (.start ⟨view.current, .empty, none⟩) txs c ∧ results = c.results)
    (req : FinalizeRequest) :
    (∀ (raises : BlockState → Tx → Option PyErr) (view : DriverView) (assembled : Assembled) (sets : List (String × Value)),
      transactionStages E R policy (localHooks B T cfg H settings) envelope settings parallel raises req view =
        (.ok assembled, sets) →
      Aligned B T (cfg.withLimit settings.maxTxBytes) E R policy raises H.encodeResult envelope settings req assembled) ∧
    ∀ (n n' : Node D) (response : ResponseFinalizeBlock) (enqueued : Option BdsBlockPayload),
      finalizeBlockLocal (executingHooks B T cfg E R policy H settings parallel) envelope settings appliedPatches n req =
        ((.ok response, n'), enqueued) →
      ∃ assembled, Aligned B T (cfg.withLimit settings.maxTxBytes) E R policy (fun _ _ => none) H.encodeResult envelope settings req
          assembled ∧ response.txResults = assembled.txResults ∧
        ∀ payload, enqueued = some payload → payload.transactions = assembled.bdsTransactions := by
  have hresponds : ∀ txs view results sets, parallel txs view = (.ok (some results), sets) →
      List.Forall₂ (Responds E R policy) txs results := by
    intro txs view results sets hrun
    obtain ⟨c, hc, rfl⟩ := hparallel txs view results sets hrun
    obtain ⟨results, hresults, hall⟩ := hc.responds
    rw [hresults]
    exact hall
  constructor
  · intro raises view assembled sets hrun
    obtain ⟨entries, _, _, hread, hrun, -⟩ := BlockM.bind_ok hrun
    obtain rfl := Except.ok.inj (Prod.mk.inj hread).1
    obtain ⟨processed, _, _, hprocessed, hrun, -⟩ := BlockM.bind_ok hrun
    obtain ⟨processedEntries, _, _, hexecuted, hassembled, -⟩ := BlockM.bind_ok hrun
    obtain rfl := Except.ok.inj (Prod.mk.inj hexecuted).1
    refine aligned_of_processed _ ?_ hassembled
    rintro results rfl
    exact hresponds _ _ results _ hprocessed
  · intro n n' response enqueued hfinalize
    obtain ⟨view, view', view'', results, assembled, sets, sets', hexecute, hassembled, hresponse, henqueued⟩ :=
      finalizeBlockLocal_assembled hfinalize
    refine ⟨assembled, ?_, hresponse, henqueued⟩
    have hall : List.Forall₂ (Responds E R policy) ((decodeBlockTransactions B T (cfg.withLimit settings.maxTxBytes) req
        view.current).filterMap Except.toOption) results := by
      obtain ⟨processed, s, s', hprocessed, hresults, -⟩ := BlockM.bind_ok hexecute
      rcases processed with _ | processed
      · obtain rfl := Except.ok.inj (Prod.mk.inj hresults).1
        exact processAll_responds _ _
      · obtain rfl := Except.ok.inj (Prod.mk.inj hresults).1
        exact hresponds _ _ _ _ hprocessed
    rw [assembleIndexed_eq E R policy (fun _ _ => none) ⟨view.current, .empty, none⟩] at hassembled
    refine aligned_of_processed _ ?_ hassembled
    rintro _ ⟨⟩
    exact hall

end Blocks

/-! ### A block with a transaction between two rejected ones -/

/-- A run that accepts no speculation. -/
theorem parallelRun_serial (E : Decimals) (R : Runtime) (policy : TxFeePolicy) (c : ParallelState) (txs : List Tx) :
    ∃ c', ParallelRun E R policy true c txs c' ∧ c'.results = c.results ++ (processAll E R policy true c.current txs).1 := by
  induction txs generalizing c with
  | nil => exact ⟨c, .done c, (List.append_nil _).symm⟩
  | cons tx rest ih =>
    obtain ⟨c', hrun, hresults⟩ := ih _
    refine ⟨c', .step (.serial c tx) hrun, ?_⟩
    rw [hresults, processAll, List.append_assoc]
    rfl

/-- An executor that runs the block in the main process. -/
def mainProcess (txs : List Tx) : BlockM (Option (List (Option TxResult))) := fun view =>
  let (results, S) := processAll exactDecimals storedRuntime .paidMetered true ⟨view.current, .empty, none⟩ txs
  (.ok (some results), S.pending.items)

def mixedBlock : FinalizeRequest := ⟨1, 5, [], [[1], callRawTx, [2]], []⟩

theorem mixedBlock_aligned : ∃ assembled sets,
    transactionStages exactDecimals storedRuntime .paidMetered
      (localHooks .plain callDecoder callConfig callHooks (indexingSettings 1048576)) (fun _ => .none)
      (indexingSettings 1048576) mainProcess (fun _ _ => none) mixedBlock (driverView deployedNode.driver) =
        (.ok assembled, sets) ∧
    assembled.txResults.length = 3 ∧
    Aligned .plain callDecoder (callConfig.withLimit 1048576) exactDecimals storedRuntime .paidMetered (fun _ _ => none)
      callHooks.encodeResult (fun _ => .none) (indexingSettings 1048576) mixedBlock assembled := by
  have hreturns : (match (transactionStages exactDecimals storedRuntime .paidMetered
      (localHooks .plain callDecoder callConfig callHooks (indexingSettings 1048576)) (fun _ => .none)
      (indexingSettings 1048576) mainProcess (fun _ _ => none) mixedBlock (driverView deployedNode.driver)).1 with
      | .ok assembled => decide (assembled.bdsTransactions.map (·.txIndex) = [1])
      | .error _ => false) = true := by
    decide +kernel
  have hparallel : ∀ txs view results sets, mainProcess txs view = (.ok (some results), sets) →
      ∃ c, ParallelRun exactDecimals storedRuntime .paidMetered true (.start ⟨view.current, .empty, none⟩) txs c ∧
        results = c.results := by
    intro txs view results sets hrun
    obtain ⟨c, hc, hresults⟩ := parallelRun_serial exactDecimals storedRuntime .paidMetered
      (.start ⟨view.current, .empty, none⟩) txs
    exact ⟨c, hc, (Option.some.inj (Except.ok.inj (Prod.mk.inj hrun).1)).symm.trans hresults.symm⟩
  rcases hrun : transactionStages exactDecimals storedRuntime .paidMetered
      (localHooks .plain callDecoder callConfig callHooks (indexingSettings 1048576)) (fun _ => .none)
      (indexingSettings 1048576) mainProcess (fun _ _ => none) mixedBlock (driverView deployedNode.driver) with
    ⟨e | assembled, sets⟩
  · rw [hrun] at hreturns
    cases hreturns
  have haligned := (tx_results_aligned .plain callDecoder callConfig exactDecimals storedRuntime .paidMetered callHooks
    (fun _ => .none) (indexingSettings 1048576) (D := MemoryDriver) noPatches mainProcess hparallel mixedBlock).1
      (fun _ _ => none) _ assembled sets hrun
  exact ⟨assembled, sets, rfl, haligned.length, haligned⟩

end XianAbci
