import XianAbci.BdsSchema
import XianAbci.Indexing
import XianAbci.JsonLoads

/-!
# Writing a block to the index (`persist_block` of `services/bds/bds.py`)

One database transaction per block: the block's row, the rows of each indexed transaction in order, and
those of the state patches as a transaction of their own. Values go through the runtime's codec to JSON,
strings and numbers to the typed columns as they are; whatever the database or Python raises, nothing of the
block is kept and the worker tries again.
-/

namespace XianAbci

/-- What is used of the runtime's codec, of the database and of Python's parser. -/
structure BdsRuntime where
  -- `canonical_json_value`
  canonicalJson : Value → Except PyErr Json
  casts : String → Bool
  -- `_source_has_xsc001_surface`
  isXSC001 : Value → Except PyErr Bool

structure Session where
  db : BdsTable → List (List Cell)
  sequences : BdsTable → Int
  currentIndex : PyDict String (Cell × Cell)

inductive PersistError
  | sql (e : SqlError)
  | python (e : PyErr)

abbrev PersistM := StateT Session (Except PersistError)

def ofPython {α : Type} : Except PyErr α → Except PersistError α
  | .ok a => .ok a
  | .error e => .error (.python e)

/-! ### Parameters -/

def textParam : Value → Except PyErr Cell
  | .str s => .ok (.text s)
  | .none => .ok .null
  | _ => .error (.other "DataError: expected str")

def intParam : Value → Except PyErr Cell
  | .int i => .ok (.int i)
  | .bool b => .ok (.int (if b then 1 else 0))
  | .none => .ok .null
  | _ => .error (.other "DataError: an integer is required")

/-! ### Shielded outputs (`services/bds/shielded.py`) -/

structure ShieldedOutput where
  action : String
  outputIndex : Int
  noteIndex : Option Int
  commitment : String
  newRoot : String
  payloadHash : String
  outputPayload : Value

/-- `_payload_ciphertexts`: whatever goes wrong, there are none. -/
def payloadCiphertexts (payloadHex : String) : List Json :=
  let trimmed := if payloadHex.startsWith "0x" then (payloadHex.drop 2).toString else payloadHex
  match bytesFromHex trimmed with
  | .error _ => []
  | .ok bytes => match String.fromUTF8? bytes.toByteArray with
    | none => []
    | some text => match loads text.toList with
      | .ok (.obj entries) => match entries.lookup "ciphertexts" with
        | some (.arr items) => items
        | _ => []
      | _ => []

def tagOf (kind : String) : Json → Option (String × String)
  | .obj entries => match entries.lookup kind with
    | some (.str tag) => if tag = "" then none else some (kind, tag)
    | _ => none
  | _ => none

/-- `extract_payload_tags`, in order of appearance, each tag once. -/
def extractPayloadTags (payload : Value) : List (String × String) :=
  match payload with
  | .str payloadHex =>
    let tags := (payloadCiphertexts payloadHex).flatMap fun item =>
      (tagOf "sync_hint" item).toList ++ (tagOf "discovery_tag" item).toList
    (tags.reverse.dedup).reverse
  | _ => []

/-- `_unpack_blob`. -/
def unpackBlob (blob : Value) : List String :=
  match blob with
  | .str s => (s.splitOn "|").filter (· ≠ "")
  | _ => []

section Shielded

variable (B : Builtins)

/-- `v or {}`. -/
def orEmpty (v : Value) : Value := if B.truthy v then v else .dict []

/-- The outputs an event announces, by position, note, payload hash and commitment. -/
def outputSpecs (eventName data dataIndexed : Value) :
    Except PyErr (List (Int × Option Int × String × String)) := do
  if eventName = .str "ShieldedOutputCommitted" then
    match asInt (← data.get "output_index" .none) with
    | none => return []
    | some outputIndex =>
      let payloadHash := (asStr (← data.get "payload_hash" .none)).getD ""
      let commitment := (asStr (← dataIndexed.get "commitment" .none)).getD ""
      return [(outputIndex, asInt (← data.get "note_index" .none), payloadHash, commitment)]
  else if eventName = .str "ShieldedOutputsCommitted" then
    let commitments := unpackBlob (← data.get "commitments_blob" .none)
    let payloadHashes := unpackBlob (← data.get "payload_hashes_blob" .none)
    match asInt (← data.get "note_index_start" .none) with
    | none => return []
    | some start =>
      let count := (asInt (← data.get "output_count" .none)).getD commitments.length
      if commitments.length < count ∨ payloadHashes.length < count then return []
      else return (List.range count.toNat).map fun i : Nat =>
        ((i : Int), some (start + (i : Int)), payloadHashes.getD i "", commitments.getD i "")
  else return []

/-- `collect_shielded_outputs`. -/
def collectShieldedOutputs (contract function : String) (kwargs : Value) (events : List Value) :
    Except PyErr (List ShieldedOutput) := do
  match ← kwargs.get "output_payloads" .none with
  | .list outputPayloads =>
    if outputPayloads.isEmpty then return []
    let rows ← events.mapM fun event => do
      match event with
      | .dict entries =>
        if entries.lookup "contract" ≠ some (.str contract) then return []
        else
          let dataIndexed := orEmpty B ((entries.lookup "data_indexed").getD .none)
          let data := orEmpty B ((entries.lookup "data").getD .none)
          let action ← data.get "action" .none
          let newRoot ← dataIndexed.get "new_root" .none
          let specs ← outputSpecs ((entries.lookup "event").getD .none) data dataIndexed
          return specs.filterMap fun (outputIndex, noteIndex, payloadHash, commitment) =>
            if outputIndex < 0 ∨ outputPayloads.length ≤ outputIndex then none
            else some ⟨(asStr action).getD function, outputIndex, noteIndex, commitment, (asStr newRoot).getD "",
              payloadHash, outputPayloads.getD outputIndex.toNat .none⟩
      | _ => return []
    return rows.flatten
  | _ => return []

end Shielded

/-! ### Contracts -/

/-- `datetime(*fields)` in UTC, in microseconds. -/
def utcDatetime (fields : List Value) : Except PyErr Int := do
  match fields.filterMap asInt with
  | [year, month, day, hour, minute, second] =>
    let leap := year % 4 = 0 ∧ (year % 100 ≠ 0 ∨ year % 400 = 0)
    let days := if month = 2 then (if leap then 29 else 28) else if month ∈ [4, 6, 9, 11] then 30 else 31
    require (1 ≤ year ∧ year ≤ 9999 ∧ 1 ≤ month ∧ month ≤ 12 ∧ 1 ≤ day ∧ day ≤ days ∧ 0 ≤ hour ∧ hour ≤ 23 ∧
      0 ≤ minute ∧ minute ≤ 59 ∧ 0 ≤ second ∧ second ≤ 59) (.valueError "out of range")
    -- days of the proleptic Gregorian calendar, with the year starting in March
    let y := if month ≤ 2 then year - 1 else year
    let m := (month + 9) % 12
    let date := 365 * y + y / 4 - y / 100 + y / 400 + (m * 306 + 5) / 10 + day - 719469
    return ((date * 24 + hour) * 60 + minute) * 60 * 1000000 + second * 1000000
  | _ => throw (.typeError "an integer is required")

/-- `_submission_time_from_state_value`. -/
def submissionTime : Value → Except PyErr (Option Int)
  | .dict entries => match entries.lookup "__time__" with
    | some (.list fields) | some (.tuple fields) =>
      if 6 ≤ fields.length then some <$> utcDatetime (fields.take 6) else .ok none
    | _ => .ok none
  | .datetime t | .pyDatetime t =>
    some <$> utcDatetime [.int t.year, .int t.month, .int t.day, .int t.hour, .int t.minute, .int t.second]
  | _ => .ok none

structure ContractRecord where
  source : Value
  submittedAt : Option Int

/-- `key.split(".", 1)`, where there is a dot. -/
def splitKey (key : String) : Option (String × String) :=
  match key.toList.span (· ≠ '.') with
  | (contract, _ :: name) => some (String.ofList contract, String.ofList name)
  | (_, []) => none

/-- `_collect_contract_records`. -/
def collectContractRecords (changes : List (String × Value)) : Except PyErr (PyDict String ContractRecord) :=
  changes.foldlM (fun records (key, value) =>
    match splitKey key with
    | none => return records
    | some (contract, name) =>
      let record := (records.get? contract).getD ⟨.none, none⟩
      if name = "__source__" then return records.set contract { record with source := value }
      else if name = "__submitted__" then
        return records.set contract { record with submittedAt := ← submissionTime value }
      else return records) .empty

/-! ### Statements -/

section Persist

variable (R : BdsRuntime) (B : Builtins)

def sqlInsert (t : BdsTable) (conflict : OnConflict Cell) (row : List Cell) : PersistM PUnit := fun s =>
  match insertRow (bdsSchema R.casts) Cell.isNull t conflict row s.db with
  | .error e => .error (.sql e)
  | .ok db => .ok ((), { s with db := db })

/-- A row whose first column is generated. -/
def insertNumbered (t : BdsTable) (conflict : OnConflict Cell) (row : List Cell) : PersistM Int := fun s =>
  let id := s.sequences t + 1
  match sqlInsert R t conflict (.int id :: row) { s with sequences := Function.update s.sequences t id } with
  | .error e => .error e
  | .ok ((), s) => .ok (id, s)

/-- The update of `upsert_address_activity`. -/
def mergeAddress : List Cell → List Cell → List Cell
  | [address, .int count, .int firstHeight, .timestamp firstSeen, .int lastHeight, .int lastIndex, lastSeen, lastHash,
      lastContract, lastFunction, _],
    [_, _, .int firstHeight', .timestamp firstSeen', .int lastHeight', .int lastIndex', lastSeen', lastHash',
      lastContract', lastFunction', updatedAt] =>
    let head := [address, .int (count + 1), .int (min firstHeight firstHeight'), .timestamp (min firstSeen firstSeen')]
    if lastHeight < lastHeight' ∨ lastHeight = lastHeight' ∧ lastIndex ≤ lastIndex' then
      head ++ [.int lastHeight', .int lastIndex', lastSeen', lastHash', lastContract', lastFunction', updatedAt]
    else head ++ [.int lastHeight, .int lastIndex, lastSeen, lastHash, lastContract, lastFunction, updatedAt]
  | old, _ => old

/-- What the rows of one transaction share. -/
structure TxContext where
  block : BlockMeta
  time : Int
  txHash : String
  txIndex : Int

def insertBlock (payload : BdsBlockPayload) : PersistM PUnit :=
  sqlInsert R .blocks (.ignore [0]) [.int payload.blockMeta.height, .text payload.blockMeta.hash,
    .int payload.blockMeta.nanos, .timestamp payload.blockTime, .int payload.transactions.length,
    .text payload.appHash, .timestamp payload.blockTime]

def insertTransaction (x : TxContext) (sender nonce contract function : Cell) (status chiUsed : Int)
    (result payload envelope : Cell) : PersistM PUnit :=
  sqlInsert R .transactions (.ignore [0]) [.text x.txHash, .int x.block.height, .text x.block.hash,
    .int x.block.nanos, .int x.txIndex, sender, nonce, contract, function, .bool (status = 0), .int status, .int chiUsed,
    result, payload, envelope, .timestamp x.time]

def upsertAddressActivity (x : TxContext) (address contract function : Cell) : PersistM PUnit :=
  sqlInsert R .addresses (.update [0] mergeAddress) [address, .int 1, .int x.block.height, .timestamp x.time,
    .int x.block.height, .int x.txIndex, .timestamp x.time, .text x.txHash, contract, function, .timestamp x.time]

/-- `insert_state_change` and `upsert_state`, with the previous change of the key. -/
def persistStateChange (x : TxContext) (origin : String) (writeIndex : Nat) (key : String) (value : Json) :
    PersistM PUnit := fun s =>
  let (previousChangeId, previousTxHash) := (s.currentIndex.get? key).getD (.null, .null)
  match insertNumbered R .stateChanges .raise [.int x.block.height, .text x.block.hash, .int x.block.nanos,
      .text x.txHash, .int x.txIndex, .int writeIndex, .text key, .json value, previousChangeId, previousTxHash,
      .text origin, .timestamp x.time] s with
  | .error e => .error e
  | .ok (changeId, s) =>
    sqlInsert R .state (.update [0] fun _ new => new) [.text key, .json value, .int changeId, .text x.txHash,
      .int x.block.height, .timestamp x.time]
      { s with currentIndex := s.currentIndex.set key (.int changeId, .text x.txHash) }

/-- The rewards of a transaction, by type, recipient and source: its records, or else its groups. -/
def rewardRows (result : TxResult) : List (RewardType × Value × Option String × ContractingDecimal) :=
  if result.rewardRecords.isEmpty then
    match result.rewards with
    | none => []
    | some rewards =>
      let group (type : RewardType) (mapping : RewardMapping) :=
        mapping.items.map fun p => (type, p.1, (none : Option String), p.2)
      group .validatorReward rewards.validatorReward ++ group .delegatorReward rewards.delegatorReward ++
        group .foundationReward rewards.foundationReward ++ group .developerReward rewards.developerReward
  else result.rewardRecords.map fun record => (record.type, record.recipientKey, record.sourceContract, record.value)

def insertReward (x : TxContext) (rewardIndex : Nat) (type : RewardType) (recipient : Cell)
    (sourceContract : Option String) (value : ContractingDecimal) : PersistM Int :=
  insertNumbered R .rewards (.ignore [1, 3, 4]) [.int x.block.height, .text x.txHash, .int x.txIndex,
    .int rewardIndex, .text type.text, recipient, sourceContract.elim .null .text, .numeric value, .timestamp x.time]

/-- The row of an event: the texts of four of its fields, and two JSON documents. -/
def eventCells (event : Value) : Except PyErr (List Cell) := do
  let contract ← event.get "contract" (.str "")
  let name ← event.get "event" (.str "ContractEvent")
  let signer ← event.get "signer" (.str "")
  let caller ← event.get "caller" (.str "")
  let dataIndexed ← R.canonicalJson (← event.get "data_indexed" (.dict []))
  let data ← R.canonicalJson (← event.get "data" (.dict []))
  return [.text (B.format contract), .text (B.format name), .text (B.format signer), .text (B.format caller),
    .json dataIndexed, .json data]

def insertEvent (x : TxContext) (eventIndex : Nat) (cells : List Cell) : PersistM Int :=
  insertNumbered R .events (.ignore [2, 4]) ([.int x.block.height, .text x.txHash, .int x.txIndex, .int eventIndex] ++
    cells ++ [.timestamp x.time])

def shieldedCells (x : TxContext) (contract function : String) (output : ShieldedOutput) : List Cell :=
  [.int x.block.height, .text x.txHash, .int x.txIndex, .text contract, .text function, .text output.action,
    .int output.outputIndex, output.noteIndex.elim .null .int, .text output.commitment, .text output.newRoot,
    .text output.payloadHash]

def persistShieldedOutput (x : TxContext) (contract function : String) (output : ShieldedOutput) : PersistM PUnit := do
  let _ ← insertNumbered R .shieldedOutputs (.ignore [2, 7])
    (shieldedCells x contract function output ++ [.timestamp x.time])
  (extractPayloadTags output.outputPayload).forM fun tag => do
    let _ ← insertNumbered R .shieldedOutputTags (.ignore [2, 7, 12, 13])
      (shieldedCells x contract function output ++ [.text tag.1, .text tag.2, .timestamp x.time])

def upsertContract (x : TxContext) (name : String) (submittedAt : Option Int) (source : Cell) (xsc001 : Bool) :
    PersistM PUnit :=
  sqlInsert R .contracts (.update [0] fun _ new => new) [.text name, .text x.txHash, .int x.block.height,
    .timestamp (submittedAt.getD x.time), source, .bool xsc001]

/-! ### Transactions, patches, blocks -/

def resultParam (result : Value) : Except PyErr Cell :=
  if result = .str "None" ∨ result = .none then .ok .null else (R.canonicalJson result).map .json

/-- The columns of a transaction that its payload gives. -/
structure TxCells where
  sender : Cell
  nonce : Cell
  contract : Cell
  function : Cell
  result : Cell
  payload : Cell
  envelope : Cell

def txCells (payload envelope : Value) (result : TxResult) : Except PyErr TxCells := do
  let sender ← textParam (← payload.index "sender")
  let nonce ← intParam (← payload.index "nonce")
  let contract ← textParam (← payload.index "contract")
  let function ← textParam (← payload.index "function")
  let resultCell ← resultParam R result.result
  let payloadCell ← plainJson payload
  let envelopeCell ← plainJson envelope
  return ⟨sender, nonce, contract, function, resultCell, .json payloadCell, .json envelopeCell⟩

/-- The shielded outputs of a transaction with keyword arguments. -/
def shieldedOutputsOf (payload : Value) (result : TxResult) : Except PyErr (String × String × List ShieldedOutput) := do
  match ← payload.get "kwargs" .none with
  | .dict kwargs =>
    let contract := B.format (← payload.get "contract" (.str ""))
    let function := B.format (← payload.get "function" (.str ""))
    return (contract, function, ← collectShieldedOutputs B contract function (.dict kwargs) result.events)
  | _ => return ("", "", [])

/-- The contracts that a successful transaction submits, with their source and its surface. -/
def submittedContracts (result : TxResult) : Except PyErr (List (String × Option Int × Cell × Bool)) :=
  if result.status = 0 then do
    let records ← collectContractRecords result.state
    (records.items.filter fun p => p.2.source ≠ .none).mapM fun p => do
      return (p.1, p.2.submittedAt, ← textParam p.2.source, ← R.isXSC001 p.2.source)
  else return []

/-- `_persist_transaction`. -/
def persistTransaction (block : BlockMeta) (time : Int) (tx : BdsTransactionPayload) : PersistM PUnit := do
  let x : TxContext := ⟨block, time, tx.txResult.hash, tx.txIndex⟩
  let payload ← StateT.lift (ofPython (tx.envelope.index "payload"))
  let cells ← StateT.lift (ofPython (txCells R payload tx.envelope tx.txResult))
  insertTransaction R x cells.sender cells.nonce cells.contract cells.function tx.txResult.status tx.txResult.chiUsed
    cells.result cells.payload cells.envelope
  upsertAddressActivity R x cells.sender cells.contract cells.function
  tx.txResult.state.zipIdx.forM fun change => do
    let value ← StateT.lift (ofPython (R.canonicalJson change.1.2))
    persistStateChange R x "transaction" change.2 change.1.1 value
  (rewardRows tx.txResult).zipIdx.forM fun reward => do
    let recipient ← StateT.lift (ofPython (textParam reward.1.2.1))
    let _ ← insertReward R x reward.2 reward.1.1 recipient reward.1.2.2.1 reward.1.2.2.2
  tx.txResult.events.zipIdx.forM fun event => do
    let cells ← StateT.lift (ofPython (eventCells R B event.1))
    let _ ← insertEvent R x event.2 cells
  let outputs ← StateT.lift (ofPython (shieldedOutputsOf B payload tx.txResult))
  outputs.2.2.forM fun output => persistShieldedOutput R x outputs.1 outputs.2.1 output
  let contracts ← StateT.lift (ofPython (submittedContracts R tx.txResult))
  contracts.forM fun contract => upsertContract R x contract.1 contract.2.1 contract.2.2.1 contract.2.2.2

/-- The changes of all executions, in order. -/
def flattenedChanges (statePatches : List Value) : Except PyErr (List (Value × Value)) := do
  let changes ← statePatches.mapM fun execution => do
    let items ← (← execution.get "changes" (.list [])).iter
    items.mapM fun change => do
      let _ ← change.get "comment" (.str "")
      return (← change.index "key", ← change.index "value")
  return changes.flatten

/-- The JSON columns of the pseudo-transaction. -/
def patchCells (statePatches : List Value) (changes : Nat) : Except PyErr (Cell × Cell × Cell) := do
  let result ← R.canonicalJson (.dict [("bundle_count", .int statePatches.length), ("patch_count", .int changes),
    ("comment", .str "Governed state patch pseudo-transaction")])
  let payload ← R.canonicalJson (.dict [("kind", .str "state_patch")])
  let envelope ← R.canonicalJson (.dict [("kind", .str "state_patch"), ("executions", .list statePatches)])
  return (.json result, .json payload, .json envelope)

/-- A change of the state patches: its key is a string, its value goes through the codec. -/
def patchChange (change : Value × Value) : Except PyErr (String × Json) := do
  let value ← R.canonicalJson change.2
  match change.1 with
  | .str key => return (key, value)
  | _ => throw (.other "DataError: expected str")

/-- `_persist_state_patches`. -/
def persistStatePatches (block : BlockMeta) (time : Int) (statePatches : List Value) (patchHash : String)
    (txIndex : Nat) : PersistM PUnit := do
  let x : TxContext := ⟨block, time, patchHash, txIndex⟩
  let changes ← StateT.lift (ofPython (flattenedChanges statePatches))
  let cells ← StateT.lift (ofPython (patchCells R statePatches changes.length))
  insertTransaction R x (.text "sys") (.int 0) (.text "STATE_PATCHER") (.text "STATE_PATCH") 0 0
    cells.1 cells.2.1 cells.2.2
  upsertAddressActivity R x (.text "sys") (.text "STATE_PATCHER") (.text "STATE_PATCH")
  changes.zipIdx.forM fun change => do
    let change' ← StateT.lift (ofPython (patchChange R change.1))
    persistStateChange R x "state_patch" change.2 change'.1 change'.2
  let patches ← StateT.lift (ofPython (R.canonicalJson (.list statePatches)))
  sqlInsert R .statePatches (.ignore [0]) [.text patchHash, .int block.height, .text block.hash, .int block.nanos,
    .int changes.length, .json patches, .timestamp time]

/-- The keys whose current rows are loaded; an execution has its keys in its changes, not in a field `key`. -/
def touchedKeys (payload : BdsBlockPayload) : Except PyErr (List Cell) := do
  let patchKeys ← (payload.statePatches.filterMap fun patch => match patch with
    | .dict entries => entries.lookup "key"
    | _ => none).mapM textParam
  return (payload.transactions.flatMap fun tx => tx.txResult.state.map fun change => .text change.1) ++ patchKeys

/-- `_load_current_state_index`. -/
def loadCurrentStateIndex (keys : List Cell) : PersistM PUnit := fun s =>
  if keys.all (nullable R.casts .text) then
    .ok ((), { s with currentIndex := .ofList ((s.db .state).filterMap fun row => match row with
      | [.text key, _, changeId, txHash, _, _] => if .text key ∈ keys then some (key, changeId, txHash) else none
      | _ => none) })
  else .error (.sql .invalidValue)

/-- `payload.state_patch_hash or f"STATE_PATCH_{height}"`. -/
def patchHashOf (payload : BdsBlockPayload) : String :=
  match payload.statePatchHash with
  | some hash => if hash = "" then "STATE_PATCH_" ++ toString payload.blockMeta.height else hash
  | none => "STATE_PATCH_" ++ toString payload.blockMeta.height

/-- The transaction of `persist_block`. -/
def insertPayload (payload : BdsBlockPayload) : PersistM PUnit := do
  insertBlock R payload
  let keys ← StateT.lift (ofPython (touchedKeys payload))
  loadCurrentStateIndex R keys
  payload.transactions.forM fun tx => persistTransaction R B payload.blockMeta payload.blockTime tx
  if payload.statePatches = [] then pure ()
  else persistStatePatches R payload.blockMeta payload.blockTime payload.statePatches (patchHashOf payload)
        payload.transactions.length

/-- `persist_block`: a block that is there is recognised by its hashes; one that is not is written whole or not at
all. -/
def persistBlock (payload : BdsBlockPayload) (s : Session) : Bool × Session :=
  match (s.db .blocks).find? fun row => row[0]? = some (.int payload.blockMeta.height) with
  | some row => (row[1]? = some (.text payload.blockMeta.hash) ∧ row[5]? = some (.text payload.appHash), s)
  | none => match insertPayload R B payload s with
    | .ok (_, s) => (true, s)
    | .error _ => (false, s)

end Persist

end XianAbci
