import XianAbci.FinalizeBlock
import XianAbci.PatchBundles

/-!
# The patch manager (`utils/state_patches.py`)

Governance schedules a patch for a height and keeps its record under `patches:{id}:{field}`. At that height the
manager builds an execution for every approved record, and only then applies them, in the order of the patch
identifiers: the bundle's writes in the order of the file, then five fields of the record. What it returns, and
hashes, lists the changes in the order of their keys.
-/

namespace XianAbci
open StableSort

structure StatePatchManager where
  chainId : Option String
  governanceContract : String
  localBundles : PyDict String StatePatchBundle
  loaded : Bool

structure ScheduledPatchRecord where
  patchId : String
  proposalId : Value
  bundleHash : String
  activationHeight : Value
  governanceContract : String
  summary : Value
  uri : Value
  emergency : Bool
  status : String

structure PatchExecution where
  record : ScheduledPatchRecord
  bundle : StatePatchBundle
  executionHash : String
  appliedChanges : List BundleChange

/-- What `to_payload_dict` shows of an execution. -/
structure PatchPayload where
  patchId : String
  proposalId : Value
  bundleHash : String
  executionHash : String
  activationHeight : Value
  governanceContract : String
  summary : Value
  uri : Value
  emergency : Bool
  changes : List BundleChange

def PatchExecution.toPayloadDict (e : PatchExecution) : PatchPayload where
  patchId := e.record.patchId
  proposalId := e.record.proposalId
  bundleHash := e.record.bundleHash
  executionHash := e.executionHash
  activationHeight := e.record.activationHeight
  governanceContract := e.record.governanceContract
  summary := e.record.summary
  uri := e.record.uri
  emergency := e.record.emergency
  changes := e.appliedChanges

/-- A key of the bundle as the loader of `StatePatches` takes it. -/
def BundleChange.toPatchChange (change : BundleChange) : PatchChange :=
  ⟨change.key, change.value.value, isJson_of_isDocument _ change.value.wellFormed⟩

section Manager

variable (B : Builtins) (C : Codec) (buildContractArtifacts : String → Value → Except PyErr (String × String))

namespace StatePatchManager

/-! ### The inventory -/

/-- The loop of `load_patches` over the files of the directory. -/
def collect (m : StatePatchManager) : List BundleFile → PyDict String StatePatchBundle →
    Except PyErr (PyDict String StatePatchBundle)
  | [], bundles => .ok bundles
  | file :: rest, bundles => do
    let bundle ← loadBundleFile B m.governanceContract file
    require (bundle.patchId ∉ bundles.keys)
      (.valueError ("duplicate patch_id '" ++ bundle.patchId ++ "' in bundle inventory"))
    m.collect rest (bundles.set bundle.patchId bundle)

/-- `load_patches`; the directory may be missing. -/
def loadPatches (m : StatePatchManager) (files : Option (List BundleFile)) : Except PyErr Unit × StatePatchManager :=
  match files with
  | none => (.ok (), { m with localBundles := .empty, loaded := true })
  | some files => match m.collect B files .empty with
    | .ok bundles => (.ok (), { m with localBundles := bundles, loaded := true })
    | .error e => (.error e, { m with localBundles := .empty, loaded := false })

/-! ### Records -/

def scheduledPrefix (m : StatePatchManager) (height : Int) : String :=
  makeKey m.governanceContract "scheduled_patches" [toString height] ++ delimiter

def patchKey (m : StatePatchManager) (patchId field : String) : String :=
  makeKey m.governanceContract "patches" [patchId, field]

/-- `v or ""`. -/
def orEmpty (v : Value) : Value := if B.truthy v then v else .str ""

/-- The record of a patch with one of the two statuses. -/
def patchRecord (m : StatePatchManager) (read : String → Value) (height : Int) (patchId status : String) :
    Except PyErr ScheduledPatchRecord := do
  let field name := read (m.patchKey patchId name)
  require (asInt (field "proposal_id")).isSome
    (.valueError ("missing proposal_id for governed state patch " ++ patchId))
  let bundleHash ← nonemptyText (field "bundle_hash")
    (.valueError ("missing bundle_hash for governed state patch " ++ patchId))
  require (B.eq (field "activation_height") (.int height))
    (.valueError ("governed state patch " ++ patchId ++ " has inconsistent activation height"))
  return {
    patchId, proposalId := field "proposal_id", bundleHash
    activationHeight := field "activation_height"
    governanceContract := m.governanceContract
    summary := orEmpty B (field "summary")
    uri := orEmpty B (field "uri")
    emergency := B.truthy (field "emergency")
    status }

/-- One turn of the loop over the scheduled patches: nothing, where the status says so. -/
def scheduledRecord (m : StatePatchManager) (read : String → Value) (height : Int) (includeApplied : Bool)
    (patchId : String) : Except PyErr (Option ScheduledPatchRecord) := do
  let status := read (m.patchKey patchId "status")
  requireHashable status
  if status = .str "approved" then return some (← m.patchRecord B read height patchId "approved")
  else if status = .str "applied" ∧ includeApplied then return some (← m.patchRecord B read height patchId "applied")
  else return none

variable {D : Type} [Driver D]

/-- `items(prefix)`: pending writes over stored values. -/
def driverItems (driver : D) (keyPrefix : String) : PyDict String Value :=
  ((Driver.durable driver).update (Driver.pending driver).items).filter fun k _ =>
    keyPrefix.toList.isPrefixOf k.toList

/-- The patches scheduled for the height. -/
def scheduledIds (m : StatePatchManager) (driver : D) (height : Int) : List String :=
  ((driverItems driver (m.scheduledPrefix height)).items.filter fun p => B.truthy p.2).map fun p =>
    String.ofList (p.1.toList.drop (m.scheduledPrefix height).toList.length)

def readScheduledPatchRecords (m : StatePatchManager) (driver : D) (height : Int) (includeApplied : Bool) :
    Except PyErr (List ScheduledPatchRecord) := do
  let records ← (m.scheduledIds B driver height).mapM
    (m.scheduledRecord B (driverView driver).current height includeApplied)
  return sortBy ScheduledPatchRecord.patchId (records.filterMap id)

/-! ### Executions -/

def validateBundleAgainstRecord (m : StatePatchManager) (bundle : StatePatchBundle) (record : ScheduledPatchRecord) :
    Except PyErr Unit := do
  require (bundle.bundleHash = record.bundleHash)
    (.valueError ("state patch bundle hash mismatch for " ++ record.patchId ++ ": local=" ++ bundle.bundleHash ++
      " governed=" ++ record.bundleHash))
  require (B.eq bundle.activationHeight record.activationHeight)
    (.valueError ("state patch activation height mismatch for " ++ record.patchId))
  require (bundle.governanceContract = record.governanceContract)
    (.valueError ("state patch governance contract mismatch for " ++ record.patchId))
  require (bundle.chainId = none ∨ m.chainId = bundle.chainId)
    (.valueError ("state patch " ++ record.patchId ++ " targets chain_id '" ++ bundle.chainId.getD "" ++ "'"))

end StatePatchManager

def persistedComment (comment : Value) : String := "Persisted VM IR for " ++ B.format comment

/-- The changes recorded for a change of the bundle: a source is recorded normalised, and with its VM module. -/
def recordedChanges (change : BundleChange) : Except PyErr (List BundleChange) :=
  if change.toPatchChange.isSource then do
    let contractName := (keyParts change.key).headD ""
    let (source, ir) ← buildContractArtifacts contractName change.value.value
    return [{ change with value := .ofStr source },
      ⟨contractName ++ "." ++ xianVmV1IrKey, .ofStr ir, .ofStr (persistedComment B change.comment.value)⟩]
  else .ok [change]

/-- The loop of `_build_applied_changes`, before the changes are sorted. -/
def expandChanges (changes : List BundleChange) : Except PyErr (List BundleChange) := do
  return (← changes.mapM (recordedChanges B buildContractArtifacts)).flatten

def buildAppliedChanges (bundle : StatePatchBundle) : Except PyErr (List BundleChange) := do
  return sortBy BundleChange.key (← expandChanges B buildContractArtifacts bundle.changes.items)

/-- The payload `_hash_from_execution_payload` hashes. -/
def executionPayload (record : ScheduledPatchRecord) (changes : List BundleChange) : Value := .dict [
  ("activation_height", record.activationHeight),
  ("bundle_hash", .str record.bundleHash),
  ("changes", canonicalChanges changes),
  ("emergency", .bool record.emergency),
  ("governance_contract", .str record.governanceContract),
  ("patch_id", .str record.patchId),
  ("proposal_id", record.proposalId)]

def hashFromExecutionPayload (record : ScheduledPatchRecord) (changes : List BundleChange) : Except PyErr String := do
  return hashText (← canonicalPatchJson (executionPayload record changes))

def aggregateHash (executions : List PatchExecution) : Except PyErr String := do
  return hashText (← canonicalPatchJson (.list (executions.map fun e => .str e.executionHash)))

namespace StatePatchManager

def buildExecution (m : StatePatchManager) (record : ScheduledPatchRecord) : Except PyErr PatchExecution :=
  match m.localBundles.get? record.patchId with
  | none => .error (.fileNotFoundError ("missing local state patch bundle for approved patch " ++ record.patchId))
  | some bundle => do
    m.validateBundleAgainstRecord B bundle record
    let appliedChanges ← buildAppliedChanges B buildContractArtifacts bundle
    let executionHash ← hashFromExecutionPayload record appliedChanges
    return ⟨record, bundle, executionHash, appliedChanges⟩

variable {D : Type} [Driver D]

def buildExecutions (m : StatePatchManager) (driver : D) (height : Int) (includeApplied : Bool) :
    Except PyErr (List PatchExecution) := do
  require m.loaded (.runtimeError "State patch bundle inventory is not loaded")
  let records ← m.readScheduledPatchRecords B driver height includeApplied
  records.mapM (m.buildExecution B buildContractArtifacts)

/-- What both builders return for the executions of a block. -/
def report (executions : List PatchExecution) : Except PyErr (Option String × List PatchPayload) :=
  if executions.isEmpty then .ok (none, [])
  else do return (some (← aggregateHash executions), executions.map PatchExecution.toPayloadDict)

def buildAppliedPatchesForBlock (m : StatePatchManager) (driver : D) (height : Int) :
    Except PyErr (Option String × List PatchPayload) := do
  report (← m.buildExecutions B buildContractArtifacts driver height true)

/-! ### Applying -/

/-- The fields `_mark_patch_applied` sets. -/
def marks (m : StatePatchManager) (execution : PatchExecution) (height nanos : Int) (blockHash : Option String) :
    List (String × Value) := [
  (m.patchKey execution.record.patchId "status", .str "applied"),
  (m.patchKey execution.record.patchId "applied_block_height", .int height),
  (m.patchKey execution.record.patchId "applied_block_hash", optionText blockHash),
  (m.patchKey execution.record.patchId "applied_at_nanos", .int nanos),
  (m.patchKey execution.record.patchId "execution_hash", .str execution.executionHash)]

def applyExecutions (m : StatePatchManager) (height nanos : Int) (blockHash : Option String) :
    List PatchExecution → D → Except PyErr Unit × D
  | [], driver => (.ok (), driver)
  | execution :: rest, driver =>
    match applySingleBundle C buildContractArtifacts
        (execution.bundle.changes.items.map BundleChange.toPatchChange) driver with
    | (.error e, driver) => (.error e, driver)
    | (.ok _, driver) =>
      m.applyExecutions height nanos blockHash rest
        (setEach ((m.marks execution height nanos blockHash).map .ok) driver).2

def applyPatchesForBlock (m : StatePatchManager) (driver : D) (height nanos : Int) (blockHash : Option String) :
    Except PyErr (Option String × List PatchPayload) × D :=
  match m.buildExecutions B buildContractArtifacts driver height false with
  | .error e => (.error e, driver)
  | .ok executions =>
    match m.applyExecutions C buildContractArtifacts height nanos blockHash executions driver with
    | (.error e, driver) => (.error e, driver)
    | (.ok _, driver) => (report executions, driver)

end StatePatchManager

end Manager

end XianAbci
