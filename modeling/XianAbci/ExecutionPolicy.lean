import XianAbci.Builtins
import XianAbci.Lib.PyDict

/-!
# The execution policy (`execution_policy.py`)

The policy a chain's state is bound to: a state, a genesis document or a snapshot is only accepted
with exactly the running node's policy.
-/

namespace XianAbci

def vmExecutionMode : String := "xian_vm_v1"
def vmBytecodeVersion : String := "xvm-1"
def vmGasSchedule : String := "xvm-gas-2"
def vmExecutionRevision : String := "xvm-execution-5"
def setCodec : String := "xian-set-1"
def executionPolicyKey : String := "__execution_policy"

def currentExecutionPolicy : List (String × Value) :=
  [("execution_revision", .str vmExecutionRevision),
   ("gas_schedule", .str vmGasSchedule),
   ("bytecode_version", .str vmBytecodeVersion),
   ("set_codec", .str setCodec)]

/-- `dict(value) == current_execution_policy()`: the same bindings, in any order. -/
def policyMatches (entries : List (String × Value)) : Bool :=
  entries.length = currentExecutionPolicy.length ∧
    currentExecutionPolicy.all fun p => entries.lookup p.1 = some p.2

def validateExecutionPolicy (value : Value) : Except PyErr Unit :=
  let err := PyErr.valueError ("incompatible or missing execution policy; use fresh current genesis " ++
    "or replay historical state with its pinned previous image")
  match value with
  | .dict entries => if policyMatches entries then .ok () else .error err
  | _ => .error err

/-- The policy a genesis entry carries, if it is one. -/
def policyEntry : Value → Option Value
  | .dict entry =>
    if entry.lookup "key" = some (.str executionPolicyKey) then some ((entry.lookup "value").getD .none)
    else none
  | _ => none

def validateGenesisExecutionPolicy (genesis : Value) : Except PyErr Unit := do
  let state ← genesis.get "abci_genesis" genesis
  let entries ← match state with
    | .dict _ => state.get "genesis" (.list [])
    | _ => pure (.list [])
  match (← entries.iter).filterMap policyEntry with
  | [policy] => validateExecutionPolicy policy
  | _ => throw (.valueError "genesis must contain exactly one execution policy")

/-- The policy in the store, where there is anything in the store. -/
def validatePersistedExecutionPolicy (durable : PyDict String Value) : Except PyErr Bool :=
  if durable.isEmpty then .ok false
  else (validateExecutionPolicy ((durable.get? executionPolicyKey).getD .none)).map fun _ => true

end XianAbci
