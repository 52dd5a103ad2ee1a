import XianAbci.Rewards

/-!
# Transaction processing (`processor.py`, `execution_engine.py`)

`process_tx` prepares the contract, runs it in the VM, takes the fee from the sender's balance, splits
the fee into rewards and sets the resulting values in the driver. The VM and the preparation of a
contract are not part of this repository's Python code; `Runtime` has them as functions of the driver's
values. What surrounds them is written out, so that its reads are known.
-/

namespace XianAbci

/-- A decoded transaction; `hash`, `environment` and `sizeBytes` are computed from it and the block. -/
structure Tx where
  sender : String
  contract : String
  function : String
  kwargs : Value
  nonce : Value
  chiSupplied : Int
  hash : String
  environment : Value
  sizeBytes : Nat

structure TxFeePolicy where
  meterExecution : Bool
  chargeFees : Bool
  distributeFeeRewards : Bool

def TxFeePolicy.paidMetered : TxFeePolicy := ⟨true, true, true⟩

/-- What `execute_vm_contract` returns, with the reads the driver recorded for it. -/
structure VmOutput where
  statusCode : Int
  result : Value
  writes : PyDict String Value
  events : List Value
  chiUsed : Int
  contractCosts : List (String × Value)
  reads : List String
  prefixReads : List String

structure VmCall where
  sender : String
  contract : String
  function : String
  kwargs : Value
  environment : Value
  meter : Bool
  chiBudget : Int
  sizeBytes : Nat

structure Runtime where
  prepareVmContract : String → StateReader Unit
  convertDict : Value → Value
  executeVmContract : VmCall → (String → Value) → Except PyErr VmOutput

def balancesKey (sender : String) : String := makeKey "currency" "balances" [sender]

def chiCostKey : String := makeKey "chi_cost" "S" ["value"]

/-! ### Metering -/

section Metering

variable (E : Decimals)

/-- `_coerce_balance_value`, as the number the subtraction sees. -/
def coerceBalanceValue : Value → Except PyErr ContractingDecimal
  | .decimal d => .ok d
  | .dict entries => (Value.dict entries).get "__fixed__" .none >>= E.contracting
  | .none => .ok 0
  | .str s => E.contracting (.str s)
  | .float repr => E.contracting (.float repr)
  | .pyDecimal units scale => E.contracting (.pyDecimal units scale)
  | .int i => .ok (.ofRat i)
  | .bool b => .ok (.ofRat (if b then 1 else 0))
  | _ => .error (.typeError "unsupported operand type(s) for -")

/-- `ContractingDecimal(chi_used) / ContractingDecimal(chi_cost)`. -/
def fee (chiUsed : Int) (chiCost : Value) : Except PyErr ContractingDecimal := do
  let cost ← E.contracting chiCost
  require (cost.units ≠ 0) (.other "decimal.DivisionByZero")
  return .ofRat (chiUsed / cost.toRat)

/-- `max(balance, 0)`. -/
def atLeastZero (balance : ContractingDecimal) : Value := if balance.units < 0 then .int 0 else .decimal balance

/-- The value a write set gives a key, else the driver's. -/
def writtenOrRead (writes : PyDict String Value) (key : String) : StateReader Value :=
  match writes.get? key with
  | some value => return value
  | none => .read key

def vmMeteringWrites (sender : String) (chiUsed : Int) (chiCost : Value) (baseWrites : PyDict String Value) :
    StateReader (PyDict String Value) :=
  if chiUsed ≤ 0 then return .empty
  else do
    let balance ← .lift (coerceBalanceValue E (← writtenOrRead baseWrites (balancesKey sender)))
    let toDeduct ← .lift (fee E chiUsed chiCost)
    return .ofList [(balancesKey sender, atLeastZero ⟨balance.units - toDeduct.units⟩)]

/-- What `execute_vm_transaction` adds to the VM's writes. -/
def mergedWrites (policy : TxFeePolicy) (sender : String) (chiCost : Value) (output : VmOutput) :
    StateReader (PyDict String Value) :=
  if policy.chargeFees ∧ output.statusCode = 0 ∧ policy.meterExecution ∧ output.chiUsed > 0 then do
    let metering ← vmMeteringWrites E sender output.chiUsed chiCost output.writes
    return output.writes.update metering.items
  else return output.writes

variable {E} {s : String → Value}

theorem writtenOrRead_run (writes : PyDict String Value) (key : String) :
    (writtenOrRead writes key).run s = .ok ((writes.get? key).getD (s key)) := by
  unfold writtenOrRead
  cases writes.get? key <;> rfl

/-- Metering takes the fee from the balance it finds, down to zero. -/
theorem vmMeteringWrites_run {sender : String} {chi : Int} {cost : Value} {base writes : PyDict String Value}
    (hchi : 0 < chi) (h : (vmMeteringWrites E sender chi cost base).run s = .ok writes) :
    ∃ balance paid, coerceBalanceValue E ((base.get? (balancesKey sender)).getD (s (balancesKey sender))) = .ok balance ∧
      fee E chi cost = .ok paid ∧
      writes = .ofList [(balancesKey sender, atLeastZero ⟨balance.units - paid.units⟩)] := by
  unfold vmMeteringWrites at h
  rw [if_neg (not_le.2 hchi)] at h
  simp only [ReadM.run_bind, ReadM.run_lift, ReadM.run_pure, writtenOrRead_run, bind_eq_ok] at h
  obtain ⟨_, hvalue, balance, hbalance, paid, hpaid, h⟩ := h
  cases hvalue
  cases h
  exact ⟨balance, paid, hbalance, hpaid, rfl⟩

end Metering

/-! ### The output of a transaction -/

structure TxResult where
  hash : String
  status : Int
  state : List (String × Value)
  events : List Value
  chiUsed : Int
  result : Value
  rewards : Option TxRewards
  rewardRecords : List RewardRecord

structure TransactionAccess where
  sender : String
  nonce : Value
  reads : List String
  prefixReads : List String
  writes : List String
  additiveWrites : List String
  status : Int

/-- Everything `process_tx_output` computes before it looks at the balances the rewards go to. -/
structure TxOutcome where
  output : VmOutput
  rewards : RewardOutputs
  baseWrites : PyDict String Value

section Output

variable (E : Decimals) (policy : TxFeePolicy) (rewardsHandler : Bool)

/-- `status == 0` applies the writes; a failed transaction pays its fee from the state before it. -/
def determineWritesFromOutput (sender : String) (chiCost : Value) (output : VmOutput) :
    StateReader (PyDict String Value) :=
  if output.statusCode = 0 then return output.writes
  else if policy.chargeFees then vmMeteringWrites E sender output.chiUsed chiCost .empty
  else return .empty

/-- The rewards a transaction distributes. -/
def txRewards (tx : Tx) (output : VmOutput) : StateReader RewardOutputs :=
  if policy.distributeFeeRewards ∧ output.statusCode = 0 ∧ rewardsHandler then
    buildTxRewardOutputs E output.chiUsed tx.contract output.contractCosts
  else return noRewards

def txOutcome (tx : Tx) (chiCost : Value) (output : VmOutput) : StateReader TxOutcome := do
  let rewards ← txRewards E policy rewardsHandler tx output
  let baseWrites ← determineWritesFromOutput E policy tx.sender chiCost output
  return ⟨output, rewards, baseWrites⟩

/-- `value + delta`. -/
def addDelta (delta : ContractingDecimal) : Value → Except PyErr Value
  | .int i => .ok (.decimal (.ofRat i + delta))
  | .bool b => .ok (.decimal (.ofRat (if b then 1 else 0) + delta))
  | .decimal d => .ok (.decimal (d + delta))
  | .float repr => (E.contracting (.float repr)).map fun d => .decimal (d + delta)
  | .pyDecimal units scale => (E.contracting (.pyDecimal units scale)).map fun d => .decimal (d + delta)
  | _ => .error (.typeError "unsupported operand type(s) for +")

/-- What a delta is added to; a recipient without a balance has zero. -/
def rewardBase (writes : PyDict String Value) (key : String) : StateReader Value :=
  match writes.get? key with
  | some value => return value
  | none => do
    let value ← .read key
    return if value = .none then .int 0 else value

/-- The loop of `materialize_writes` over the reward deltas. -/
def addRewards : List (String × ContractingDecimal) → PyDict String Value → StateReader (PyDict String Value)
  | [], writes => return writes
  | (key, delta) :: rest, writes => do
    let value ← .lift (addDelta E delta (← rewardBase writes key))
    addRewards rest (writes.set key value)

/-- The writes of a transaction, sorted by key. -/
def materializeWrites (outcome : TxOutcome) : StateReader (List (String × Value)) := do
  let writes ← addRewards E outcome.rewards.deltas.items outcome.baseWrites
  return writes.items.foldr (fun p l => insertEntry p.1 p.2 l) []

/-- `tx_output`; `safe_repr` of the result is left to its reader. -/
def txResult (tx : Tx) (outcome : TxOutcome) (state : List (String × Value)) : TxResult where
  hash := tx.hash
  status := outcome.output.statusCode
  state := state
  events := outcome.output.events
  chiUsed := outcome.output.chiUsed
  result := outcome.output.result
  rewards := outcome.rewards.rewards
  rewardRecords := outcome.rewards.records

def buildAccessRecord (tx : Tx) (outcome : TxOutcome) : TransactionAccess where
  sender := tx.sender
  nonce := tx.nonce
  reads := outcome.output.reads
  prefixReads := outcome.output.prefixReads
  writes := outcome.baseWrites.keys
  additiveWrites := outcome.rewards.deltas.keys
  status := outcome.output.statusCode

end Output

/-! ### Execution -/

section Execute

variable (E : Decimals) (R : Runtime) (policy : TxFeePolicy) (rewardsHandler : Bool)

/-- `vm_requires_contract_source`. -/
def requiresContractSource (tx : Tx) (kwargs : Value) : Bool :=
  tx.contract = "submission" && tx.function = "submit_contract" &&
    match kwargs.get "code" .none with
    | .ok (.str code) => code = ""
    | _ => true

def contractSourceError (tx : Tx) : String :=
  "xian_vm_v1 requires source code for " ++ tx.contract ++ "." ++ tx.function

def vmCall (tx : Tx) (kwargs : Value) : VmCall where
  sender := tx.sender
  contract := tx.contract
  function := tx.function
  kwargs := kwargs
  environment := tx.environment
  meter := policy.meterExecution
  chiBudget := tx.chiSupplied
  sizeBytes := tx.sizeBytes

/-- The VM's own output, before the fee is taken; what raises ends the transaction without a result. -/
def executeVm (tx : Tx) (s : String → Value) : Except PyErr VmOutput := do
  (R.prepareVmContract tx.contract).run s
  let kwargs := R.convertDict tx.kwargs
  if requiresContractSource tx kwargs then
    return ⟨1, .exception (contractSourceError tx), .empty, [], 0, [], [], []⟩
  else R.executeVmContract (vmCall policy tx kwargs) s

/-- `execute_tx` on the driver's values. The output for a missing source has no writes and no chi, so
nothing is merged into it. -/
def executeTx (tx : Tx) (chiCost : Value) (s : String → Value) : Except PyErr VmOutput := do
  let output ← executeVm R policy tx s
  let writes ← (mergedWrites E policy tx.sender chiCost output).run s
  return { output with writes := writes }

/-- `get_chi_cost`; `cached` is `cached_chi_cost`. -/
def getChiCost (cached : Option Value) (s : String → Value) : Value :=
  match cached with
  | some cost => cost
  | none => if E.builtins.truthy (s chiCostKey) then s chiCostKey else .int 1

def updateChiCostCache (cached : Option Value) (baseWrites : PyDict String Value) : Option Value :=
  match baseWrites.get? chiCostKey with
  | none => cached
  | some .none => none
  | some cost => some cost

/-- The outcome of a transaction at the given chi cost, before its writes are set. -/
def runTx (tx : Tx) (chiCost : Value) (s : String → Value) : Except PyErr TxOutcome := do
  let output ← executeTx E R policy tx chiCost s
  (txOutcome E policy rewardsHandler tx chiCost output).run s

end Execute

end XianAbci
