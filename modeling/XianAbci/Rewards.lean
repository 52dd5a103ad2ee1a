import XianAbci.Builtins
import XianAbci.Lib.FloorSplit
import XianAbci.Lib.PyDict
import XianAbci.Lib.ReadM
import XianAbci.StateRoot

/-!
# Transaction rewards (`rewards.py`)

The chi a transaction used is split over the foundation, the developers of the contracts that ran and
the active validators with their delegators, by the ratios in `rewards.S:value`; each amount is then
divided by the chi rate. The functions read the state through `get_var`, so they are `ReadM` programs.

A `decimal.Decimal` is a rational number: sums are exact, products and quotients round toward the
floor. `ContractingDecimal(str(x))` drops what is below `10⁻³⁰`.
-/

namespace XianAbci

namespace ContractingDecimal

def toRat (d : ContractingDecimal) : ℚ := d.units / 10 ^ 30

/-- `ContractingDecimal(str(x))`. -/
def ofRat (x : ℚ) : ContractingDecimal := ⟨quanta 30 x⟩

instance : Add ContractingDecimal := ⟨fun a b => ⟨a.units + b.units⟩⟩

instance : Zero ContractingDecimal := ⟨⟨0⟩⟩

end ContractingDecimal

/-- The conversions and the arithmetic the node computes fees with; `parse` is `Decimal(text)`. -/
structure Decimals where
  builtins : Builtins
  arith : FloorArith
  parse : String → Except PyErr ℚ

/-- Exact arithmetic, which the rounded one is on short numbers. -/
def exactDecimals : Decimals where
  builtins := .plain
  arith := ⟨id, fun _ => le_rfl, fun _ h => h⟩
  parse _ := .error (.other "decimal.InvalidOperation")

/-- Programs over the driver's current values; an absent key reads as `None`. -/
abbrev StateReader := ReadM String Value PyErr

def makeKey (contract var : String) (args : List String) : String :=
  args.foldl (fun key arg => key ++ delimiter ++ arg) (contract ++ indexSeparator ++ var)

/-- `client.get_var(contract, var, args)`. -/
def getVar (contract var : String) (args : List String) : StateReader Value :=
  .read (makeKey contract var args)

mutual
/-- A dict key must be hashable; a tuple is as its items are. -/
def requireHashable : Value → Except PyErr Unit
  | .list _ => .error (.typeError "unhashable type: 'list'")
  | .dict _ => .error (.typeError "unhashable type: 'dict'")
  | .set _ => .error (.typeError "unhashable type: 'set'")
  | .tuple items => requireHashableItems items
  | _ => .ok ()

def requireHashableItems : List Value → Except PyErr Unit
  | [] => .ok ()
  | v :: rest => do
    requireHashable v
    requireHashableItems rest
end

inductive RewardType
  | validatorReward
  | delegatorReward
  | foundationReward
  | developerReward
deriving DecidableEq, Repr

def RewardType.text : RewardType → String
  | .validatorReward => "validator_reward"
  | .delegatorReward => "delegator_reward"
  | .foundationReward => "foundation_reward"
  | .developerReward => "developer_reward"

structure RewardRecord where
  type : RewardType
  recipientKey : Value
  sourceContract : Option String
  validatorKey : Option Value
  delegatorKey : Option Value
  value : ContractingDecimal

/-- Amounts by recipient. -/
abbrev RewardMapping := PyDict Value ContractingDecimal

/-- `mapping[recipient] += value` for each record. -/
def creditRecords (records : List RewardRecord) : RewardMapping :=
  records.foldl (fun m r => m.addAt r.recipientKey r.value) .empty

/-- A delegator of a validator, where its reward goes, and what it delegated. -/
structure Delegation where
  delegator : Value
  rewardKey : Value
  weight : ℚ

section Rewards

variable (E : Decimals)

/-- `Decimal(str(v))`. -/
def Decimals.ofText : Value → Except PyErr ℚ
  | .int i => .ok i
  | .decimal d => .ok d.toRat
  | .pyDecimal units scale => .ok (units / 10 ^ scale)
  | .str s => E.parse s
  | .float repr => E.parse repr
  | v => E.parse (E.builtins.format v)

/-- `_as_decimal`. -/
def Decimals.asDecimal : Value → Except PyErr ℚ
  | .dict entries => (Value.dict entries).index "__fixed__" >>= E.ofText
  | v => E.ofText v

/-- `ContractingDecimal(v)`. -/
def Decimals.contracting (v : Value) : Except PyErr ContractingDecimal := (E.ofText v).map .ofRat

def dustExponent : Nat := 8

/-- Whatever the calculation raises, the reward is then zero. -/
def calculateParticipantReward (participantRatio : Value) (numberOfParticipants totalChiToSplit : Int) :
    ContractingDecimal :=
  let participants : Int := if numberOfParticipants ≠ 0 then numberOfParticipants else 1
  match E.asDecimal participantRatio with
  | .ok ratio =>
    let reward := E.arith.mul (E.arith.div ratio participants) totalChiToSplit
    .ofRat (quanta dustExponent reward / 10 ^ dustExponent)
  | .error _ => 0

/-- A stored number, `default` for an absent one. -/
def getNumber (var : String) (args : List String) (default : ℚ) (normalize : ℚ → ℚ) : StateReader ℚ := do
  let value ← getVar "validators" var args
  if value = .none then return default
  else return normalize (← .lift (E.asDecimal value))

def getValidatorPower (validator : Value) : StateReader ℚ :=
  getNumber E "powers" [E.builtins.format validator] 1 fun x => if x ≤ 0 then 1 else x

def getValidatorCommissionBps (validator : Value) : StateReader ℚ :=
  getNumber E "commission_bps" [E.builtins.format validator] 0
    fun x => if x < 0 then 0 else if x > 10000 then 10000 else x

def getValidatorSelfBond (validator : Value) : StateReader ℚ :=
  getNumber E "self_bond" [E.builtins.format validator] 0 fun x => if x < 0 then 0 else x

def getValidatorDelegation (delegator validator : Value) : StateReader ℚ :=
  getNumber E "delegations" [E.builtins.format delegator, E.builtins.format validator] 0
    fun x => if x < 0 then 0 else x

def getValidatorRewardKey (validator : Value) : StateReader Value := do
  let rewardKey ← getVar "validators" "reward_keys" [E.builtins.format validator]
  return if rewardKey = .none ∨ rewardKey = .str "" then validator else rewardKey

def getDelegatorRewardKey (delegator validator : Value) : StateReader Value := do
  let rewardKey ← getVar "validators" "delegator_reward_keys"
    [E.builtins.format delegator, E.builtins.format validator]
  return if rewardKey = .none ∨ rewardKey = .str "" then delegator else rewardKey

def getValidatorDelegators (validator : Value) : StateReader (List Value) := do
  let delegators ← getVar "validators" "delegator_lists" [E.builtins.format validator]
  if E.builtins.truthy delegators then .lift delegators.iter else return []

/-- The loop over the delegators; one without a positive delegation is left out. -/
def delegatorWeights (validator : Value) : List Value → StateReader (List Delegation)
  | [] => return []
  | delegator :: rest => do
    let delegation ← getValidatorDelegation E delegator validator
    if delegation ≤ 0 then delegatorWeights validator rest
    else
      let rewardKey ← getDelegatorRewardKey E delegator validator
      return ⟨delegator, rewardKey, delegation⟩ :: (← delegatorWeights validator rest)

def validatorRecord (validator operatorKey : Value) (value : ContractingDecimal) : RewardRecord :=
  ⟨.validatorReward, operatorKey, none, some validator, none, value⟩

def delegatorRecord (validator : Value) (p : Delegation × ℚ) : RewardRecord :=
  ⟨.delegatorReward, p.1.rewardKey, none, some validator, some p.1.delegator, .ofRat p.2⟩

/-- `operator_total`. -/
def operatorReward (commission remainder selfBond stakeBase : ℚ) : ℚ :=
  commission + if selfBond > 0 then E.arith.div (E.arith.mul remainder selfBond) stakeBase else 0

def delegatorShare (remainder stakeBase : ℚ) (d : Delegation) : ℚ :=
  E.arith.div (E.arith.mul remainder d.weight) stakeBase

/-- The records of one validator: the operator's, then one for each delegator. -/
def singleValidatorRecords (validator operatorKey : Value) (totalReward commissionBps selfBond : ℚ)
    (weights : List Delegation) : List RewardRecord :=
  let stakeBase := selfBond + (weights.map Delegation.weight).sum
  if stakeBase ≤ 0 then [validatorRecord validator operatorKey (.ofRat totalReward)]
  else
    let commission := E.arith.div (E.arith.mul totalReward commissionBps) 10000
    let remainder := totalReward - commission
    let operatorTotal := operatorReward E commission remainder selfBond stakeBase
    let operator := if operatorTotal > 0 then [validatorRecord validator operatorKey (.ofRat operatorTotal)] else []
    let shares := portions (delegatorShare E remainder stakeBase) totalReward operatorTotal weights
    operator ++ shares.map (delegatorRecord validator)

def buildSingleValidatorRewardOutputs (validator : Value) (totalReward : ℚ) :
    StateReader (RewardMapping × List RewardRecord) := do
  let operatorKey ← getValidatorRewardKey E validator
  let commissionBps ← getValidatorCommissionBps E validator
  let selfBond ← getValidatorSelfBond E validator
  let weights ← delegatorWeights E validator (← getValidatorDelegators E validator)
  let records := singleValidatorRecords E validator operatorKey totalReward commissionBps selfBond weights
  .lift (records.forM fun r => requireHashable r.recipientKey)
  return (creditRecords records, records)

def weightedNodes : List Value → StateReader (List (Value × ℚ))
  | [] => return []
  | validator :: rest => do
    let power ← getValidatorPower E validator
    return (validator, power) :: (← weightedNodes rest)

/-- The loop over the validators' shares. -/
def validatorShares : List ((Value × ℚ) × ℚ) → RewardMapping → List RewardRecord →
    StateReader (RewardMapping × List RewardRecord)
  | [], mapping, records => return (mapping, records)
  | ((validator, _), share) :: rest, mapping, records => do
    let (shareMapping, shareRecords) ← buildSingleValidatorRewardOutputs E validator share
    validatorShares rest (shareMapping.items.foldl (fun m p => m.addAt p.1 p.2) mapping) (records ++ shareRecords)

def buildValidatorSetRewardOutputs (totalChiToSplit : Int) (participantRatio : Value) (validators : List Value)
    (additionalChiToSplit : ℚ) : StateReader (RewardMapping × List RewardRecord) := do
  let ratio ← .lift (E.asDecimal participantRatio)
  let validatorTotal := E.arith.mul totalChiToSplit ratio + additionalChiToSplit
  let nodes ← weightedNodes E validators
  let totalWeight := (nodes.map Prod.snd).sum
  validatorShares E (portions (fun p => E.arith.div (E.arith.mul validatorTotal p.2) totalWeight)
    validatorTotal 0 nodes) .empty []

/-- The costs with a positive weight. -/
def positiveWeights : List (String × Value) → Except PyErr (List (String × ℚ))
  | [] => return []
  | (source, weight) :: rest => do
    let weight ← E.asDecimal weight
    let weights ← positiveWeights rest
    return if weight > 0 then (source, weight) :: weights else weights

/-- The loop over the developers' shares: the records, and what goes to the validators instead. -/
def developerShares : List ((String × ℚ) × ℚ) → List RewardRecord → ℚ → StateReader (List RewardRecord × ℚ)
  | [], records, redirected => return (records, redirected)
  | ((source, _), share) :: rest, records, redirected => do
    let recipient ← getVar source "__developer__" []
    if E.builtins.truthy recipient = false ∨ recipient = .str "sys" then
      developerShares rest records (redirected + share)
    else
      .lift (requireHashable recipient)
      developerShares rest (records ++ [⟨.developerReward, recipient, some source, none, none, .ofRat share⟩]) redirected

def findDeveloperAndReward (totalChiToSplit : Int) (contract : String) (developerRatio : Value)
    (contractCosts : List (String × Value)) : StateReader (RewardMapping × List RewardRecord × ℚ) := do
  let ratio ← .lift (E.asDecimal developerRatio)
  let developerTotal := E.arith.mul totalChiToSplit ratio
  let costs ← .lift (positiveWeights E (contractCosts.foldr (fun p l => insertEntry p.1 p.2 l) []))
  let weights := if costs.isEmpty then [(contract, 1)] else costs
  let totalWeight := (weights.map Prod.snd).sum
  let (records, redirected) ← developerShares E
    (portions (fun p => E.arith.div (E.arith.mul developerTotal p.2) totalWeight) developerTotal 0 weights) [] 0
  return (creditRecords records, records, redirected)

/-- `get_var(...) or []`, as a loop sees it. -/
def getActiveValidators : StateReader (List Value) := do
  let active ← getVar "validators" "active_validators" []
  if E.builtins.truthy active then .lift active.iter else return []

structure RewardSplit where
  validatorMapping : RewardMapping
  validatorRecords : List RewardRecord
  foundationReward : ContractingDecimal
  developerMapping : RewardMapping
  developerRecords : List RewardRecord

/-- `validator_ratio, _burn_ratio, foundation_ratio, developer_ratio = value`. -/
def unpackRatios (value : Value) : Except PyErr (Value × Value × Value × Value) :=
  match value.iter with
  | .ok [validator, burn, foundation, developer] => .ok (validator, burn, foundation, developer)
  | .ok _ => .error (.valueError "not enough values to unpack (expected 4)")
  | .error _ => .error (.other "Driver could not get value for key rewards.S:value. Try setting up rewards.")

def calculateTxOutputRewards (totalChiToSplit : Int) (contract : String) (contractCosts : List (String × Value)) :
    StateReader RewardSplit := do
  let value ← getVar "rewards" "S" ["value"]
  -- the source returns four values where the caller unpacks five
  if E.builtins.truthy value = false then .throw (.valueError "not enough values to unpack (expected 5, got 4)")
  else
    let (validatorRatio, _, foundationRatio, developerRatio) ← .lift (unpackRatios value)
    let foundationReward := calculateParticipantReward E foundationRatio 1 totalChiToSplit
    let (developerMapping, developerRecords, redirected) ←
      findDeveloperAndReward E totalChiToSplit contract developerRatio contractCosts
    let validators ← getActiveValidators E
    let (validatorMapping, validatorRecords) ←
      buildValidatorSetRewardOutputs E totalChiToSplit validatorRatio validators redirected
    return ⟨validatorMapping, validatorRecords, foundationReward, developerMapping, developerRecords⟩

structure TxRewards where
  validatorReward : RewardMapping
  delegatorReward : RewardMapping
  foundationReward : RewardMapping
  developerReward : RewardMapping

structure RewardOutputs where
  rewards : Option TxRewards
  deltas : PyDict String ContractingDecimal
  records : List RewardRecord

/-- `ContractingDecimal(str(amount / chi_rate))`. -/
def divideByRate (chiRate : Value) (amount : ContractingDecimal) : Except PyErr ContractingDecimal := do
  let rate ← E.contracting chiRate
  require (rate.units ≠ 0) (.other "decimal.DivisionByZero")
  return .ofRat (amount.toRat / rate.toRat)

def divideRecords (chiRate : Value) : List RewardRecord → Except PyErr (List RewardRecord)
  | [] => return []
  | record :: rest => do
    let value ← divideByRate E chiRate record.value
    return { record with value := value } :: (← divideRecords chiRate rest)

def divideMapping (chiRate : Value) : List (Value × ContractingDecimal) → Except PyErr (List (Value × ContractingDecimal))
  | [] => return []
  | (recipient, amount) :: rest => do
    let amount ← divideByRate E chiRate amount
    return (recipient, amount) :: (← divideMapping chiRate rest)

def rewardKey (recipient : Value) : String := "currency.balances:" ++ E.builtins.format recipient

/-- `reward_deltas[f"currency.balances:{recipient}"] += amount` for each credit. -/
def creditDeltas (credits : List (Value × ContractingDecimal)) : PyDict String ContractingDecimal :=
  credits.foldl (fun m p => m.addAt (rewardKey E p.1) p.2) .empty

/-- A zero, as `chi_rate in (None, 0)` tests it. -/
def isZero : Value → Bool
  | .int i => i = 0
  | .bool b => !b
  | .decimal d => d.units = 0
  | .pyDecimal units _ => units = 0
  | _ => false

def noRewards : RewardOutputs := ⟨none, .empty, []⟩

def foundationRecords (chiRate foundationOwner : Value) (foundationReward : ContractingDecimal) :
    Except PyErr (List RewardRecord) :=
  if foundationReward.units = 0 then return []
  else do
    let amount ← divideByRate E chiRate foundationReward
    requireHashable foundationOwner
    return [⟨.foundationReward, foundationOwner, none, none, none, amount⟩]

/-- The rewards by recipient, the balance changes and the records of a split at a chi rate. -/
def rewardOutputs (chiRate foundationOwner : Value) (split : RewardSplit) : Except PyErr RewardOutputs := do
  let foundation ← foundationRecords E chiRate foundationOwner split.foundationReward
  let validators ← divideRecords E chiRate split.validatorRecords
  let developers ← divideMapping E chiRate split.developerMapping.items
  let developerRecords ← divideRecords E chiRate split.developerRecords
  let records := foundation ++ validators ++ developerRecords
  let rewards : TxRewards := {
    validatorReward := creditRecords (validators.filter fun r => r.type ≠ .delegatorReward)
    delegatorReward := creditRecords (validators.filter fun r => r.type = .delegatorReward)
    foundationReward := creditRecords foundation
    developerReward := developers.foldl (fun m p => m.addAt p.1 p.2) .empty }
  if rewards.validatorReward.isEmpty && rewards.delegatorReward.isEmpty && rewards.foundationReward.isEmpty &&
      rewards.developerReward.isEmpty then return ⟨none, .empty, records⟩
  else
    let credits := (foundation ++ validators).map (fun r => (r.recipientKey, r.value)) ++ developers
    return ⟨some rewards, creditDeltas E credits, records⟩

def buildTxRewardOutputs (totalChiToSplit : Int) (contract : String) (contractCosts : List (String × Value)) :
    StateReader RewardOutputs := do
  let rewardSplit ← getVar "rewards" "S" ["value"]
  if E.builtins.truthy rewardSplit = false ∨ totalChiToSplit ≤ 0 then return noRewards
  else
    let chiRate ← getVar "chi_cost" "S" ["value"]
    let foundationOwner ← getVar "foundation" "owner" []
    if chiRate = .none ∨ isZero chiRate ∨ foundationOwner = .none then return noRewards
    else
      let split ← calculateTxOutputRewards E totalChiToSplit contract contractCosts
      .lift (rewardOutputs E chiRate foundationOwner split)

end Rewards

end XianAbci
