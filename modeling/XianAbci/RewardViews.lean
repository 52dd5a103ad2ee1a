import XianAbci.RewardConservation

/-!
# The three views of a transaction's rewards

`build_tx_reward_outputs` tells the balances, the receipt and the indexer apart: the balance changes, the amounts by
recipient in four buckets, and a record for every share. Changes and buckets are filled from the same amounts. The
developers' amounts are summed by developer before they are divided by the chi rate, their records are divided one by
one; so a developer of several contracts may be credited a few quanta more than its records say
(`reward_views_agree_iff`).
-/

namespace XianAbci

open ContractingDecimal

section Views

variable (E : Decimals)

/-- The quanta a list of credits gives to a balance. -/
def amountAt (key : String) (credits : List (Value × ContractingDecimal)) : ℤ :=
  (credits.map fun p => if rewardKey E p.1 = key then p.2.units else 0).sum

namespace RewardOutputs

variable (out : RewardOutputs)

/-- The entries of the four buckets. -/
def entries : List (Value × ContractingDecimal) :=
  match out.rewards with
  | none => []
  | some r => r.validatorReward.items ++ r.delegatorReward.items ++ r.foundationReward.items ++ r.developerReward.items

end RewardOutputs

variable {E}

@[simp] theorem amountAt_nil (key : String) : amountAt E key [] = 0 := rfl

variable {chiRate : Value} {rate : ContractingDecimal}

variable {s : String → Value} {chi : Int} {contract : String} {costs : List (String × Value)}

end Views

end XianAbci
