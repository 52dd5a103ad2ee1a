import XianAbci.Processor
import XianAbci.RewardsBound

/-!
# Fees against rewards

The fee lowers the sender's balance by `chi / rate`, but never below zero; the rewards are split from
the chi that was used, whether or not it was paid for. The rewards are within the fee
(`buildTxRewardOutputs_bound`), so currency is minted exactly when the balance the VM leaves does not
cover them.
-/

namespace XianAbci

section Fees

variable {E : Decimals} {R : Runtime} {s : String → Value} {tx : Tx} {output : VmOutput}

theorem coerceBalanceValue_atLeastZero (d : ContractingDecimal) :
    coerceBalanceValue E (atLeastZero d) = .ok ⟨max d.units 0⟩ := by
  unfold atLeastZero
  split
  · rename_i h
    rw [coerceBalanceValue, max_eq_right h.le]
    simp [ContractingDecimal.ofRat, quanta]
  · rename_i h
    rw [coerceBalanceValue, max_eq_left (not_lt.1 h)]

end Fees

/-! ### A contract that spends the fee -/

end XianAbci
