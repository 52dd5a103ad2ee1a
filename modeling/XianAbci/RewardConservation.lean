import XianAbci.RewardsBound

/-!
# What the splits conserve

The three splits of `rewards.py` work on exact shares and round each down to a record. The shares are nonnegative,
and where products and quotients are exact they add up to what is split: every split gives its last part what the
others left, and what a developer does not take goes to the validators. `singleValidatorShares` and `portions` are
the shares; the records carry their floors.
-/

namespace XianAbci

open ContractingDecimal

section Shares

variable (E : Decimals)

/-- Products and quotients are not rounded. -/
def Decimals.Exact : Prop := ∀ x, E.arith.round x = x

variable {E} {s : String → Value}

theorem Decimals.Exact.mul (h : E.Exact) (a b : ℚ) : E.arith.mul a b = a * b := h _

theorem Decimals.Exact.div (h : E.Exact) (a b : ℚ) : E.arith.div a b = a / b := h _

theorem recordTotal_eq_of_floors {records : List RewardRecord} {shares : List ℚ}
    (h : records.map RewardRecord.value = shares.map ofRat) : recordTotal records = (shares.map fun x => (ofRat x).toRat).sum := by
  rw [recordTotal, show (fun r : RewardRecord => r.value.toRat) = toRat ∘ RewardRecord.value from rfl, ← List.map_map, h,
    List.map_map]
  rfl

/-- Records are worth no more than the shares they are the floors of. -/
theorem recordTotal_le_shares {records : List RewardRecord} {shares : List ℚ}
    (h : records.map RewardRecord.value = shares.map ofRat) : recordTotal records ≤ shares.sum := by
  rw [recordTotal_eq_of_floors h]
  clear h
  induction shares with
  | nil => exact le_rfl
  | cons x rest ih =>
    simp only [List.map_cons, List.sum_cons]
    exact add_le_add (toRat_ofRat_le x) ih

/-! ### One validator -/

/-- What the validators split: their ratio of the chi and what was redirected to them. -/
def validatorTotal (E : Decimals) (chi : Int) (ratio additional : ℚ) : ℚ := E.arith.mul chi ratio + additional

end Shares

end XianAbci
