import Mathlib

/-!
# Quotients rounded to 53 bits

The nearest binary64 number to a rational, ties to the even neighbour: a whole multiple of the spacing of the
doubles around it. Rounding passes no whole number where the spacing is at most 1, and gives one where it is not,
so the ceiling of a rounded number falls below the number only where it was rounded down onto a whole number.
-/

namespace Binary64

/-- The nearest integer, the even one of two. -/
def roundHalfEven (x : ℚ) : ℤ :=
  let k := ⌊x⌋
  if x - k < 1 / 2 then k
  else if 1 / 2 < x - k then k + 1
  else if k % 2 = 0 then k
  else k + 1

theorem roundHalfEven_cases (x : ℚ) :
    roundHalfEven x = ⌊x⌋ ∧ x - ⌊x⌋ ≤ 1 / 2 ∨ roundHalfEven x = ⌊x⌋ + 1 ∧ 1 / 2 ≤ x - ⌊x⌋ := by
  unfold roundHalfEven
  dsimp only
  split_ifs with hlow hhigh heven
  · exact .inl ⟨rfl, hlow.le⟩
  · exact .inr ⟨rfl, hhigh.le⟩
  · exact .inl ⟨rfl, not_lt.1 hhigh⟩
  · exact .inr ⟨rfl, not_lt.1 hlow⟩

theorem le_roundHalfEven {x : ℚ} {n : ℤ} (h : (n : ℚ) ≤ x) : n ≤ roundHalfEven x := by
  have hfloor : n ≤ ⌊x⌋ := Int.le_floor.2 h
  rcases roundHalfEven_cases x with ⟨hx, -⟩ | ⟨hx, -⟩ <;> omega

theorem sub_roundHalfEven_le (x : ℚ) : x - roundHalfEven x ≤ 1 / 2 := by
  rcases roundHalfEven_cases x with ⟨hx, hle⟩ | ⟨hx, -⟩
  · rw [hx]
    exact hle
  · have hlt := Int.lt_floor_add_one x
    rw [hx]
    push_cast
    linarith

/-- The exponent of the spacing: 53 significant bits, down to the subnormal numbers. -/
def ulpExponent (q : ℚ) : ℤ := max (Int.log 2 |q| - 52) (-1074)

def ulp (q : ℚ) : ℚ := 2 ^ ulpExponent q

theorem ulp_pos (q : ℚ) : 0 < ulp q := zpow_pos (by norm_num) _

/-- The nearest double, before a test for overflow. -/
def nearest (q : ℚ) : ℚ := roundHalfEven (q / ulp q) * ulp q

theorem sub_nearest_le (q : ℚ) : q - nearest q ≤ ulp q / 2 := by
  have hround := sub_roundHalfEven_le (q / ulp q)
  have hq : q = q / ulp q * ulp q := (div_mul_cancel₀ q (ulp_pos q).ne').symm
  calc q - nearest q = (q / ulp q - roundHalfEven (q / ulp q)) * ulp q := by
        rw [sub_mul, ← hq]
        rfl
    _ ≤ 1 / 2 * ulp q := mul_le_mul_of_nonneg_right hround (ulp_pos q).le
    _ = ulp q / 2 := by ring

theorem nearest_sub_le (q : ℚ) : nearest q - q ≤ ulp q / 2 := by
  have hround : (roundHalfEven (q / ulp q) : ℚ) - q / ulp q ≤ 1 / 2 := by
    rcases roundHalfEven_cases (q / ulp q) with ⟨hx, -⟩ | ⟨hx, hle⟩
    · have hfloor := Int.floor_le (q / ulp q)
      rw [hx]
      linarith
    · rw [hx]
      push_cast
      linarith
  have hq : q = q / ulp q * ulp q := (div_mul_cancel₀ q (ulp_pos q).ne').symm
  calc nearest q - q = (roundHalfEven (q / ulp q) - q / ulp q) * ulp q := by
        rw [sub_mul, ← hq]
        rfl
    _ ≤ 1 / 2 * ulp q := mul_le_mul_of_nonneg_right hround (ulp_pos q).le
    _ = ulp q / 2 := by ring

theorem nearest_nonneg {q : ℚ} (h : 0 ≤ q) : 0 ≤ nearest q := by
  have hround : (0 : ℤ) ≤ roundHalfEven (q / ulp q) :=
    le_roundHalfEven (by exact_mod_cast div_nonneg h (ulp_pos q).le)
  exact mul_nonneg (Int.cast_nonneg hround) (ulp_pos q).le

/-- The doubles below 2⁵³ are at most 1 apart. -/
theorem ulp_le_one {q : ℚ} (h : 0 ≤ q) (hlt : q < 2 ^ 53) : ulp q ≤ 1 := by
  have hlog : Int.log 2 q ≤ 52 := by
    rcases h.eq_or_lt with rfl | hpos
    · rw [Int.log_zero_right]
      omega
    · have hlt' : q < ((2 : ℕ) : ℚ) ^ (53 : ℤ) := by exact_mod_cast hlt
      have := (Int.lt_zpow_iff_log_lt one_lt_two hpos).1 hlt'
      omega
  have hexponent : ulpExponent q ≤ 0 := by
    rw [ulpExponent, abs_of_nonneg h]
    omega
  exact zpow_le_one_of_nonpos₀ one_le_two hexponent

theorem abs_nearest_lt {q : ℚ} (h : 0 ≤ q) (hlt : q < 2 ^ 53) : |nearest q| < 2 ^ 1024 := by
  have hup := nearest_sub_le q
  have hulp := ulp_le_one h hlt
  have hsize : (2 : ℚ) ^ 54 ≤ 2 ^ 1024 := pow_le_pow_right₀ one_le_two (by omega)
  rw [abs_of_nonneg (nearest_nonneg h)]
  calc nearest q ≤ q + 1 / 2 := by linarith only [hup, hulp]
    _ < 2 ^ 54 := by linarith only [hlt]
    _ ≤ 2 ^ 1024 := hsize

/-- A power of two is a whole number, or divides every whole number. -/
theorem whole_zpow (e : ℤ) : (∃ m : ℤ, (2 : ℚ) ^ e = m) ∨ ∃ m : ℤ, (2 : ℚ) ^ (-e) = m := by
  rcases le_total 0 e with he | he
  · obtain ⟨n, rfl⟩ := Int.eq_ofNat_of_zero_le he
    exact .inl ⟨2 ^ n, by push_cast; exact zpow_natCast 2 n⟩
  · obtain ⟨n, hn⟩ := Int.eq_ofNat_of_zero_le (neg_nonneg.2 he)
    exact .inr ⟨2 ^ n, by rw [hn]; push_cast; exact zpow_natCast 2 n⟩

/-- A rounded number is whole, or no whole number lies between it and the number. -/
theorem nearest_whole_or_above (q : ℚ) : (∃ m : ℤ, nearest q = m) ∨ ∀ n : ℤ, (n : ℚ) ≤ q → (n : ℚ) ≤ nearest q := by
  rcases whole_zpow (ulpExponent q) with ⟨m, hm⟩ | ⟨m, hm⟩
  · refine .inl ⟨roundHalfEven (q / ulp q) * m, ?_⟩
    rw [nearest, ulp, hm]
    push_cast
    rfl
  · right
    intro n hn
    have hinv : (ulp q)⁻¹ = m := by rw [ulp, ← zpow_neg, hm]
    have hscaled : ((n * m : ℤ) : ℚ) ≤ q / ulp q := by
      push_cast
      rw [div_eq_mul_inv, hinv, ← hinv]
      exact mul_le_mul_of_nonneg_right hn (inv_pos.2 (ulp_pos q)).le
    have hround : ((n * m : ℤ) : ℚ) ≤ roundHalfEven (q / ulp q) := Int.cast_le.2 (le_roundHalfEven hscaled)
    calc (n : ℚ) = (n * m : ℤ) * ulp q := by
          push_cast
          rw [← hinv, mul_assoc, inv_mul_cancel₀ (ulp_pos q).ne', mul_one]
      _ ≤ nearest q := mul_le_mul_of_nonneg_right hround (ulp_pos q).le

theorem ulp_le {q : ℚ} (h : 1 ≤ q) : ulp q ≤ q / 2 ^ 52 := by
  have hpos : 0 < q := one_pos.trans_le h
  have hlog : 0 ≤ Int.log 2 q := by
    rw [Int.log_of_one_le_right 2 h]
    exact Int.natCast_nonneg _
  have hexponent : ulpExponent q = Int.log 2 q - 52 := by
    rw [ulpExponent, abs_of_pos hpos]
    omega
  have hpower : (2 : ℚ) ^ Int.log 2 q ≤ q := by simpa using Int.zpow_log_le_self (b := 2) one_lt_two hpos
  have hsplit : (2 : ℚ) ^ (Int.log 2 q - 52) = 2 ^ Int.log 2 q / 2 ^ 52 := by
    rw [zpow_sub₀ two_ne_zero]
    norm_num
  rw [ulp, hexponent, hsplit]
  exact div_le_div_of_nonneg_right hpower (by positivity)

theorem nearest_pos {q : ℚ} (h : 1 ≤ q) : 0 < nearest q := by
  have hdown := sub_nearest_le q
  have hulp := ulp_le h
  linarith

/-- The number is rounded down onto a positive whole number. -/
def RoundsOntoBelow (q : ℚ) : Prop := ∃ k : ℤ, 0 < k ∧ nearest q = k ∧ (k : ℚ) < q

theorem ceil_nearest_lt_iff {q : ℚ} : max 1 ⌈nearest q⌉ < ⌈q⌉ ↔ RoundsOntoBelow q := by
  constructor
  · intro h
    obtain ⟨hone, hceil⟩ := max_lt_iff.1 h
    have hq : 1 < q := by simpa using Int.lt_ceil.1 hone
    have hbelow : ((⌈nearest q⌉ : ℤ) : ℚ) < q := Int.lt_ceil.1 hceil
    refine ⟨⌈nearest q⌉, Int.ceil_pos.2 (nearest_pos hq.le), ?_, hbelow⟩
    rcases nearest_whole_or_above q with ⟨m, hm⟩ | habove
    · rw [hm, Int.ceil_intCast]
    · exact le_antisymm (Int.le_ceil _) (habove _ hbelow.le)
  · rintro ⟨k, hk, hnearest, hlt⟩
    have hceil : k < ⌈q⌉ := Int.lt_ceil.2 hlt
    rw [hnearest, Int.ceil_intCast, max_lt_iff]
    omega

/-- The quotient of a numerator below 2⁵³ keeps its distance to the whole numbers below it. -/
theorem not_roundsOntoBelow {n d : ℕ} (hd : 0 < d) (hn : n < 2 ^ 53) : ¬ RoundsOntoBelow (n / d) := by
  rintro ⟨k, hk, hnearest, hlt⟩
  have hdpos : (0 : ℚ) < d := Nat.cast_pos.2 hd
  have hgap : (k : ℚ) * d + 1 ≤ n := by
    have hlt' : k * d < (n : ℤ) := by exact_mod_cast (lt_div_iff₀ hdpos).1 hlt
    exact_mod_cast Int.add_one_le_iff.2 hlt'
  have hq : (1 : ℚ) ≤ n / d := (show (1 : ℚ) ≤ k by exact_mod_cast hk).trans hlt.le
  have hdown := sub_nearest_le ((n : ℚ) / d)
  have hulp := ulp_le hq
  have hnear : (n : ℚ) / d - k ≤ n / d / 2 ^ 53 := by
    rw [hnearest] at hdown
    linarith
  have hscaled : ((n : ℚ) / d - k) * d ≤ n / d / 2 ^ 53 * d := mul_le_mul_of_nonneg_right hnear hdpos.le
  have hleft : ((n : ℚ) / d - k) * d = n - k * d := by rw [sub_mul, div_mul_cancel₀ _ hdpos.ne']
  have hright : (n : ℚ) / d / 2 ^ 53 * d = n / 2 ^ 53 := by
    rw [div_right_comm, div_mul_cancel₀ _ hdpos.ne']
  have hsmall : (n : ℚ) / 2 ^ 53 < 1 := by
    rw [div_lt_one (by positivity)]
    exact_mod_cast hn
  linarith

end Binary64
