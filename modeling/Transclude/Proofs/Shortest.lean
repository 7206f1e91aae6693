/-
The shortest decimal of a number.

The search for the fewest digits goes over the decimal grids around the exact expansion.

* `value_expansion` — the expansion has exactly the value of the number;
* `OnGrid` — what the search finds on a grid: a neighbour of the value that reads back;
* `toBinary64_shortest` — the shortest decimal reads back as the number;
* `zpow_le_shortest`, `shortest_le_zpow` — no power of ten lies between the two.

Design notes: a power of ten with no more digits than the number is a point of every grid that the
search looks at.  Which power of ten a decimal reaches is its number of digits and its exponent, so
that the form in which the number is written depends on its value alone, but for the two places where
a number rounds to a power of ten.
-/
import Transclude.Proofs.Rounding

namespace Transclude

namespace Decimal

open Binary64

/-! ### The value of a decimal -/

theorem ten_ne_zero : (10 : ℚ) ≠ 0 := by norm_num

/-- Zeros at the end of the digits are powers of ten. -/
theorem value_mul_pow (m k : Nat) (e : Int) : value ⟨m * 10 ^ k, e⟩ = value ⟨m, e + k⟩ := by
  simp only [value]
  rw [zpow_add₀ ten_ne_zero, zpow_natCast]
  push_cast
  ring

theorem value_strip (fuel : Nat) (d : Decimal) : (strip fuel d).value = d.value := by
  induction fuel generalizing d with
  | zero => rfl
  | succ fuel ih =>
    rw [strip]
    split
    · rename_i h
      have hdigits : d.digits / 10 * 10 ^ 1 = d.digits := by omega
      rw [ih, ← Nat.cast_one, ← value_mul_pow, hdigits]
    · rfl

theorem digitCount_pos (n : Nat) : 0 < digitCount n := Nat.length_toDigits_pos

theorem lt_ten_pow_digitCount (n : Nat) : n < 10 ^ digitCount n :=
  (Nat.length_toDigits_le_iff (by decide) (digitCount_pos n)).mp le_rfl

theorem ten_pow_le_of_digitCount {n : Nat} (hn : n ≠ 0) : 10 ^ (digitCount n - 1) ≤ n := by
  by_cases hc : digitCount n = 1
  · rw [hc]
    exact Nat.pos_of_ne_zero hn
  · have hpos := digitCount_pos n
    by_contra hlt
    have hle := (Nat.length_toDigits_le_iff (show 1 < 10 by decide) (by omega)).mpr
      (Nat.lt_of_not_le hlt)
    rw [← digitCount] at hle
    omega

/-- The power of ten of the first digit. -/
def power (d : Decimal) : Int := d.exponent + ((digitCount d.digits : Int) - 1)

theorem value_one (k : Int) : value ⟨1, k⟩ = 10 ^ k := by rw [value, Nat.cast_one, one_mul]

theorem zpow_le_value {d : Decimal} {n : Nat} (h : 10 ^ n ≤ d.digits) :
    (10 : ℚ) ^ ((n : Int) + d.exponent) ≤ d.value := by
  have hdigits : (10 : ℚ) ^ n ≤ d.digits := by exact_mod_cast h
  rw [zpow_add₀ ten_ne_zero, zpow_natCast, value]
  exact mul_le_mul_of_nonneg_right hdigits (by positivity)

theorem value_le_zpow {d : Decimal} {n : Nat} (h : d.digits ≤ 10 ^ n) :
    d.value ≤ (10 : ℚ) ^ ((n : Int) + d.exponent) := by
  have hdigits : (d.digits : ℚ) ≤ 10 ^ n := by exact_mod_cast h
  rw [zpow_add₀ ten_ne_zero, zpow_natCast, value]
  exact mul_le_mul_of_nonneg_right hdigits (by positivity)

theorem value_lt_zpow {d : Decimal} {n : Nat} (h : d.digits < 10 ^ n) :
    d.value < (10 : ℚ) ^ ((n : Int) + d.exponent) := by
  have hdigits : (d.digits : ℚ) < 10 ^ n := by exact_mod_cast h
  rw [zpow_add₀ ten_ne_zero, zpow_natCast, value]
  exact mul_lt_mul_of_pos_right hdigits (by positivity)

theorem zpow_le_zpow {k l : Int} : (10 : ℚ) ^ k ≤ 10 ^ l ↔ k ≤ l :=
  zpow_le_zpow_iff_right₀ (by norm_num)

/-- A decimal reaches the power of ten of its first digit and none above. -/
theorem zpow_le_value_iff {d : Decimal} (hd : d.digits ≠ 0) {k : Int} :
    (10 : ℚ) ^ k ≤ d.value ↔ k ≤ d.power := by
  have hpos := digitCount_pos d.digits
  constructor
  · intro hle
    have hlt := hle.trans_lt (value_lt_zpow (lt_ten_pow_digitCount d.digits))
    rw [← not_le, zpow_le_zpow] at hlt
    rw [power]
    omega
  · intro hk
    refine (zpow_le_zpow.mpr ?_).trans (zpow_le_value (ten_pow_le_of_digitCount hd))
    rw [power] at hk
    omega

/-! ### The exact expansion -/

theorem value_expansion (x : Finite) : x.expansion.value = x.value := by
  have hs : (scale : ℚ) ≠ 0 := Nat.cast_ne_zero.mpr scale_pos.ne'
  rw [Finite.expansion, Finite.value, Finite.magnitude, eq_div_iff hs]
  split
  · rename_i he
    have hpow : x.exponent - 1074 + 1074 = x.exponent := by omega
    generalize x.exponent - 1074 = k at hpow ⊢
    generalize hn : 1074 = n at hpow
    have hscale : 2 ^ x.exponent = 2 ^ k * scale := by
      rw [scale_eq_pow hn.symm, ← hpow, Nat.pow_add]
    simp only [value, zpow_zero, mul_one, Nat.pow_eq, hscale]
    push_cast
    ring
  · rename_i he
    have hpow : 1074 - x.exponent + x.exponent = 1074 := by omega
    generalize 1074 - x.exponent = k at hpow ⊢
    have hscale : scale = 2 ^ k * 2 ^ x.exponent := by
      rw [scale_eq_pow hpow, Nat.pow_add]
    have hten : (10 : ℚ) ^ k = 5 ^ k * 2 ^ k := by
      rw [← mul_pow]
      norm_num
    simp only [value, zpow_neg, zpow_natCast, Nat.pow_eq, hscale]
    push_cast
    rw [hten]
    field_simp

theorem toBinary64_expansion (x : Finite) : x.expansion.toBinary64 x.negative = .finite x :=
  toBinary64_of_value (value_expansion x)

/-! ### The search -/

/-- A neighbour of a number on the grid of its expansion without its last `dropped` digits, if it
reads back as the number. -/
structure OnGrid (x : Finite) (dropped : Nat) (d : Decimal) : Prop where
  readsBack : d.toBinary64 x.negative = .finite x
  exponent : d.exponent = x.expansion.exponent + dropped
  digits : d.digits = x.expansion.digits / 10 ^ dropped ∨
    d.digits = x.expansion.digits / 10 ^ dropped + 1

theorem onGrid_of_onGrid? {tie : Tie} {x : Finite} {dropped : Nat} {d : Decimal}
    (h : onGrid? tie x dropped = some d) : OnGrid x dropped d := by
  simp only [onGrid?, Nat.pow_eq] at h
  split_ifs at h with h₁ h₂ h₃ h₄ h₅
  · cases h
    exact ⟨of_decide_eq_true h₂, rfl, .inl rfl⟩
  · cases h
    exact ⟨of_decide_eq_true (Bool.and_eq_true_iff.mp h₃).2, rfl, .inr rfl⟩
  · cases h
    exact ⟨of_decide_eq_true h₄, rfl, .inl rfl⟩
  · cases h
    exact ⟨of_decide_eq_true h₅, rfl, .inr rfl⟩

/-- The search ends on a grid, at the latest on that of the expansion. -/
theorem exists_onGrid_shortestFrom (tie : Tie) (x : Finite) (most : Nat) :
    ∃ dropped ≤ most, OnGrid x dropped (shortestFrom tie x most) := by
  induction most with
  | zero =>
    exact ⟨0, le_rfl, toBinary64_expansion x, by simp [shortestFrom],
      .inl (by simp [shortestFrom])⟩
  | succ most ih =>
    rw [shortestFrom]
    cases hgrid : onGrid? tie x (most + 1) with
    | some d => exact ⟨most + 1, le_rfl, onGrid_of_onGrid? hgrid⟩
    | none =>
      obtain ⟨dropped, hle, hd⟩ := ih
      exact ⟨dropped, by omega, hd⟩

/-- **The shortest decimal reads back.** -/
theorem toBinary64_shortest (tie : Tie) (x : Finite) :
    (shortest tie x).toBinary64 x.negative = .finite x := by
  obtain ⟨dropped, -, hgrid⟩ :=
    exists_onGrid_shortestFrom tie x (digitCount x.expansion.digits - 1)
  rw [shortest, toBinary64_congr (value_strip _ _), hgrid.readsBack]

/-! ### Powers of ten -/

variable {x : Finite} {d : Decimal} {k : Int}

theorem digits_expansion_ne_zero (hx : x.significand ≠ 0) : x.expansion.digits ≠ 0 := by
  rw [Finite.expansion]
  split
  · exact Nat.mul_ne_zero hx (Nat.two_pow_pos _).ne'
  · exact Nat.mul_ne_zero hx (Nat.pow_pos (by decide)).ne'

/-- What is found on a grid is not below a power of ten that the number reaches. -/
theorem OnGrid.zpow_le {dropped : Nat} (h : OnGrid x dropped d) (hx : x.significand ≠ 0)
    (hdropped : dropped ≤ digitCount x.expansion.digits - 1) (hk : (10 : ℚ) ^ k ≤ x.value) :
    (10 : ℚ) ^ k ≤ d.value := by
  have hne := digits_expansion_ne_zero hx
  rw [← value_expansion, zpow_le_value_iff hne, power] at hk
  -- a grid drops digits but the first one, so the power of ten of that one is on it
  have hlower : 10 ^ (digitCount x.expansion.digits - 1 - dropped) ≤
      x.expansion.digits / 10 ^ dropped := by
    rw [Nat.le_div_iff_mul_le (Nat.pow_pos (by decide)), ← Nat.pow_add,
      Nat.sub_add_cancel hdropped]
    exact ten_pow_le_of_digitCount hne
  have hdigits := hlower.trans (show _ ≤ d.digits by have := h.digits; omega)
  refine (zpow_le_zpow.mpr ?_).trans (zpow_le_value hdigits)
  have hpos := digitCount_pos x.expansion.digits
  rw [h.exponent]
  omega

/-- What is found on a grid is not above a power of ten that the number does not reach. -/
theorem OnGrid.le_zpow {dropped : Nat} (h : OnGrid x dropped d) (hx : x.significand ≠ 0)
    (hdropped : dropped ≤ digitCount x.expansion.digits - 1) (hk : x.value < (10 : ℚ) ^ k) :
    d.value ≤ (10 : ℚ) ^ k := by
  have hpos := digitCount_pos x.expansion.digits
  rw [← not_le, ← value_expansion, zpow_le_value_iff (digits_expansion_ne_zero hx), power] at hk
  have hlower : x.expansion.digits / 10 ^ dropped <
      10 ^ (digitCount x.expansion.digits - dropped) := by
    rw [Nat.div_lt_iff_lt_mul (Nat.pow_pos (by decide)), ← Nat.pow_add,
      Nat.sub_add_cancel (by omega)]
    exact lt_ten_pow_digitCount _
  have hdigits : d.digits ≤ 10 ^ (digitCount x.expansion.digits - dropped) := by
    have := h.digits
    omega
  refine (value_le_zpow hdigits).trans (zpow_le_zpow.mpr ?_)
  rw [h.exponent]
  omega

variable (tie : Tie)

theorem zpow_le_shortest (hx : x.significand ≠ 0) (hk : (10 : ℚ) ^ k ≤ x.value) :
    (10 : ℚ) ^ k ≤ (shortest tie x).value := by
  obtain ⟨dropped, hle, hgrid⟩ :=
    exists_onGrid_shortestFrom tie x (digitCount x.expansion.digits - 1)
  rw [shortest, value_strip]
  exact hgrid.zpow_le hx hle hk

theorem shortest_le_zpow (hx : x.significand ≠ 0) (hk : x.value < (10 : ℚ) ^ k) :
    (shortest tie x).value ≤ (10 : ℚ) ^ k := by
  obtain ⟨dropped, hle, hgrid⟩ :=
    exists_onGrid_shortestFrom tie x (digitCount x.expansion.digits - 1)
  rw [shortest, value_strip]
  exact hgrid.le_zpow hx hle hk

/-- A number below a power of ten stays below it, unless the power of ten is rounded down. -/
theorem shortest_lt_zpow {y : Finite} (hy : toBinary64 x.negative ⟨1, k⟩ = .finite y)
    (hle : value ⟨1, k⟩ ≤ y.value) (hx : x.significand ≠ 0) (hk : x.value < (10 : ℚ) ^ k) :
    (shortest tie x).value < (10 : ℚ) ^ k := by
  refine lt_of_le_of_ne (shortest_le_zpow tie hx hk) fun heq => ?_
  -- the shortest decimal reads back as `x`, and the power of ten as `y`, which is not below it
  have hsame := toBinary64_shortest tie x
  rw [toBinary64_congr (heq.trans (value_one k).symm), hy] at hsame
  cases hsame
  rw [value_one] at hle
  exact absurd hk (not_lt.mpr hle)

theorem digits_shortest_ne_zero (hx : x.significand ≠ 0) : (shortest tie x).digits ≠ 0 := by
  intro hz
  have hpos : (10 : ℚ) ^ x.expansion.power ≤ (shortest tie x).value := by
    refine zpow_le_shortest tie hx ?_
    rw [← value_expansion, zpow_le_value_iff (digits_expansion_ne_zero hx)]
  rw [value, hz, Nat.cast_zero, zero_mul] at hpos
  exact absurd hpos (not_le.mpr (by positivity))

/-- The shortest decimal reaches a power of ten if the number does, unless the power of ten is
rounded down. -/
theorem le_power_shortest_iff {y : Finite} (hy : toBinary64 x.negative ⟨1, k⟩ = .finite y)
    (hle : value ⟨1, k⟩ ≤ y.value) (hx : x.significand ≠ 0) :
    k ≤ (shortest tie x).power ↔ (10 : ℚ) ^ k ≤ x.value := by
  rw [← zpow_le_value_iff (digits_shortest_ne_zero tie hx)]
  refine ⟨fun h => ?_, zpow_le_shortest tie hx⟩
  by_contra hlt
  exact absurd h (not_le.mpr (shortest_lt_zpow tie hy hle hx (not_le.mp hlt)))

/-- The first digit of a number from `10 ^ -5` to `10 ^ 16` is at one of these powers. -/
theorem power_shortest_iff (hx : x.significand ≠ 0) :
    (-5 ≤ (shortest tie x).power ∧ (shortest tie x).power ≤ 15) ↔
      (10 : ℚ) ^ (-5 : Int) ≤ x.value ∧ x.value < (10 : ℚ) ^ (16 : Int) := by
  -- the two bounds: the first one is rounded up, and the second one is a number itself
  have hsmall : toBinary64 x.negative ⟨1, -5⟩ =
      .finite ⟨x.negative, 5902958103587057, 1005, by decide⟩ := by
    cases x.negative <;> decide +kernel
  have hlarge : toBinary64 x.negative ⟨1, 16⟩ =
      .finite ⟨x.negative, 5000000000000000, 1075, by decide⟩ := by
    cases x.negative <;> decide +kernel
  have hlow : -5 ≤ (shortest tie x).power ↔ (10 : ℚ) ^ (-5 : Int) ≤ x.value := by
    refine le_power_shortest_iff tie hsmall ?_ hx
    rw [value_le_iff]
    dsimp only [Finite.magnitude]
    decide +kernel
  have hhigh : 16 ≤ (shortest tie x).power ↔ (10 : ℚ) ^ (16 : Int) ≤ x.value := by
    refine le_power_shortest_iff tie hlarge ?_ hx
    rw [value_le_iff]
    dsimp only [Finite.magnitude]
    decide +kernel
  rw [hlow, ← not_le, ← hhigh]
  exact and_congr_right fun _ => by omega

end Decimal

end Transclude
