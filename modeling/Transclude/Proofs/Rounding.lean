/-
Rounding of quotients and of decimals.

The nearest number depends on the value of a quotient alone, and not on how the quotient is written.

* `ofRatio_congr` — equal quotients have the same nearest number;
* `ofRatio_of_value` — the nearest number of a value that a finite number has is that number;
* `Decimal.toBinary64_eq_ofRatio` — cutting off very large and very small decimals changes nothing;
* `Decimal.toBinary64_congr` — equal decimals have the same nearest number;
* `exists_ofInt_eq_finite` — the integers of 64 bits have finite nearest numbers.

Design notes: values without their sign are rational numbers.  Decimals of one value differ in the
zeros at the end of their digits, so that every reading and writing of digits needs only the value.
-/
import Mathlib.Algebra.Order.Field.Power
import Mathlib.Data.Nat.Cast.Order.Field
import Mathlib.Tactic.FieldSimp
import Mathlib.Tactic.NormNum
import Mathlib.Tactic.Ring
import Transclude.Number.Decimal

namespace Transclude

namespace Binary64

/-! ### Quotients -/

theorem divRoundEven_mul_right (num den : Nat) {k : Nat} (hk : 0 < k) :
    divRoundEven (num * k) (den * k) = divRoundEven num den := by
  have hlt : ∀ a b : Nat, 2 * (a * k) < b * k ↔ 2 * a < b := by
    intro a b
    rw [← Nat.mul_assoc, Nat.mul_lt_mul_right hk]
  have hgt : ∀ a b : Nat, b * k < 2 * (a * k) ↔ b < 2 * a := by
    intro a b
    rw [← Nat.mul_assoc, Nat.mul_lt_mul_right hk]
  simp only [divRoundEven, Nat.mul_div_mul_right _ _ hk, Nat.mul_mod_mul_right, hlt, hgt]

theorem divRoundEven_mul_self (m : Nat) {den : Nat} (hd : 0 < den) :
    divRoundEven (m * den) den = m := by
  simp [divRoundEven, Nat.mul_div_cancel _ hd, hd]

theorem div_le_divRoundEven (num den : Nat) : num / den ≤ divRoundEven num den := by
  grind [divRoundEven]

theorem divRoundEven_le (num den : Nat) : divRoundEven num den ≤ num / den + 1 := by
  have hparity : num / den % 2 < 2 := Nat.mod_lt _ (by decide)
  grind [divRoundEven]

/-- The number nearest to `num / den` units of 2^-1074. -/
def ofUnits (negative : Bool) (num den : Nat) : Binary64 :=
  let exponent := (num / den).log2 - 52
  let significand := divRoundEven num (den * 2 ^ exponent)
  if significand = 9007199254740992 then ofParts negative 4503599627370496 (exponent + 1)
  else ofParts negative significand exponent

/-- The units of 2^-1074 in one. -/
def scale : Nat := Nat.pow 2 1074

theorem scale_pos : 0 < scale := by decide +kernel

theorem scale_eq_pow {n : Nat} (h : n = 1074) : scale = 2 ^ n := by
  subst h
  decide +kernel

theorem ofRatio_eq_ofUnits (negative : Bool) (num den : Nat) :
    ofRatio negative num den = ofUnits negative (num * scale) den := by
  unfold ofRatio ofUnits scale
  rfl

variable {num den num' den' : Nat} (negative : Bool)

theorem ofUnits_mul_right (num den : Nat) {k : Nat} (hk : 0 < k) :
    ofUnits negative (num * k) (den * k) = ofUnits negative num den := by
  have hscale : ∀ n, den * k * n = den * n * k := fun n => Nat.mul_right_comm den k n
  simp only [ofUnits, hscale, Nat.mul_div_mul_right _ _ hk, divRoundEven_mul_right _ _ hk]

theorem ofRatio_congr (hd : 0 < den) (hd' : 0 < den') (h : (num : ℚ) / den = num' / den') :
    ofRatio negative num den = ofRatio negative num' den' := by
  have hcross : num * den' = num' * den := by
    have hq : (den : ℚ) ≠ 0 := Nat.cast_ne_zero.mpr hd.ne'
    have hq' : (den' : ℚ) ≠ 0 := Nat.cast_ne_zero.mpr hd'.ne'
    exact_mod_cast (div_eq_div_iff hq hq').mp h
  rw [ofRatio_eq_ofUnits, ofRatio_eq_ofUnits, ← ofUnits_mul_right negative _ den hd',
    ← ofUnits_mul_right negative _ den' hd, Nat.mul_right_comm, hcross, Nat.mul_right_comm,
    Nat.mul_comm den den']

/-! ### Exact quotients -/

/-- The value without its sign. -/
def Finite.value (x : Finite) : ℚ := x.magnitude / scale

/-- The bits of a canonical number give its exponent. -/
theorem Finite.log2_magnitude (x : Finite) : x.magnitude.log2 - 52 = x.exponent := by
  obtain ⟨negative, m, e, hm, -, he⟩ := x
  simp only [magnitude, Nat.pow_eq]
  by_cases hz : m = 0
  · have hlog : (0 : Nat).log2 = 0 := rfl
    subst hz
    rw [Nat.zero_mul, hlog]
    omega
  rcases he with rfl | hm'
  · -- subnormal: all bits are below bit 53
    have hlt : m.log2 < 53 := (Nat.log2_lt hz).mpr hm
    rw [Nat.pow_zero, Nat.mul_one]
    omega
  · -- normal: bit 52 of the significand is the leading one
    have hpos := Nat.two_pow_pos e
    have hlog : (m * 2 ^ e).log2 = 52 + e := by
      rw [Nat.log2_eq_iff (Nat.mul_ne_zero hz hpos.ne'), Nat.pow_add, Nat.add_right_comm,
        Nat.pow_add]
      exact ⟨Nat.mul_le_mul_right _ hm', Nat.mul_lt_mul_of_pos_right hm hpos⟩
    omega

theorem ofParts_finite (x : Finite) :
    ofParts x.negative x.significand x.exponent = .finite x := dif_pos x.canonical

theorem ofRatio_of_value {x : Finite} (hd : 0 < den) (h : (num : ℚ) / den = x.value) :
    ofRatio x.negative num den = .finite x := by
  have hcross : num * scale = x.magnitude * den := by
    have hq : (den : ℚ) ≠ 0 := Nat.cast_ne_zero.mpr hd.ne'
    have hs : (scale : ℚ) ≠ 0 := Nat.cast_ne_zero.mpr scale_pos.ne'
    exact_mod_cast (div_eq_div_iff hq hs).mp h
  have hround : divRoundEven (x.magnitude * den) (den * 2 ^ x.exponent) = x.significand := by
    rw [Finite.magnitude, Nat.pow_eq, Nat.mul_assoc, Nat.mul_comm (2 ^ x.exponent)]
    exact divRoundEven_mul_self _ (Nat.mul_pos hd (Nat.two_pow_pos _))
  have hne : x.significand ≠ 9007199254740992 := x.canonical.1.ne
  simp only [ofRatio_eq_ofUnits, ofUnits, hcross, Nat.mul_div_cancel _ hd, x.log2_magnitude,
    hround, if_neg hne, ofParts_finite]

/-! ### The range of finite numbers -/

/-- The significand that a quotient is rounded to is canonical, or one more than the largest one. -/
theorem divRoundEven_canonical (num den : Nat) :
    let exponent := (num / den).log2 - 52
    divRoundEven num (den * 2 ^ exponent) ≤ 9007199254740992 ∧
      (exponent = 0 ∨ 4503599627370496 ≤ divRoundEven num (den * 2 ^ exponent)) := by
  intro exponent
  have hdiv : num / (den * 2 ^ exponent) = num / den / 2 ^ exponent :=
    (Nat.div_div_eq_div_mul _ _ _).symm
  have hlow := div_le_divRoundEven num (den * 2 ^ exponent)
  have hhigh := divRoundEven_le num (den * 2 ^ exponent)
  rw [hdiv] at hlow hhigh
  -- `log2` says nothing about a quotient below one unit
  by_cases hz : num / den = 0
  · rw [hz, Nat.zero_div] at hhigh
    refine ⟨by omega, .inl ?_⟩
    simp only [exponent, hz]
    rfl
  obtain ⟨hmin, hmax⟩ := (Nat.log2_eq_iff hz).mp rfl
  constructor
  · have hlt : num / den / 2 ^ exponent < 2 ^ 53 := by
      rw [Nat.div_lt_iff_lt_mul (Nat.two_pow_pos _), ← Nat.pow_add]
      exact hmax.trans_le (Nat.pow_le_pow_right (by decide) (by omega))
    omega
  · rcases Nat.eq_zero_or_pos exponent with he | he
    · exact .inl he
    · have hle : 2 ^ 52 ≤ num / den / 2 ^ exponent := by
        rw [Nat.le_div_iff_mul_le (Nat.two_pow_pos _), ← Nat.pow_add,
          show 52 + exponent = (num / den).log2 by omega]
        exact hmin
      exact .inr (le_trans hle hlow)

theorem exists_ofUnits_eq_finite (h : num / den < 2 ^ 2097) :
    ∃ x, ofUnits negative num den = .finite x := by
  obtain ⟨hmax, hmin⟩ := divRoundEven_canonical num den
  have hexp : (num / den).log2 - 52 ≤ 2044 := by
    by_cases hz : num / den = 0
    · rw [hz]
      decide
    · have := (Nat.log2_lt hz).mpr h
      omega
  simp only [ofUnits]
  split
  · exact ⟨_, dif_pos ⟨by decide, by omega, .inr (by decide)⟩⟩
  · exact ⟨_, dif_pos ⟨by omega, by omega, hmin⟩⟩

theorem ofUnits_eq_infinite (h : 2 ^ 2098 ≤ num / den) :
    ofUnits negative num den = .infinite negative := by
  have hexp : 2046 ≤ (num / den).log2 - 52 := by
    have hz : num / den ≠ 0 := (lt_of_lt_of_le (Nat.two_pow_pos _) h).ne'
    have := (Nat.le_log2 hz).mpr h
    omega
  simp only [ofUnits]
  split <;> exact dif_neg fun hc => by have := hc.2.1; omega

theorem ofUnits_eq_zero (h : 2 * num < den) :
    ofUnits negative num den = .finite (.zero negative) := by
  have hdiv : num / den = 0 := Nat.div_eq_of_lt (by omega)
  have hlog : (0 : Nat).log2 - 52 = 0 := rfl
  have hround : divRoundEven num den = 0 := by
    rw [divRoundEven, Nat.mod_eq_of_lt (by omega), if_pos h, hdiv]
  simp only [ofUnits, hdiv, hlog, Nat.pow_zero, Nat.mul_one, hround]
  rfl

/-- The integers of 64 bits are in the range of finite numbers. -/
theorem exists_ofInt_eq_finite {i : Int} (h : -9223372036854775808 ≤ i ∧ i < 18446744073709551616) :
    ∃ x, ofInt i = .finite x := by
  have hunits : i.natAbs * scale / 1 < 2 ^ 2097 := by
    have habs : i.natAbs < 2 ^ 64 := by omega
    have hscale : 2 ^ 64 * scale < 2 ^ 2097 := by decide +kernel
    rw [Nat.div_one]
    exact (Nat.mul_lt_mul_of_pos_right habs scale_pos).trans hscale
  rw [ofInt, ofRatio_eq_ofUnits]
  exact exists_ofUnits_eq_finite _ hunits

end Binary64

/-! ### Decimals -/

namespace Decimal

open Binary64

/-- The value of a decimal. -/
def value (d : Decimal) : ℚ := d.digits * 10 ^ d.exponent

theorem value_eq_div (d : Decimal) :
    d.value = ((d.digits * 10 ^ d.exponent.toNat : Nat) : ℚ) / (10 ^ (-d.exponent).toNat : Nat) := by
  have hten : (10 : ℚ) ≠ 0 := by norm_num
  have hexp : d.exponent = (d.exponent.toNat : Int) - ((-d.exponent).toNat : Int) := by omega
  rw [value, mul_comm, hexp, zpow_sub₀ hten]
  simp only [zpow_natCast]
  push_cast
  rw [← hexp, mul_comm, mul_div_assoc]

/-- Comparing a decimal with a number is comparing natural numbers. -/
theorem value_le_iff {d : Decimal} {x : Finite} :
    d.value ≤ x.value ↔
      d.digits * 10 ^ d.exponent.toNat * scale ≤ x.magnitude * 10 ^ (-d.exponent).toNat := by
  have hd : (0 : ℚ) < (10 ^ (-d.exponent).toNat : Nat) :=
    Nat.cast_pos.mpr (Nat.pow_pos (by decide))
  have hs : (0 : ℚ) < scale := Nat.cast_pos.mpr scale_pos
  rw [value_eq_div, Finite.value, div_le_div_iff₀ hd hs, ← Nat.cast_mul, ← Nat.cast_mul,
    Nat.cast_le]

/-- Three bits are less than one digit. -/
theorem two_pow_le (n : Nat) : 2 ^ (n + 1) ≤ 10 ^ (n / 3 + 1) :=
  calc 2 ^ (n + 1) ≤ 2 ^ (3 * (n / 3 + 1)) := Nat.pow_le_pow_right (by decide) (by omega)
    _ = 8 ^ (n / 3 + 1) := Nat.pow_mul 2 3 _
    _ ≤ 10 ^ (n / 3 + 1) := Nat.pow_le_pow_left (by decide) _

/-- Ten bits are more than three digits. -/
theorem ten_pow_le (n : Nat) : 10 ^ (n * 3 / 10) ≤ 2 ^ n := by
  refine (Nat.pow_le_pow_iff_left (show 10 ≠ 0 by decide)).mp ?_
  calc (10 ^ (n * 3 / 10)) ^ 10 = 10 ^ (n * 3 / 10 * 10) := (Nat.pow_mul ..).symm
    _ ≤ 10 ^ (3 * n) := Nat.pow_le_pow_right (by decide) (by omega)
    _ = 1000 ^ n := Nat.pow_mul 10 3 n
    _ ≤ 1024 ^ n := Nat.pow_le_pow_left (by decide) n
    _ = (2 ^ n) ^ 10 := by rw [← Nat.pow_mul, Nat.mul_comm, Nat.pow_mul]

/-- Cutting off very large and very small decimals changes nothing. -/
theorem toBinary64_eq_ofRatio (negative : Bool) (d : Decimal) :
    d.toBinary64 negative =
      ofRatio negative (d.digits * 10 ^ d.exponent.toNat) (10 ^ (-d.exponent).toNat) := by
  obtain ⟨m, e⟩ := d
  rw [toBinary64]
  simp only
  split_ifs with hz hlow hhigh hexp
  · -- no digits
    rw [ofRatio_eq_ofUnits, ofUnits_eq_zero]
    rw [hz, Nat.zero_mul, Nat.zero_mul]
    exact Nat.pow_pos (by decide)
  · -- at least `10 ^ 311`
    rw [ofRatio_eq_ofUnits, ofUnits_eq_infinite]
    have hm : 10 ^ (m.log2 * 3 / 10) ≤ m := (ten_pow_le _).trans (Nat.log2_self_le hz)
    rw [Nat.le_div_iff_mul_le (Nat.pow_pos (by decide))]
    calc 2 ^ 2098 * 10 ^ (-e).toNat ≤ 10 ^ 311 * scale * 10 ^ (-e).toNat :=
          Nat.mul_le_mul_right _ (by decide +kernel)
      _ = 10 ^ (311 + (-e).toNat) * scale := by rw [Nat.pow_add, Nat.mul_right_comm]
      _ ≤ 10 ^ (m.log2 * 3 / 10 + e.toNat) * scale :=
          Nat.mul_le_mul_right _ (Nat.pow_le_pow_right (by decide) (by omega))
      _ ≤ m * 10 ^ e.toNat * scale := by
          rw [Nat.pow_add]
          exact Nat.mul_le_mul_right _ (Nat.mul_le_mul_right _ hm)
  · -- less than `10 ^ -331`
    rw [ofRatio_eq_ofUnits, ofUnits_eq_zero]
    have hm : m < 10 ^ (m.log2 / 3 + 1) := Nat.lt_log2_self.trans_le (two_pow_le _)
    calc 2 * (m * 10 ^ e.toNat * scale) = 2 * scale * (m * 10 ^ e.toNat) := by
          rw [Nat.mul_comm _ scale, ← Nat.mul_assoc]
      _ < 10 ^ 331 * (10 ^ (m.log2 / 3 + 1) * 10 ^ e.toNat) := by
          refine Nat.mul_lt_mul_of_lt_of_lt (by decide +kernel) ?_
          exact Nat.mul_lt_mul_of_pos_right hm (Nat.pow_pos (by decide))
      _ = 10 ^ (331 + (m.log2 / 3 + 1 + e.toNat)) := by rw [← Nat.pow_add, ← Nat.pow_add]
      _ ≤ 10 ^ (-e).toNat := Nat.pow_le_pow_right (by decide) (by omega)
  · have hneg : (-e).toNat = 0 := by omega
    rw [hneg]
    rfl
  · have hpos : e.toNat = 0 := by omega
    rw [hpos, Nat.pow_zero, Nat.mul_one]
    rfl

theorem toBinary64_congr {negative : Bool} {d d' : Decimal} (h : d.value = d'.value) :
    d.toBinary64 negative = d'.toBinary64 negative := by
  rw [toBinary64_eq_ofRatio, toBinary64_eq_ofRatio]
  refine ofRatio_congr negative (Nat.pow_pos (by decide)) (Nat.pow_pos (by decide)) ?_
  rw [← value_eq_div, ← value_eq_div, h]

theorem toBinary64_of_value {d : Decimal} {x : Finite} (h : d.value = x.value) :
    d.toBinary64 x.negative = .finite x := by
  rw [toBinary64_eq_ofRatio]
  refine ofRatio_of_value (Nat.pow_pos (by decide)) ?_
  rw [← value_eq_div, h]

end Decimal

end Transclude
