/-
Numbers of a test that are too large.

A test may write a number of any size, and its value is the binary64 number nearest to it.  From
2^1024 - 2^970 on this is infinity, which is no value, and the test has null in place of the number.

* `Binary64.lt_divRoundEven_iff` — where rounding goes over an odd number;
* `Decimal.exists_toBinary64_of_lt`, `Decimal.toBinary64_of_le` — the decimals with a finite nearest
  number are those below `Binary64.overflow`;
* `IsLexeme.exists_numeral` — what is one number token is a numeral;
* `ActsAsNumber`, `ActsAsNull` — what a text is in a test;
* `number_overflows` — a number is a number in a test exactly if it is below `overflow`.

Design notes: the largest finite number has an odd significand, so of the two equally near numbers in
the middle it is not the one that is taken, and `overflow` is infinite itself.
-/
import Transclude.Proofs.Lexeme
import Transclude.Proofs.Scalar

namespace Transclude

namespace Binary64

/-! ### Rounding to infinity -/

variable {num den m : Nat} (negative : Bool)

/-- Rounding goes over an odd number from the middle between it and the next one on. -/
theorem lt_divRoundEven_iff (hd : 0 < den) (hm : m % 2 = 1) :
    m < divRoundEven num den ↔ (2 * m + 1) * den ≤ 2 * num := by
  have hnum : den * (num / den) + num % den = num := Nat.div_add_mod num den
  have hrest : num % den < den := Nat.mod_lt num hd
  have hmiddle : (2 * m + 1) * den = 2 * (den * m) + den := by ring
  rw [hmiddle]
  rcases Nat.lt_trichotomy m (num / den) with hlt | heq | hgt
  · -- the quotient is beyond the number already
    have hbeyond : den * (m + 1) ≤ den * (num / den) := Nat.mul_le_mul_left den hlt
    have hround := div_le_divRoundEven num den
    rw [Nat.mul_add_one] at hbeyond
    exact iff_of_true (by omega) (by omega)
  · -- the remainder decides, also in the middle, since the number is odd
    have hround : m < divRoundEven num den ↔ den ≤ 2 * (num % den) := by
      simp only [divRoundEven, ← heq, hm]
      split_ifs <;> omega
    rw [← heq] at hnum
    omega
  · have hbelow : den * (num / den + 1) ≤ den * m := Nat.mul_le_mul_left den hgt
    have hround := divRoundEven_le num den
    rw [Nat.mul_add_one] at hbelow
    exact iff_of_false (by omega) (by omega)

/-- The same where multiples of a power of two are counted. -/
theorem lt_divRoundEven_two_pow_iff (hd : 0 < den) (hm : m % 2 = 1) (k : Nat) :
    m < divRoundEven num (den * 2 ^ (k + 1)) ↔ (2 * m + 1) * 2 ^ k * den ≤ num := by
  have hside : (2 * m + 1) * (den * 2 ^ (k + 1)) = (2 * m + 1) * 2 ^ k * den * 2 := by ring
  rw [lt_divRoundEven_iff (Nat.mul_pos hd (Nat.two_pow_pos _)) hm, hside, Nat.mul_comm 2 num,
    Nat.mul_le_mul_right_iff Nat.two_pos]

/-- The least number that is rounded to infinity, in the middle between the largest finite number
and 2^1024. -/
def overflow : Nat := (2 * 9007199254740991 + 1) * 2 ^ 970

theorem two_pow_add_eq {a b k : Nat} (h : a + b = k) : 2 ^ k = 2 ^ a * 2 ^ b := by
  rw [← h, Nat.pow_add]

theorem overflow_mul_scale : overflow * scale = (2 * 9007199254740991 + 1) * 2 ^ 2044 := by
  have hpow : 2 ^ 2044 = 2 ^ 970 * 2 ^ 1074 := two_pow_add_eq rfl
  rw [overflow, scale_eq_pow rfl, hpow, Nat.mul_assoc]

theorem two_pow_le_overflow : 2 ^ 2097 ≤ overflow * scale := by
  have hpow : 2 ^ 2097 = 2 ^ 53 * 2 ^ 2044 := two_pow_add_eq rfl
  rw [overflow_mul_scale, hpow]
  exact Nat.mul_le_mul_right _ (by decide)

theorem overflow_lt_two_pow : overflow * scale < 2 ^ 2098 := by
  have hpow : 2 ^ 2098 = 2 ^ 54 * 2 ^ 2044 := two_pow_add_eq rfl
  have hlt : ∀ k, (2 * 9007199254740991 + 1) * 2 ^ k < 2 ^ 54 * 2 ^ k := fun k =>
    Nat.mul_lt_mul_of_pos_right (by decide) (Nat.two_pow_pos k)
  rw [overflow_mul_scale, hpow]
  exact hlt 2044

/-- Units from 2^2097 to 2^2098 are rounded to multiples of 2^2045. -/
theorem log2_sub_of_le (hlow : 2 ^ 2097 ≤ m) (hhigh : m < 2 ^ 2098) : m.log2 - 52 = 2044 + 1 := by
  have hz : m ≠ 0 := (lt_of_lt_of_le (Nat.two_pow_pos _) hlow).ne'
  have hmin := (Nat.le_log2 hz).mpr hlow
  have hmax := (Nat.log2_lt hz).mpr hhigh
  omega

/-- The largest significand is rounded over from the overflow on. -/
theorem lt_significand_iff (hd : 0 < den) :
    9007199254740991 < divRoundEven num (den * 2 ^ (2044 + 1)) ↔ overflow * scale * den ≤ num := by
  rw [overflow_mul_scale]
  exact lt_divRoundEven_two_pow_iff hd rfl 2044

theorem exists_ofUnits_of_lt (hd : 0 < den) (h : num < overflow * scale * den) :
    ∃ x, ofUnits negative num den = .finite x := by
  have hhigh : num / den < overflow * scale := (Nat.div_lt_iff_lt_mul hd).mpr h
  rcases Nat.lt_or_ge (num / den) (2 ^ 2097) with hlow | hlow
  · exact exists_ofUnits_eq_finite negative hlow
  · -- the largest exponent, so the significand must not be rounded over
    have hexp := log2_sub_of_le hlow (hhigh.trans overflow_lt_two_pow)
    have hround := mt (lt_significand_iff hd).mp (Nat.not_le.mpr h)
    have hmin := (divRoundEven_canonical num den).2
    rw [hexp] at hmin
    have hcanonical : Canonical (divRoundEven num (den * 2 ^ (2044 + 1))) (2044 + 1) :=
      ⟨by omega, Nat.le_refl _, .inr (hmin.resolve_left (by decide))⟩
    simp only [ofUnits, hexp]
    rw [if_neg hcanonical.1.ne]
    exact ⟨_, dif_pos hcanonical⟩

theorem ofUnits_of_le (hd : 0 < den) (h : overflow * scale * den ≤ num) :
    ofUnits negative num den = .infinite negative := by
  have hlow : overflow * scale ≤ num / den := (Nat.le_div_iff_mul_le hd).mpr h
  rcases Nat.lt_or_ge (num / den) (2 ^ 2098) with hhigh | hhigh
  · -- the largest exponent, and the significand is rounded over to the next one
    have hexp := log2_sub_of_le (two_pow_le_overflow.trans hlow) hhigh
    have hround := (lt_significand_iff hd).mpr h
    have hmax := (divRoundEven_canonical num den).1
    rw [hexp] at hmax
    simp only [ofUnits, hexp]
    rw [if_pos (by omega)]
    rfl
  · exact ofUnits_eq_infinite negative hhigh

end Binary64

namespace Decimal

open Binary64

variable {d : Decimal} (negative : Bool)

/-- Comparing a decimal with a natural number is comparing natural numbers. -/
theorem natCast_le_value_iff {n : Nat} : (n : ℚ) ≤ d.value ↔
    n * scale * 10 ^ (-d.exponent).toNat ≤ d.digits * 10 ^ d.exponent.toNat * scale := by
  have hden : (0 : ℚ) < (10 ^ (-d.exponent).toNat : Nat) :=
    Nat.cast_pos.mpr (Nat.pow_pos (by decide))
  rw [value_eq_div, le_div_iff₀ hden, ← Nat.cast_mul, Nat.cast_le, Nat.mul_right_comm,
    Nat.mul_le_mul_right_iff scale_pos]

/-- A decimal below the overflow has a finite nearest number. -/
theorem exists_toBinary64_of_lt (h : d.value < overflow) :
    ∃ x, d.toBinary64 negative = .finite x := by
  rw [toBinary64_eq_ofRatio, ofRatio_eq_ofUnits]
  refine exists_ofUnits_of_lt negative (Nat.pow_pos (by decide)) ?_
  rwa [← Nat.not_le, ← natCast_le_value_iff, not_le]

/-- From the overflow on, the nearest number of a decimal is infinite. -/
theorem toBinary64_of_le (h : overflow ≤ d.value) : d.toBinary64 negative = .infinite negative := by
  rw [toBinary64_eq_ofRatio, ofRatio_eq_ofUnits]
  exact ofUnits_of_le negative (Nat.pow_pos (by decide)) (natCast_le_value_iff.mp h)

end Decimal

/-! ### The characters of a number -/

namespace Numeral

variable {c : Char}

/-- A digit after a numeral without a fraction is one more digit before the point. -/
theorem exists_append_whole (n : Numeral) (h : n.fraction = []) (hc : c.isDigit = true) :
    ∃ m : Numeral, m.fraction = [] ∧ m.text = n.text ++ [c] := by
  refine ⟨⟨n.negative, n.whole ++ [c], [], by simp, ?_, by simp⟩, rfl, ?_⟩
  · exact List.forall_mem_append.mpr ⟨n.isDigit_whole, by simpa using hc⟩
  · simp [text, unsigned, h]

/-- A digit after a numeral with a fraction is one more digit after the point. -/
theorem exists_append_fraction (n : Numeral) (h : n.fraction ≠ []) (hc : c.isDigit = true) :
    ∃ m : Numeral, m.fraction ≠ [] ∧ m.text = n.text ++ [c] := by
  refine ⟨{ n with fraction := n.fraction ++ [c], isDigit_fraction := ?_ }, by simp, ?_⟩
  · exact List.forall_mem_append.mpr ⟨n.isDigit_fraction, by simpa using hc⟩
  · simp [text, unsigned, h]

/-- A point and a digit after a numeral without a fraction begin one. -/
theorem exists_append_point (n : Numeral) (h : n.fraction = []) (hc : c.isDigit = true) :
    ∃ m : Numeral, m.fraction ≠ [] ∧ m.text = n.text ++ ['.', c] := by
  refine ⟨{ n with fraction := [c], isDigit_fraction := by simpa using hc }, by simp, ?_⟩
  simp [text, unsigned, h]

end Numeral

namespace Condition

open Text

/-- What the characters of a lexeme write if it can become a number. -/
def Reading.Writes (cs : List Char) : Reading → Prop
  | minus => cs = ['-']
  | whole _ => ∃ n : Numeral, n.fraction = [] ∧ n.text = cs
  | point _ => ∃ n : Numeral, n.fraction = [] ∧ n.text ++ ['.'] = cs
  | fraction _ => ∃ n : Numeral, n.fraction ≠ [] ∧ n.text = cs
  | _ => True

variable {cs : List Char} {c : Char} {r r' : Reading}

theorem writes_of_beginning (h : beginning c = .first r) : r.Writes [c] := by
  unfold beginning at h
  split at h
  · cases h
  split at h
  · cases h
    trivial
  split at h
  · rename_i hc
    cases h
    exact ⟨⟨false, [c], [], by simp, by simpa using hc, by simp⟩, rfl, rfl⟩
  split at h <;> cases h <;> first | rfl | trivial

/-- A character that goes on a number goes on what it writes. -/
theorem Reading.Writes.more (h : r.Writes cs) (hnext : r.next? c = some (.more r')) :
    r'.Writes (cs ++ [c]) := by
  cases r with
  | minus =>
    obtain rfl : cs = ['-'] := h
    simp only [next?, Option.ite_none_right_eq_some, Option.some.injEq, Move.more.injEq] at hnext
    obtain ⟨hc, rfl⟩ := hnext
    exact ⟨⟨true, [c], [], by simp, by simpa using hc, by simp⟩, rfl, rfl⟩
  | whole read =>
    obtain ⟨n, hn, rfl⟩ := h
    rw [next?] at hnext
    split_ifs at hnext with hdigit hpoint
    · cases hnext
      exact n.exists_append_whole hn hdigit
    · cases hnext
      exact ⟨n, hn, by rw [hpoint]⟩
  | point read =>
    obtain ⟨n, hn, rfl⟩ := h
    simp only [next?, Option.ite_none_right_eq_some, Option.some.injEq, Move.more.injEq] at hnext
    obtain ⟨hc, rfl⟩ := hnext
    rw [List.append_assoc]
    exact n.exists_append_point hn hc
  | fraction read =>
    obtain ⟨n, hn, rfl⟩ := h
    simp only [next?, Option.ite_none_right_eq_some, Option.some.injEq, Move.more.injEq] at hnext
    obtain ⟨hc, rfl⟩ := hnext
    exact n.exists_append_fraction hn hc
  | quoted q content escaped =>
    cases escaped <;> rw [next?] at hnext <;> split_ifs at hnext <;> cases hnext <;> trivial
  | blank => cases hnext
  | _ =>
    -- what goes on another lexeme makes no number of it
    rw [next?] at hnext
    split_ifs at hnext
    cases hnext <;> trivial

theorem Opens.writes (h : Opens cs r) : r.Writes cs := by
  induction h with
  | first hbegin => exact writes_of_beginning hbegin
  | more _ hnext ih => exact ih.more hnext

/-- No word is a number. -/
theorem wordToken_ne_number (word : List Char) (x : Binary64) :
    wordToken word ≠ .literal (.number x) := by
  unfold wordToken
  split <;> simp

/-- A lexeme that ends as a number is a numeral. -/
theorem Opens.exists_numeral {x : Binary64} {start stop : Nat} (h : Opens cs r)
    (hflush : (Scanner.mk start stop r).flush = .ok [⟨.literal (.number x), start, stop⟩]) :
    ∃ n : Numeral, n.text = cs := by
  have hwrites := h.writes
  cases r with
  | whole read =>
    obtain ⟨n, -, htext⟩ := hwrites
    exact ⟨n, htext⟩
  | fraction read =>
    obtain ⟨n, -, htext⟩ := hwrites
    exact ⟨n, htext⟩
  | word read =>
    simp only [Scanner.flush, Except.ok.injEq, List.cons.injEq, Placed.mk.injEq] at hflush
    exact absurd hflush.1.1 (wordToken_ne_number _ _)
  | point read => simp [Scanner.flush] at hflush
  | quoted q content escaped => cases escaped <;> cases hflush
  | _ => cases hflush

/-- A character that ends its lexeme ends no number. -/
theorem Reading.done_ne_number {t : Token} (h : r.next? c = some (.done t)) (x : Binary64) :
    t ≠ .literal (.number x) := by
  rintro rfl
  cases r with
  | quoted q content escaped =>
    cases escaped <;> rw [next?] at h <;> split_ifs at h <;> cases h
  | blank => cases h
  | _ =>
    rw [next?] at h
    split_ifs at h
    all_goals cases h

/-- No character is a number by itself, since a digit may go on. -/
theorem single_ne_number {t : Token} (h : beginning c = .single t) (x : Binary64) :
    t ≠ .literal (.number x) := by
  rcases eq_of_beginning_single h with rfl | rfl | rfl <;> simp

/-- What is one number token is a numeral. -/
theorem IsLexeme.exists_numeral {x : Binary64} (h : IsLexeme cs (.literal (.number x))) :
    ∃ n : Numeral, n.text = cs := by
  generalize ht : Token.literal (.number x) = t at h
  cases h with
  | ended hopens hflush =>
    subst ht
    exact hopens.exists_numeral (hflush 0 0)
  | done _ hnext => exact absurd ht.symm (Reading.done_ne_number hnext x)
  | single hbegin => exact absurd ht.symm (single_ne_number hbegin x)

/-- A numeral is one token, the number nearest to it. -/
theorem tokens?_numeral (n : Numeral) :
    tokens? n.text = some [.literal (.number n.toBinary64)] := by
  rw [tokens?_eq, n.feed_text, Option.bind_some, Reading.finish, n.flush_reading]
  rfl

/-! ### Comparisons of literals -/

variable {text : List Char} {l m : Literal}

/-- A comparison of two literals is one of their values, in every context. -/
theorem holds_literals {op : Comparison}
    (h : tokens? text = some [.literal l, .compare op, .literal m]) (context : Value) :
    holds text context = compareValues op l.value m.value := by
  have htree : ofTokens [.literal l, .compare op, .literal m] =
      .ok (.compare op (.literal l) (.literal m)) := rfl
  have hvalue : evaluate context (.compare op (.literal l) (.literal m)) =
      (do return Value.bool (← compareValues op l.value m.value)) := by
    simp only [evaluate]
    rfl
  rw [holds, evaluateText_of_tokens h htree, hvalue]
  cases compareValues op l.value m.value <;> rfl

/-- A text that is a literal has its value. -/
theorem evaluateText_literal (h : tokens? text = some [.literal l]) (context : Value) :
    evaluateText text context = .ok l.value := by
  have htree : ofTokens [.literal l] = .ok (.literal l) := rfl
  rw [evaluateText_of_tokens h htree, evaluate]

theorem holds_equal_null (h : tokens? text = some [.literal l]) (context : Value) :
    holds (text ++ " = null".toList) context = .ok (looselyEqual l.value .null) := by
  have htokens : tokens? (text ++ " = null".toList) =
      some [.literal l, .compare .equal, .literal .null] := tokens?_append_blank h "= null".toList
  exact holds_literals htokens context

theorem holds_lessOrEqual_self (h : tokens? text = some [.literal l]) (context : Value) :
    holds (text ++ " <= ".toList ++ text) context =
      compareValues .lessOrEqual l.value l.value := by
  have hright : tokens? ("<=".toList ++ ' ' :: text) = some [.compare .lessOrEqual, .literal l] := by
    have hsymbol : tokens? "<=".toList = some [.compare .lessOrEqual] := rfl
    rw [tokens?_append_blank hsymbol, h]
    rfl
  have htokens : tokens? (text ++ " <= ".toList ++ text) =
      some [.literal l, .compare .lessOrEqual, .literal l] := by
    have htext : text ++ " <= ".toList ++ text = text ++ ' ' :: ("<=".toList ++ ' ' :: text) := by
      simp
    rw [htext, tokens?_append_blank h, hright]
    rfl
  exact holds_literals htokens context

/-! ### Numbers in a test -/

/-- What is a number in a test: it has a number as its value, so it is not null, and it can be
compared with itself. -/
structure ActsAsNumber (text : List Char) (context : Value) : Prop where
  value : ∃ n, evaluateText text context = .ok (.number n)
  equal_null : holds (text ++ " = null".toList) context = .ok false
  le_self : holds (text ++ " <= ".toList ++ text) context = .ok true

/-- What is null in a test: it has no order, also not with itself. -/
structure ActsAsNull (text : List Char) (context : Value) : Prop where
  value : evaluateText text context = .ok .null
  equal_null : holds (text ++ " = null".toList) context = .ok true
  le_self : holds (text ++ " <= ".toList ++ text) context =
    .error (.incomparable .lessOrEqual .null .null)

theorem actsAsNumber_of_finite {x : Binary64.Finite}
    (h : tokens? text = some [.literal (.number (.finite x))]) (context : Value) :
    ActsAsNumber text context := by
  have hself : compareValues .lessOrEqual (.number (.float x)) (.number (.float x)) = .ok true := by
    simp [compareValues, order?, number?, Number.toBinary64, Binary64.compare?_finite,
      Comparison.holds]
  exact ⟨⟨_, evaluateText_literal h context⟩, holds_equal_null h context,
    (holds_lessOrEqual_self h context).trans hself⟩

theorem actsAsNull_of_infinite {negative : Bool}
    (h : tokens? text = some [.literal (.number (.infinite negative))]) (context : Value) :
    ActsAsNull text context :=
  ⟨evaluateText_literal h context, holds_equal_null h context, holds_lessOrEqual_self h context⟩

/-- **A number that a test writes is a number unless it overflows.**  What is read as one number is a
numeral.  If its value without the sign is below the overflow, the number is a number in every
context; else it is null, and a comparison with it is an error. -/
theorem number_overflows {text : List Char} {x : Binary64} {start stop : Nat}
    (h : scan text = .ok [⟨.literal (.number x), start, stop⟩]) :
    (∃ n : Numeral, n.text = sliceBytes start stop text) ∧
    ∀ n : Numeral, n.text = sliceBytes start stop text →
      (n.decimal.value < Binary64.overflow → ∀ context, ActsAsNumber text context) ∧
      (Binary64.overflow ≤ n.decimal.value → ∀ context, ActsAsNull text context) := by
  obtain ⟨-, -, -, hlexeme⟩ := isLexeme_slice h List.mem_cons_self
  refine ⟨hlexeme.exists_numeral, fun n hn => ?_⟩
  -- the numeral is read in the text as it is read alone
  have htokens : tokens? text = some [.literal (.number n.toBinary64)] := by
    have hslice := tokens?_of_scan hlexeme.scan
    rw [Placed.slice, ← hn, tokens?_numeral] at hslice
    rw [tokens?_of_scan h]
    exact hslice.symm
  constructor
  · intro hlt context
    obtain ⟨v, hv⟩ := Decimal.exists_toBinary64_of_lt n.negative hlt
    rw [Numeral.toBinary64, hv] at htokens
    exact actsAsNumber_of_finite htokens context
  · intro hle context
    rw [Numeral.toBinary64, Decimal.toBinary64_of_le n.negative hle] at htokens
    exact actsAsNull_of_infinite htokens context

/-- The number -2.5 with a zero at the end. -/
def minusTwoAndHalf : Numeral where
  negative := true
  whole := ['2']
  fraction := ['5', '0']
  whole_ne_nil := List.cons_ne_nil _ _
  isDigit_whole := List.all_eq_true.mp rfl
  isDigit_fraction := List.all_eq_true.mp rfl

/-- A number with blanks around it. -/
theorem number_overflows_of_minus_two_and_half : ActsAsNumber "\t-2.50 ".toList .empty := by
  have hscan : scan "\t-2.50 ".toList = .ok [⟨numberToken minusTwoAndHalf.text, 1, 6⟩] := rfl
  have hlt : minusTwoAndHalf.decimal.value < Binary64.overflow :=
    not_le.mp (mt Decimal.natCast_le_value_iff.mp (by decide +kernel))
  exact ((number_overflows hscan).2 minusTwoAndHalf rfl).1 hlt .empty

/-- The number 10^309 with all its zeros. -/
def longNumeral : Numeral where
  negative := false
  whole := '1' :: List.replicate 309 '0'
  fraction := []
  whole_ne_nil := List.cons_ne_nil _ _
  isDigit_whole := by
    rw [List.forall_mem_cons]
    refine ⟨rfl, fun c hc => ?_⟩
    rw [List.eq_of_mem_replicate hc]
    rfl
  isDigit_fraction := List.forall_mem_nil _

/-- The number 10^309 is null in a test. -/
theorem long_numeral_is_null :
    ¬∀ (text : List Char) (x : Binary64) (start stop : Nat),
      scan text = .ok [⟨.literal (.number x), start, stop⟩] →
        ∀ context, ActsAsNumber text context := by
  intro h
  have hle : Binary64.overflow ≤ longNumeral.decimal.value :=
    Decimal.natCast_le_value_iff.mpr (by decide +kernel)
  have htokens := tokens?_numeral longNumeral
  rw [Numeral.toBinary64, Decimal.toBinary64_of_le _ hle] at htokens
  obtain ⟨placed, hscan, hplaced⟩ := exists_scan_of_tokens? htokens
  obtain ⟨⟨token, start, stop⟩, rfl, rfl⟩ := List.map_eq_singleton_iff.mp hplaced
  have hnumber := h longNumeral.text _ start stop hscan .empty
  have hnull := actsAsNull_of_infinite htokens .empty
  have hdiffer := hnumber.equal_null.symm.trans hnull.equal_null
  cases hdiffer

end Condition

end Transclude
