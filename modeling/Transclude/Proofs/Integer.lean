/-
Comparisons of integers.

A test compares the binary64 numbers nearest to two integers.  These are the integers rounded to 53
significant bits, so that the order of two integers never turns round, but integers beyond 2^53 may
become equal.

* `Binary64.units_ofInt` — the number nearest to an integer is an integer, `nearestInt`;
* `Binary64.nearestInt_mono` — rounding keeps the order of integers;
* `compareValues_integers` — a comparison of two integers is one of the integers nearest to them;
* `integer_comparisons` — tests compare integers exactly unless they differ and have the same
  nearest number; integers up to 2^53 are their own nearest numbers.

Design notes: the number of bits to drop is `log2 - 52`.  Rounding is monotone where this number is
the same, and where it changes, a power of two lies between the results
(`two_pow_le_nearestNat`, `nearestNat_le_two_pow`).
-/
import Transclude.Proofs.Coherence
import Transclude.Proofs.Scalar

namespace Transclude

namespace Binary64

/-! ### Rounding to 53 bits -/

/-- The natural number nearest to another among those of 53 significant bits. -/
def nearestNat (n : Nat) : Nat :=
  divRoundEven n (2 ^ (n.log2 - 52)) * 2 ^ (n.log2 - 52)

/-- The integer nearest to another among those of 53 significant bits. -/
def nearestInt (i : Int) : Int :=
  if i < 0 then -(nearestNat i.natAbs : Int) else nearestNat i.natAbs

theorem divRoundEven_mono {a b : Nat} (h : a ≤ b) (den : Nat) :
    divRoundEven a den ≤ divRoundEven b den := by
  have hdiv : a / den ≤ b / den := Nat.div_le_div_right h
  rcases Nat.lt_or_eq_of_le hdiv with hlt | heq
  · exact (divRoundEven_le a den).trans (hlt.trans_le (div_le_divRoundEven b den))
  · -- the quotients are the same, so the remainders decide
    have hmod : a % den ≤ b % den := by
      have ha := Nat.div_add_mod a den
      have hb := Nat.div_add_mod b den
      rw [heq] at ha
      omega
    simp only [divRoundEven, heq]
    have hparity : b / den % 2 < 2 := Nat.mod_lt _ (by decide)
    split_ifs <;> omega

theorem log2_mono {a b : Nat} (h : a ≤ b) : a.log2 ≤ b.log2 := by
  rcases Nat.eq_zero_or_pos a with rfl | ha
  · exact Nat.zero_le _
  · rw [Nat.le_log2 (ha.trans_le h).ne']
    exact (Nat.log2_self_le ha.ne').trans h

theorem log2_mul_two_pow {n : Nat} (hn : n ≠ 0) (k : Nat) : (n * 2 ^ k).log2 = n.log2 + k := by
  obtain ⟨hmin, hmax⟩ := (Nat.log2_eq_iff hn).mp rfl
  rw [Nat.log2_eq_iff (Nat.mul_ne_zero hn (Nat.two_pow_pos k).ne'), Nat.pow_add,
    Nat.add_right_comm, Nat.pow_add]
  exact ⟨Nat.mul_le_mul_right _ hmin, Nat.mul_lt_mul_of_pos_right hmax (Nat.two_pow_pos k)⟩

/-- A power of two with room for all its bits to be dropped is its own nearest number. -/
theorem divRoundEven_two_pow {e k : Nat} (h : e ≤ k) :
    divRoundEven (2 ^ k) (2 ^ e) * 2 ^ e = 2 ^ k := by
  obtain ⟨d, rfl⟩ := Nat.exists_eq_add_of_le' h
  rw [Nat.pow_add, divRoundEven_mul_self _ (Nat.two_pow_pos e)]

theorem two_pow_le_nearestNat {n : Nat} (hn : n ≠ 0) : 2 ^ n.log2 ≤ nearestNat n := by
  rw [nearestNat, ← divRoundEven_two_pow (Nat.sub_le n.log2 52)]
  exact Nat.mul_le_mul_right _ (divRoundEven_mono (Nat.log2_self_le hn) _)

theorem nearestNat_le_two_pow (n : Nat) : nearestNat n ≤ 2 ^ (n.log2 + 1) := by
  have hroom : n.log2 - 52 ≤ n.log2 + 1 := by omega
  rw [nearestNat, ← divRoundEven_two_pow hroom]
  exact Nat.mul_le_mul_right _ (divRoundEven_mono (Nat.le_of_lt Nat.lt_log2_self) _)

theorem nearestNat_mono {a b : Nat} (h : a ≤ b) : nearestNat a ≤ nearestNat b := by
  have hlog := log2_mono h
  by_cases hdrop : a.log2 - 52 = b.log2 - 52
  · rw [nearestNat, nearestNat, hdrop]
    exact Nat.mul_le_mul_right _ (divRoundEven_mono h _)
  · -- a power of two lies between them
    have hb : b ≠ 0 := by
      rintro rfl
      exact hdrop (by rw [Nat.le_zero.mp h])
    calc nearestNat a ≤ 2 ^ (a.log2 + 1) := nearestNat_le_two_pow a
      _ ≤ 2 ^ b.log2 := Nat.pow_le_pow_right (by decide) (by omega)
      _ ≤ nearestNat b := two_pow_le_nearestNat hb

/-- Natural numbers up to 2^53 are their own nearest numbers. -/
theorem nearestNat_of_le {n : Nat} (h : n ≤ 9007199254740992) : nearestNat n = n := by
  rcases Nat.lt_or_eq_of_le h with hlt | rfl
  · have hdrop : n.log2 - 52 = 0 := by
      rcases Nat.eq_zero_or_pos n with rfl | hpos
      · rfl
      · have := (Nat.log2_lt hpos.ne').mpr (show n < 2 ^ 53 from hlt)
        omega
    have hround := divRoundEven_mul_self n (Nat.two_pow_pos 0)
    rw [nearestNat, hdrop]
    simpa using hround
  · decide +kernel

theorem nearestInt_mono {i j : Int} (h : i ≤ j) : nearestInt i ≤ nearestInt j := by
  simp only [nearestInt]
  split_ifs with hi hj hj
  · have := nearestNat_mono (a := j.natAbs) (b := i.natAbs) (by omega)
    omega
  · omega
  · omega
  · have := nearestNat_mono (a := i.natAbs) (b := j.natAbs) (by omega)
    omega

theorem nearestInt_of_natAbs_le {i : Int} (h : i.natAbs ≤ 9007199254740992) :
    nearestInt i = i := by
  rw [nearestInt, nearestNat_of_le h]
  split_ifs <;> omega

/-! ### The number nearest to an integer -/

/-- Rounding does not depend on the units that are counted. -/
theorem divRoundEven_scaled (n k : Nat) :
    divRoundEven (n * 2 ^ k) (2 ^ ((n * 2 ^ k).log2 - 52)) * 2 ^ ((n * 2 ^ k).log2 - 52) =
      nearestNat n * 2 ^ k := by
  rcases Nat.eq_zero_or_pos n with rfl | hpos
  · simp [divRoundEven, nearestNat]
  rw [log2_mul_two_pow hpos.ne']
  rcases Nat.lt_or_ge n.log2 52 with hlt | hge
  · -- there is room for all bits
    have hsmall : n ≤ 9007199254740992 :=
      Nat.le_of_lt ((Nat.log2_lt hpos.ne').mp (by omega : n.log2 < 53))
    obtain ⟨d, hd⟩ := Nat.exists_eq_add_of_le' (show n.log2 + k - 52 ≤ k by omega)
    generalize n.log2 + k - 52 = room at hd ⊢
    rw [hd, Nat.pow_add, ← Nat.mul_assoc, divRoundEven_mul_self _ (Nat.two_pow_pos room),
      nearestNat_of_le hsmall, Nat.mul_assoc]
  · have hdrop : n.log2 + k - 52 = n.log2 - 52 + k := by omega
    rw [hdrop, Nat.pow_add, divRoundEven_mul_right _ _ (Nat.two_pow_pos k), ← Nat.mul_assoc,
      nearestNat]

theorem magnitude_of_ofUnits {negative : Bool} {num den : Nat} {x : Finite}
    (h : ofUnits negative num den = .finite x) :
    x.negative = negative ∧ x.magnitude =
      divRoundEven num (den * 2 ^ ((num / den).log2 - 52)) * 2 ^ ((num / den).log2 - 52) := by
  have hparts : ∀ {m e : Nat}, ofParts negative m e = .finite x →
      x.negative = negative ∧ x.magnitude = m * 2 ^ e := by
    intro m e h
    unfold ofParts at h
    split at h
    · obtain rfl := Binary64.finite.inj h
      exact ⟨rfl, rfl⟩
    · cases h
  simp only [ofUnits] at h
  split at h
  · rename_i hfull
    rw [hfull]
    obtain ⟨hnegative, hmagnitude⟩ := hparts h
    refine ⟨hnegative, hmagnitude.trans ?_⟩
    rw [Nat.pow_succ]
    omega
  · exact hparts h

/-- The number nearest to an integer is the integer nearest to it. -/
theorem units_ofInt {i : Int} {x : Finite} (h : ofInt i = .finite x) :
    x.units = nearestInt i * scale := by
  rw [ofInt, ofRatio_eq_ofUnits] at h
  obtain ⟨hnegative, hmagnitude⟩ := magnitude_of_ofUnits h
  obtain ⟨k, hk⟩ : ∃ k, scale = 2 ^ k := ⟨1074, scale_eq_pow rfl⟩
  rw [Nat.div_one, Nat.one_mul, hk, divRoundEven_scaled] at hmagnitude
  rw [Finite.units, hmagnitude, hnegative, nearestInt, hk]
  simp only [decide_eq_true_eq]
  split_ifs <;> push_cast <;> ring

end Binary64

/-! ### Comparisons of integers -/

namespace Condition

open Binary64

/-- The relation of integers that a comparison stands for. -/
def Comparison.relates : Comparison → Int → Int → Bool
  | equal, m, n => m = n
  | notEqual, m, n => m ≠ n
  | less, m, n => m < n
  | lessOrEqual, m, n => m ≤ n
  | greater, m, n => n < m
  | greaterOrEqual, m, n => n ≤ m

theorem Comparison.holds_compare (op : Comparison) (m n : Int) :
    op.holds (Ord.compare m n) = op.relates m n := by
  rcases Int.lt_trichotomy m n with h | h | h
  · rw [Int.compare_eq_lt.mpr h]
    cases op <;> simp [holds, relates, h, h.le, h.ne, h.not_gt, h.not_ge]
  · subst h
    rw [Int.compare_eq_eq.mpr rfl]
    cases op <;> simp [holds, relates]
  · rw [Int.compare_eq_gt.mpr h]
    cases op <;> simp [holds, relates, h, h.le, h.ne', h.not_gt, h.not_ge]

theorem Comparison.relates_mul {s : Int} (hs : 0 < s) (op : Comparison) (m n : Int) :
    op.relates (m * s) (n * s) = op.relates m n := by
  cases op <;> simp [relates, hs, hs.ne']

variable {m n : Int} {hm : -9223372036854775808 ≤ m ∧ m < 18446744073709551616}
  {hn : -9223372036854775808 ≤ n ∧ n < 18446744073709551616}

/-- Two integers are compared by the integers nearest to them. -/
theorem compareValues_integers (op : Comparison) :
    compareValues op (.number (.integer m hm)) (.number (.integer n hn)) =
      .ok (op.relates (nearestInt m) (nearestInt n)) := by
  obtain ⟨x, hx⟩ := exists_ofInt_eq_finite hm
  obtain ⟨y, hy⟩ := exists_ofInt_eq_finite hn
  have horder : order? (.number (.integer m hm)) (.number (.integer n hn)) =
      some (Ord.compare x.units y.units) := by
    rw [order?_numbers fun h => by cases h.1]
    simp only [number?, Number.toBinary64, hx, hy, Option.bind_some, compare?_finite]
  have hscale : (0 : Int) < scale := Int.natCast_pos.mpr scale_pos
  rw [compareValues_of_order? horder, units_ofInt hx, units_ofInt hy, Comparison.holds_compare,
    Comparison.relates_mul hscale]

/-- Rounding is exact for all comparisons exactly if it does not make different integers equal. -/
theorem forall_relates_nearestInt_iff :
    (∀ op : Comparison, op.relates (nearestInt m) (nearestInt n) = op.relates m n) ↔
      m = n ∨ nearestInt m ≠ nearestInt n := by
  constructor
  · intro h
    by_cases hne : m = n
    · exact .inl hne
    · have hequal := h .equal
      simp only [Comparison.relates, hne, decide_false, decide_eq_false_iff_not] at hequal
      exact .inr hequal
  · rintro (rfl | hne) op
    · cases op <;> simp [Comparison.relates]
    · have hle := nearestInt_mono (i := m) (j := n)
      have hge := nearestInt_mono (i := n) (j := m)
      have heq : m ≠ n := by
        rintro rfl
        exact hne rfl
      cases op <;> simp only [Comparison.relates, decide_eq_decide] <;> omega

/-! ### Tests that compare two variables -/

/-- The test that compares two variables. -/
def variableTest (op : Comparison) (x y : String) : String :=
  x ++ " " ++ op.symbol ++ " " ++ y

theorem tokens?_variableTest {x y : String} (hx : IsName x) (hy : IsName y) (op : Comparison) :
    tokens? (variableTest op x y).toList = some [.ident x, .compare op, .ident y] := by
  have htext : (variableTest op x y).toList =
      x.toList ++ ' ' :: (op.symbol.toList ++ [' '] ++ y.toList) := by
    simp [variableTest]
  have hspace : (Reading.word x.toList.reverse).step ' ' = some ([.ident x], .blank) := hx.step rfl
  have hsymbol : Reading.blank.feed (op.symbol.toList ++ [' ']) = some ([.compare op], .blank) := by
    cases op <;> rfl
  rw [tokens?_eq, htext, Reading.feed_append, hx.feed, Option.bind_some, Reading.feed, hspace,
    Option.bind_some, Reading.feed_append, hsymbol, Option.bind_some, hy.feed]
  simp [Reading.finish, hy.flush]

/-- A test that compares two variables compares their values. -/
theorem evaluateText_variableTest {x y : String} (hx : IsName x) (hy : IsName y)
    {context v w : Value} (hv : context.lookup? x.toList = some v)
    (hw : context.lookup? y.toList = some w) {op : Comparison} {b : Bool}
    (hb : compareValues op v w = .ok b) :
    evaluateText (variableTest op x y).toList context = .ok (.bool b) := by
  have htree : ofTokens [.ident x, .compare op, .ident y] =
      .ok (.compare op (.path [x]) (.path [y])) :=
    ofTokens_eq_ok.mpr (.conjunction (.negation (.comparison
      (.compare op (.path (.segment x)) (.path (.segment y))))))
  have hpath : ∀ {z u}, context.lookup? z.toList = some u →
      evaluate context (.path [z]) = .ok u := by
    intro z u hu
    have hident : pathIdent [z] = z.toList := rfl
    rw [evaluate, hident, hu, Option.getD_some]
  rw [evaluateText_of_tokens (tokens?_variableTest hx hy op) htree, evaluate, hpath hv, hpath hw]
  show (do return Value.bool (← compareValues op v w)) = _
  rw [hb]
  rfl

/-- **Integers are compared by their nearest binary64 numbers.**  A test on two variables that are
integers of 64 bits always has a value, and this is the comparison of the integers rounded to 53
bits.  All six comparisons are those of the integers themselves exactly if the two are equal or are
rounded to different numbers; this is so for all integers up to 2^53. -/
theorem integer_comparisons (m n : Int)
    (hm : -9223372036854775808 ≤ m ∧ m < 18446744073709551616)
    (hn : -9223372036854775808 ≤ n ∧ n < 18446744073709551616)
    (x y : String) (hx : IsName x) (hy : IsName y) (context : Value)
    (hxm : context.lookup? x.toList = some (.number (.integer m hm)))
    (hyn : context.lookup? y.toList = some (.number (.integer n hn))) :
    (∀ op : Comparison, evaluateText (variableTest op x y).toList context =
      .ok (.bool (op.relates (nearestInt m) (nearestInt n)))) ∧
    ((∀ op : Comparison, evaluateText (variableTest op x y).toList context =
      .ok (.bool (op.relates m n))) ↔ m = n ∨ nearestInt m ≠ nearestInt n) ∧
    (m.natAbs ≤ 2 ^ 53 → n.natAbs ≤ 2 ^ 53 → nearestInt m = m ∧ nearestInt n = n) := by
  have hvalue : ∀ op : Comparison, evaluateText (variableTest op x y).toList context =
      .ok (.bool (op.relates (nearestInt m) (nearestInt n))) := fun op =>
    evaluateText_variableTest hx hy hxm hyn (compareValues_integers op)
  refine ⟨hvalue, ?_, fun hsmall hsmall' =>
    ⟨nearestInt_of_natAbs_le hsmall, nearestInt_of_natAbs_le hsmall'⟩⟩
  rw [← forall_relates_nearestInt_iff]
  simp only [hvalue, Except.ok.injEq, Value.bool.injEq]

/-- The context of two variables `x` and `y`. -/
def twoVariables (v w : Value) : Value := .object [("x", v), ("y", w)]

/-- Two neighbours beyond 2^53 that are rounded away from each other. -/
theorem integer_comparisons_of_odd_neighbours :
    let context := twoVariables (.number (.integer 9007199254740993 (by decide)))
      (.number (.integer 9007199254740995 (by decide)))
    evaluateText (variableTest .equal "x" "y").toList context = .ok (.bool false) ∧
      evaluateText (variableTest .less "x" "y").toList context = .ok (.bool true) := by
  intro context
  have hexact := (integer_comparisons 9007199254740993 9007199254740995 (by decide) (by decide)
    "x" "y" (by decide) (by decide) context rfl rfl).2.1.mpr (.inr (by decide +kernel))
  exact ⟨hexact .equal, hexact .less⟩

/-- The integers 2^53 and 2^53 + 1 have the same nearest number, so a test takes them as equal. -/
theorem neighbours_taken_as_equal :
    ¬∀ (m n : Int) (hm : -9223372036854775808 ≤ m ∧ m < 18446744073709551616)
      (hn : -9223372036854775808 ≤ n ∧ n < 18446744073709551616) (context : Value),
      context.lookup? "x".toList = some (.number (.integer m hm)) →
      context.lookup? "y".toList = some (.number (.integer n hn)) →
        ∀ op : Comparison, evaluateText (variableTest op "x" "y").toList context =
          .ok (.bool (op.relates m n)) := by
  intro h
  have hequal := h 9007199254740992 9007199254740993 (by decide) (by decide)
    (twoVariables _ _) rfl rfl .equal
  rw [evaluateText_variableTest (by decide) (by decide) rfl rfl (compareValues_integers .equal),
    Except.ok.injEq, Value.bool.injEq] at hequal
  exact absurd hequal (by decide +kernel)

end Condition

end Transclude
