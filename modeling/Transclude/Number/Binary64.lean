/-
Binary floating point numbers of 64 bits, as data.

A finite number is a sign, a significand below 2^53 and an exponent, in the one canonical form of
its value: `± significand · 2^exponent` units of 2^-1074.  Counted in these units every finite
number is an integer (`Finite.units`), so comparing two numbers is comparing two integers.

* `compare?_finite` — finite numbers are ordered as integers are;
* `compare?_swap` — swapping the operands swaps the ordering, and keeps a missing one missing.

Design notes: rounding (`ofRatio`) is exact natural-number arithmetic on a quotient, to the nearest
number and to the even significand in the middle.  The dependent `if` in `ofParts` keeps the
canonical form in the type: what does not fit is beyond the largest finite number.
-/

namespace Transclude

namespace Binary64

/-- The bounds of the canonical form; only the smallest exponent has significands below 2^52. -/
def Canonical (significand exponent : Nat) : Prop :=
  significand < 9007199254740992 ∧ exponent ≤ 2045 ∧
    (exponent = 0 ∨ 4503599627370496 ≤ significand)

instance (significand exponent : Nat) : Decidable (Canonical significand exponent) := by
  unfold Canonical; infer_instance

/-- A finite number: `± significand · 2^exponent` units of 2^-1074. -/
structure Finite where
  negative : Bool
  significand : Nat
  exponent : Nat
  canonical : Canonical significand exponent
  deriving DecidableEq

end Binary64

/-- A number of the binary64 format. -/
inductive Binary64 where
  | finite (value : Binary64.Finite)
  | infinite (negative : Bool)
  | nan
  deriving DecidableEq

namespace Binary64.Finite

/-- The value without its sign, in units of 2^-1074. -/
def magnitude (x : Finite) : Nat := x.significand * Nat.pow 2 x.exponent

/-- The value in units of 2^-1074; both zeros have none. -/
def units (x : Finite) : Int := if x.negative then -(x.magnitude : Int) else x.magnitude

/-- Zero of the given sign. -/
def zero (negative : Bool) : Finite := ⟨negative, 0, 0, by decide⟩

end Binary64.Finite

namespace Binary64

/-- The number with these parts, or infinity if they are past the largest finite number. -/
def ofParts (negative : Bool) (significand exponent : Nat) : Binary64 :=
  if h : Canonical significand exponent then .finite ⟨negative, significand, exponent, h⟩
  else .infinite negative

/-- The natural number nearest to a quotient, the even one of two equally near. -/
def divRoundEven (num den : Nat) : Nat :=
  let q := num / den
  let r := num % den
  if 2 * r < den then q else if den < 2 * r then q + 1 else q + q % 2

/-- The number nearest to the quotient `num / den`. -/
def ofRatio (negative : Bool) (num den : Nat) : Binary64 :=
  let scaled := num * Nat.pow 2 1074
  let whole := scaled / den
  let exponent := whole.log2 - 52
  let significand := divRoundEven scaled (den * Nat.pow 2 exponent)
  if significand = 9007199254740992 then ofParts negative 4503599627370496 (exponent + 1)
  else ofParts negative significand exponent

/-- The number nearest to an integer. -/
def ofInt (i : Int) : Binary64 := ofRatio (decide (i < 0)) i.natAbs 1

/-- The ordering of two numbers; a number that is not one has no place in the order. -/
def compare? : Binary64 → Binary64 → Option Ordering
  | .nan, _ => none
  | _, .nan => none
  | .finite x, .finite y => some (compare x.units y.units)
  | .infinite a, .infinite b => some (compare b a)
  | .infinite a, .finite _ => some (if a then .lt else .gt)
  | .finite _, .infinite b => some (if b then .gt else .lt)

/-- Numeric equality: the zeros are equal, and what is not a number equals nothing. -/
def numericEq (x y : Binary64) : Bool := compare? x y == some .eq

theorem compare?_finite (x y : Finite) :
    compare? (.finite x) (.finite y) = some (compare x.units y.units) := rfl

theorem compare?_swap (x y : Binary64) : compare? y x = (compare? x y).map Ordering.swap := by
  cases x with
  | nan => cases y <;> rfl
  | infinite a =>
    cases y with
    | nan => rfl
    | infinite b => cases a <;> cases b <;> rfl
    | finite y => cases a <;> rfl
  | finite x =>
    cases y with
    | nan => rfl
    | infinite b => cases b <;> rfl
    | finite y => simp [compare?, Int.compare_swap]

/-! ### Arithmetic -/

/-- The exact product of two numbers that are not special, rounded once. -/
def mulFinite (x y : Finite) : Binary64 :=
  ofRatio (x.negative != y.negative) (x.magnitude * y.magnitude) (Nat.pow 2 2148)

/-- The exact quotient of a number by one that is not zero, rounded once. -/
def divFinite (x y : Finite) : Binary64 :=
  ofRatio (x.negative != y.negative) x.magnitude y.magnitude

end Binary64

end Transclude
