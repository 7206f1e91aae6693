/-
Decimal text of binary64 numbers.

A decimal is a natural number of digits times a power of ten.  Reading rounds it to the nearest
binary64 number; writing picks the fewest digits that read back.

* `Decimal.shortest` — the search walks from one digit upwards over the decimal grids around the
  exact expansion, and ends at the latest at the expansion itself;
* `Layout` — the decisions of a written form that the digits leave open;
* `Binary64.ofText?` — the texts that name a number.

Design notes: every finite number has a finite decimal expansion (`Finite.expansion`), so "the two
neighbours on the grid of n digits" is a division of its digits by a power of ten, and no
approximation enters.  Exponents are cut off where every number is zero or beyond the largest one,
so that a text with a huge exponent costs nothing.  The digits of an exponent are read until it is far
out; only a text of tens of thousands of digits can tell.
-/
import Transclude.Number.Binary64

namespace Transclude

/-- The number `digits · 10^exponent`. -/
structure Decimal where
  digits : Nat
  exponent : Int
  deriving DecidableEq

/-- The number of decimal digits; zero has one. -/
def digitCount (n : Nat) : Nat := (Nat.toDigits 10 n).length

namespace Decimal

/-- The nearest binary64 number.  From 10^311 on every number is infinite, and below 10^-330 every
number is zero.  The powers of ten around the number are estimated from its bits: three bits are less
than one digit, and ten bits are more than three. -/
def toBinary64 (negative : Bool) (d : Decimal) : Binary64 :=
  let lowest : Int := d.exponent + (d.digits.log2 * 3 / 10 : Nat)
  let highest : Int := d.exponent + (d.digits.log2 / 3 + 2 : Nat)
  if d.digits = 0 then .finite (.zero negative)
  else if 310 < lowest then .infinite negative
  else if highest < -330 then .finite (.zero negative)
  else if 0 ≤ d.exponent then Binary64.ofRatio negative (d.digits * Nat.pow 10 d.exponent.toNat) 1
  else Binary64.ofRatio negative d.digits (Nat.pow 10 (-d.exponent).toNat)

/-- The same number without zeros at the end of its digits, of which there are at most `fuel`. -/
def strip : Nat → Decimal → Decimal
  | 0, d => d
  | fuel + 1, d =>
    if d.digits ≠ 0 ∧ d.digits % 10 = 0 then strip fuel ⟨d.digits / 10, d.exponent + 1⟩ else d

end Decimal

namespace Binary64.Finite

/-- The exact decimal expansion of the value without its sign. -/
def expansion (x : Finite) : Decimal :=
  if 1074 ≤ x.exponent then ⟨x.significand * Nat.pow 2 (x.exponent - 1074), 0⟩
  else ⟨x.significand * Nat.pow 5 (1074 - x.exponent), -((1074 - x.exponent : Nat) : Int)⟩

end Binary64.Finite

/-- Which of two equally near decimals is written. -/
inductive Tie where
  | toEven
  | up
  deriving DecidableEq

namespace Decimal

/-- The grid point that reads back as `x`, when the last `dropped` digits of its expansion are
left out: of the two neighbours the nearer one. -/
def onGrid? (tie : Tie) (x : Binary64.Finite) (dropped : Nat) : Option Decimal :=
  let exact := x.expansion
  let step := Nat.pow 10 dropped
  let rest := exact.digits % step
  let lower : Decimal := ⟨exact.digits / step, exact.exponent + dropped⟩
  let upper : Decimal := ⟨exact.digits / step + 1, exact.exponent + dropped⟩
  let readsBack (d : Decimal) : Bool := d.toBinary64 x.negative = .finite x
  let upperNearer : Bool :=
    step < 2 * rest || (2 * rest == step && (tie == .up || lower.digits % 2 == 1))
  if rest = 0 then if readsBack lower then some lower else none
  else if upperNearer && readsBack upper then some upper
  else if readsBack lower then some lower
  else if readsBack upper then some upper
  else none

/-- The first grid with a hit, leaving out at most `dropped` digits of the expansion. -/
def shortestFrom (tie : Tie) (x : Binary64.Finite) : Nat → Decimal
  | 0 => x.expansion
  | dropped + 1 =>
    match onGrid? tie x (dropped + 1) with
    | some d => d
    | none => shortestFrom tie x dropped

/-- The fewest digits that read back as `x`; of several the nearest to its value. -/
def shortest (tie : Tie) (x : Binary64.Finite) : Decimal :=
  let count := digitCount x.expansion.digits
  strip count (shortestFrom tie x (count - 1))

end Decimal

/-! ### Written forms -/

/-- How a finite number is written. -/
structure Layout where
  /-- The choice between two equally near shortest decimals. -/
  tie : Tie
  /-- The exponents of `d.ddd · 10^exponent` written without an exponent; `none` is all of them. -/
  positional : Option (Int × Int)
  /-- Whether a whole number is marked by `.0`. -/
  wholeMark : Bool

namespace Layout

/-- The digits with a point at the place that the exponent says. -/
def positionalText (wholeMark : Bool) (digits : List Char) (exponent : Int) : List Char :=
  let mark := if wholeMark then ['.', '0'] else []
  if 0 ≤ exponent then digits ++ List.replicate exponent.toNat '0' ++ mark
  else
    let places := (-exponent).toNat
    if places < digits.length then
      digits.take (digits.length - places) ++ '.' :: digits.drop (digits.length - places)
    else '0' :: '.' :: List.replicate (places - digits.length) '0' ++ digits

/-- One digit before the point and the exponent, always signed, after an `e`. -/
def scientificText (digits : List Char) (exponent : Int) : List Char :=
  let power : Int := exponent + ((digits.length : Int) - 1)
  let mantissa :=
    match digits with
    | [] => []
    | [d] => [d]
    | d :: ds => d :: '.' :: ds
  mantissa ++ 'e' :: (if power < 0 then '-' else '+') :: Nat.toDigits 10 power.natAbs

/-- The written form of a finite number. -/
def write (layout : Layout) (x : Binary64.Finite) : List Char :=
  let sign := if x.negative then ['-'] else []
  if x.significand = 0 then sign ++ positionalText layout.wholeMark ['0'] 0
  else
    let d := Decimal.shortest layout.tie x
    let digits := Nat.toDigits 10 d.digits
    let power : Int := d.exponent + ((digits.length : Int) - 1)
    let positional :=
      match layout.positional with
      | none => true
      | some (low, high) => decide (low ≤ power ∧ power ≤ high)
    sign ++ (if positional then positionalText layout.wholeMark digits d.exponent
      else scientificText digits d.exponent)

end Layout

/-! ### Reading -/

/-- The value of a list of decimal digits. -/
def digitsValue (cs : List Char) : Nat :=
  cs.foldl (fun n c => 10 * n + (c.toNat - '0'.toNat)) 0

namespace Decimal

/-- The decimal written as `whole.fraction`, two lists of digits. -/
def ofParts (whole fraction : List Char) (exponent : Int) : Decimal :=
  ⟨digitsValue (whole ++ fraction), exponent - fraction.length⟩

/-- The absolute value of an exponent.  Once it has come to 65536 no further digit counts. -/
def exponentValue (cs : List Char) : Nat :=
  cs.foldl (fun n c => if n < 65536 then 10 * n + (c.toNat - '0'.toNat) else n) 0

/-- An exponent part: nothing, or `e`, an optional sign and at least one digit. -/
def exponent? : List Char → Option Int
  | [] => some 0
  | c :: cs =>
    if c = 'e' ∨ c = 'E' then
      let (negative, ds) :=
        match cs with
        | '-' :: ds => (true, ds)
        | '+' :: ds => (false, ds)
        | ds => (false, ds)
      if ds.isEmpty || !ds.all Char.isDigit then none
      else
        let n : Int := exponentValue ds
        some (if negative then -n else n)
    else none

/-- An unsigned decimal: digits with an optional point, at least one of them, and an optional
exponent part. -/
def ofText? (cs : List Char) : Option Decimal :=
  let whole := cs.takeWhile Char.isDigit
  let afterWhole := cs.dropWhile Char.isDigit
  let (fraction, tail) :=
    match afterWhole with
    | '.' :: r => (r.takeWhile Char.isDigit, r.dropWhile Char.isDigit)
    | r => ([], r)
  if whole.isEmpty && fraction.isEmpty then none
  else (exponent? tail).map (ofParts whole fraction)

end Decimal

namespace Binary64

/-- The number without a sign that a text names: a decimal, or `inf`, `infinity` or `nan` in
letters of either case. -/
def ofUnsignedText? (negative : Bool) (cs : List Char) : Option Binary64 :=
  let lower := cs.map Char.toLower
  if lower = ['i', 'n', 'f'] ∨ lower = ['i', 'n', 'f', 'i', 'n', 'i', 't', 'y'] then
    some (.infinite negative)
  else if lower = ['n', 'a', 'n'] then some .nan
  else (Decimal.ofText? cs).map (Decimal.toBinary64 negative)

/-- The number that a text names, with an optional sign in front. -/
def ofText? : List Char → Option Binary64
  | '-' :: cs => ofUnsignedText? true cs
  | '+' :: cs => ofUnsignedText? false cs
  | cs => ofUnsignedText? false cs

end Binary64

end Transclude
