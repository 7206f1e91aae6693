/-
The texts of numbers, as tests read them.

* `Numeral` — digits with an optional sign and an optional fraction, which is all that a test takes
  for a number;
* `Numeral.feed_text`, `Numeral.flush_reading` — a numeral is one token;
* `Number.exists_numeral` — a number that is written without an exponent is written as a numeral of
  exactly its own value;
* `Number.exists_scientific` — any other is written as a numeral and an exponent, and a test goes on
  with the exponent as with another word.

Design notes: whether a number is written with an exponent is a question of its magnitude
(`Number.IsPositional`).  The digits are those of the shortest decimal, and reading them takes only
their value, so that it does not matter where the point stands and how many zeros there are.
-/
import Mathlib.Data.List.TakeWhile
import Mathlib.Tactic.IntervalCases
import Transclude.Proofs.Quotation
import Transclude.Proofs.Shortest

namespace Transclude

/-! ### Digits -/

theorem digitsValue_append (a b : List Char) :
    digitsValue (a ++ b) = Nat.ofDigitChars 10 b (digitsValue a) :=
  Nat.ofDigitChars_append 0

theorem digitsValue_append_zeros (a : List Char) (k : Nat) :
    digitsValue (a ++ List.replicate k '0') = digitsValue a * 10 ^ k := by
  rw [digitsValue_append, Nat.ofDigitChars_replicate_zero, Nat.mul_comm]

theorem digitsValue_zeros_append (k : Nat) (a : List Char) :
    digitsValue (List.replicate k '0' ++ a) = digitsValue a := by
  have hzeros : digitsValue (List.replicate k '0') = 0 := by
    rw [← List.nil_append (List.replicate k '0'), digitsValue_append_zeros]
    exact Nat.zero_mul _
  rw [digitsValue_append, hzeros]
  rfl

theorem digitsValue_toDigits (n : Nat) : digitsValue (Nat.toDigits 10 n) = n :=
  Nat.ofDigitChars_toDigits (by decide) (by decide)

theorem isDigit_toDigits {n : Nat} {c : Char} (h : c ∈ Nat.toDigits 10 n) : c.isDigit = true :=
  Nat.isDigit_of_mem_toDigits (by decide) (by decide) h

theorem mem_of_isDigit {c : Char} (h : c.isDigit = true) :
    c ∈ ['0', '1', '2', '3', '4', '5', '6', '7', '8', '9'] := by
  have hrange := Char.isDigit_iff_toNat.mp h
  rw [← Char.ofNat_toNat c]
  generalize c.toNat = n at hrange ⊢
  have hlow : 48 ≤ n := hrange.1
  have hhigh : n ≤ 57 := hrange.2
  interval_cases n <;> decide

/-- What holds of the ten digits holds of every digit. -/
theorem of_isDigit (p : Char → Prop) [DecidablePred p]
    (hp : ['0', '1', '2', '3', '4', '5', '6', '7', '8', '9'].all (fun c => decide (p c)) = true)
    {c : Char} (h : c.isDigit = true) : p c :=
  of_decide_eq_true (List.all_eq_true.mp hp c (mem_of_isDigit h))

/-! ### Digits and words in a test -/

namespace Condition.Reading

theorem step_blank_digit {d : Char} (hd : d.isDigit = true) :
    blank.step d = some ([], .whole [d]) :=
  of_isDigit (fun c => blank.step c = some ([], .whole [c])) (by decide) hd

/-- Characters that all go on a lexeme are added to it. -/
theorem feed_more {lexeme : List Char → Reading} {p : Char → Bool}
    (hstep : ∀ read c, p c = true → (lexeme read).step c = some ([], lexeme (c :: read)))
    {cs : List Char} (h : ∀ c ∈ cs, p c = true) (read : List Char) :
    (lexeme read).feed cs = some ([], lexeme (cs.reverse ++ read)) := by
  induction cs generalizing read with
  | nil => rfl
  | cons c cs ih =>
    rw [List.forall_mem_cons] at h
    rw [feed, hstep read c h.1, Option.bind_some, ih h.2]
    simp

theorem feed_whole {cs : List Char} (h : ∀ c ∈ cs, c.isDigit = true) (read : List Char) :
    (whole read).feed cs = some ([], .whole (cs.reverse ++ read)) :=
  feed_more (fun read c hc => by simp [step, next?, hc]) h read

theorem feed_fraction {cs : List Char} (h : ∀ c ∈ cs, c.isDigit = true) (read : List Char) :
    (fraction read).feed cs = some ([], .fraction (cs.reverse ++ read)) :=
  feed_more (fun read c hc => by simp [step, next?, hc]) h read

theorem feed_word {cs : List Char} (h : ∀ c ∈ cs, isWordChar c = true) (read : List Char) :
    (word read).feed cs = some ([], .word (cs.reverse ++ read)) :=
  feed_more (fun read c hc => by simp [step, next?, hc]) h read

/-- A point and digits go on a lexeme of digits. -/
theorem feed_point {cs : List Char} (hne : cs ≠ []) (h : ∀ c ∈ cs, c.isDigit = true)
    (read : List Char) :
    (whole read).feed ('.' :: cs) = some ([], .fraction (cs.reverse ++ '.' :: read)) := by
  cases cs with
  | nil => exact absurd rfl hne
  | cons c cs =>
    rw [List.forall_mem_cons] at h
    have hpoint : (whole read).step '.' = some ([], .point read) := rfl
    have hfirst : (point read).step c = some ([], .fraction (c :: '.' :: read)) := by
      simp [step, next?, h.1]
    rw [feed, hpoint, Option.bind_some, feed, hfirst, Option.bind_some, feed_fraction h.2]
    simp

end Condition.Reading

/-- The sign of a written number. -/
def signText (negative : Bool) : List Char := if negative then ['-'] else []

/-! ### Numerals -/

/-- A number as a test writes it. -/
structure Numeral where
  negative : Bool
  whole : List Char
  fraction : List Char
  whole_ne_nil : whole ≠ []
  isDigit_whole : ∀ c ∈ whole, c.isDigit = true
  isDigit_fraction : ∀ c ∈ fraction, c.isDigit = true

namespace Numeral

/-- The digits with the point. -/
def unsigned (n : Numeral) : List Char :=
  n.whole ++ if n.fraction = [] then [] else '.' :: n.fraction

/-- The text of a numeral. -/
def text (n : Numeral) : List Char := signText n.negative ++ n.unsigned

/-- The decimal of a numeral, without the sign. -/
def decimal (n : Numeral) : Decimal := .ofParts n.whole n.fraction 0

/-- The number of a numeral. -/
def toBinary64 (n : Numeral) : Binary64 := n.decimal.toBinary64 n.negative

/-! ### The number of a numeral -/

theorem ofText?_unsigned (n : Numeral) : Decimal.ofText? n.unsigned = some n.decimal := by
  have hempty : n.whole.isEmpty = false := by simpa using n.whole_ne_nil
  by_cases hf : n.fraction = []
  · have htext : n.unsigned = n.whole := by rw [unsigned, if_pos hf, List.append_nil]
    have htake : n.whole.takeWhile Char.isDigit = n.whole :=
      List.takeWhile_eq_self_iff.mpr n.isDigit_whole
    have hdrop : n.whole.dropWhile Char.isDigit = [] :=
      List.dropWhile_eq_nil_iff.mpr n.isDigit_whole
    simp [Decimal.ofText?, htext, htake, hdrop, hempty, decimal, hf, Decimal.exponent?]
  · have htext : n.unsigned = n.whole ++ '.' :: n.fraction := by rw [unsigned, if_neg hf]
    have htake : (n.whole ++ '.' :: n.fraction).takeWhile Char.isDigit = n.whole := by
      rw [List.takeWhile_append_of_pos n.isDigit_whole,
        List.takeWhile_cons_of_neg (by decide), List.append_nil]
    have hdrop : (n.whole ++ '.' :: n.fraction).dropWhile Char.isDigit = '.' :: n.fraction := by
      rw [List.dropWhile_append_of_pos n.isDigit_whole, List.dropWhile_cons_of_neg (by decide)]
    have htake' : n.fraction.takeWhile Char.isDigit = n.fraction :=
      List.takeWhile_eq_self_iff.mpr n.isDigit_fraction
    have hdrop' : n.fraction.dropWhile Char.isDigit = [] :=
      List.dropWhile_eq_nil_iff.mpr n.isDigit_fraction
    simp [Decimal.ofText?, htext, htake, hdrop, htake', hdrop', hempty, decimal,
      Decimal.exponent?]

/-- A numeral begins with a digit, up to its sign. -/
theorem exists_cons (n : Numeral) : ∃ d ds, n.whole = d :: ds ∧ d.isDigit = true := by
  cases hw : n.whole with
  | nil => exact absurd hw n.whole_ne_nil
  | cons d ds => exact ⟨d, ds, rfl, n.isDigit_whole d (hw ▸ List.mem_cons_self)⟩

/-- A text that begins with a digit is no name of a special number. -/
theorem ofUnsignedText?_cons {d : Char} (hd : d.isDigit = true) (negative : Bool) (cs : List Char) :
    Binary64.ofUnsignedText? negative (d :: cs) =
      (Decimal.ofText? (d :: cs)).map (Decimal.toBinary64 negative) := by
  have hlower : d.toLower ≠ 'i' ∧ d.toLower ≠ 'n' :=
    of_isDigit (fun c => c.toLower ≠ 'i' ∧ c.toLower ≠ 'n') (by decide) hd
  simp [Binary64.ofUnsignedText?, hlower.1, hlower.2]

theorem ofText?_cons {d : Char} (hd : d.isDigit = true) (cs : List Char) :
    Binary64.ofText? (d :: cs) = Binary64.ofUnsignedText? false (d :: cs) := by
  have hsign : d ≠ '-' ∧ d ≠ '+' := by
    constructor <;> rintro rfl <;> cases hd
  unfold Binary64.ofText?
  split
  · rename_i h
    exact absurd (List.cons.inj h).1 hsign.1
  · rename_i h
    exact absurd (List.cons.inj h).1 hsign.2
  · rfl

theorem ofText?_text (n : Numeral) : Binary64.ofText? n.text = some n.toBinary64 := by
  obtain ⟨d, ds, hw, hd⟩ := n.exists_cons
  have hcons : ∃ cs, n.unsigned = d :: cs := ⟨_, by rw [unsigned, hw, List.cons_append]⟩
  obtain ⟨cs, hcs⟩ := hcons
  have hunsigned : Binary64.ofUnsignedText? n.negative n.unsigned = some n.toBinary64 := by
    rw [hcs, ofUnsignedText?_cons hd, ← hcs, ofText?_unsigned]
    rfl
  rw [text, signText]
  cases hn : n.negative with
  | true => rw [← hunsigned, hn]; rfl
  | false =>
    rw [hn] at hunsigned
    rw [if_neg Bool.false_ne_true, List.nil_append, ← hunsigned, hcs, ofText?_cons hd]

/-! ### Numerals in a test -/

open Condition

/-- Where the scanner stands after a numeral. -/
def reading (n : Numeral) : Reading :=
  if n.fraction = [] then .whole n.text.reverse else .fraction n.text.reverse

/-- The digits before the point, with the sign, are one lexeme. -/
theorem feed_signed (n : Numeral) :
    Reading.blank.feed (signText n.negative ++ n.whole) =
      some ([], .whole (signText n.negative ++ n.whole).reverse) := by
  obtain ⟨d, ds, hw, hd⟩ := n.exists_cons
  have hds : ∀ c ∈ ds, c.isDigit = true := by
    intro c hc
    exact n.isDigit_whole c (hw ▸ List.mem_cons_of_mem d hc)
  rw [hw, signText]
  cases n.negative with
  | true =>
    have hminus : Reading.blank.step '-' = some ([], .minus) := rfl
    have hstep : Reading.minus.step d = some ([], .whole [d, '-']) := by
      simp [Reading.step, Reading.next?, hd]
    rw [if_pos rfl, List.singleton_append, Reading.feed, hminus, Option.bind_some, Reading.feed,
      hstep, Option.bind_some, Reading.feed_whole hds]
    simp
  | false =>
    rw [if_neg Bool.false_ne_true, List.nil_append, Reading.feed, Reading.step_blank_digit hd,
      Option.bind_some, Reading.feed_whole hds]
    simp

/-- A numeral is one lexeme. -/
theorem feed_text (n : Numeral) : Reading.blank.feed n.text = some ([], n.reading) := by
  have hsigned := n.feed_signed
  rw [reading, text, unsigned]
  by_cases hf : n.fraction = []
  · rw [if_pos hf, if_pos hf, List.append_nil, hsigned]
  · rw [if_neg hf, if_neg hf, ← List.append_assoc, Reading.feed_append, hsigned, Option.bind_some,
      Reading.feed_point hf n.isDigit_fraction]
    simp

theorem flush_reading (n : Numeral) :
    n.reading.flush = some [.literal (.number n.toBinary64)] := by
  have htoken : numberToken n.text = .literal (.number n.toBinary64) := by
    rw [numberToken, ofText?_text, Option.getD_some]
  rw [reading, ← htoken]
  split <;> simp [Reading.flush, Scanner.flush, Except.toOption]

/-- A numeral begins with a digit or a dash. -/
theorem exists_wordChar (n : Numeral) : ∃ c cs, n.text = c :: cs ∧ isWordChar c = true := by
  obtain ⟨d, ds, hw, hd⟩ := n.exists_cons
  rw [text, unsigned, hw, signText]
  cases n.negative with
  | true => exact ⟨_, _, rfl, rfl⟩
  | false => exact ⟨d, _, rfl, by simp [isWordChar, Char.isAlphanum, hd]⟩

/-- An `e` after a numeral begins a word. -/
theorem step_reading (n : Numeral) :
    n.reading.step 'e' = some ([.literal (.number n.toBinary64)], .word ['e']) := by
  have hnext : n.reading.next? 'e' = none := by
    rw [reading]
    split <;> rfl
  have hbegin : Reading.begin 'e' = some ([], .word ['e']) := rfl
  rw [Reading.step, hnext, flush_reading, hbegin]
  rfl

/-- A positive exponent begins no token. -/
theorem feed_exponent (n : Numeral) (cs : List Char) :
    Reading.blank.feed (n.text ++ 'e' :: '+' :: cs) = none := by
  have hplus : (Reading.word ['e']).step '+' = none := rfl
  rw [Reading.feed_append, feed_text, Option.bind_some, Reading.feed, step_reading,
    Option.bind_some, Reading.feed, hplus]
  rfl

/-- A negative exponent is a word of its own. -/
theorem feed_negative_exponent (n : Numeral) {cs : List Char} (h : ∀ c ∈ cs, c.isDigit = true) :
    Reading.blank.feed (n.text ++ 'e' :: '-' :: cs) =
      some ([.literal (.number n.toBinary64)], .word ('e' :: '-' :: cs).reverse) := by
  have hword : ∀ c ∈ '-' :: cs, isWordChar c = true := by
    rw [List.forall_mem_cons]
    refine ⟨rfl, fun c hc => ?_⟩
    simp [isWordChar, Char.isAlphanum, h c hc]
  rw [Reading.feed_append, feed_text, Option.bind_some, Reading.feed, step_reading,
    Option.bind_some, Reading.feed_word hword]
  simp

end Numeral

/-! ### The texts of numbers -/

/-- Digits with a point are a numeral of the same value. -/
theorem exists_positional (negative : Bool) {digits : List Char} (hne : digits ≠ [])
    (hd : ∀ c ∈ digits, c.isDigit = true) (exponent : Int) :
    ∃ n : Numeral, signText negative ++ Layout.positionalText true digits exponent = n.text ∧
      n.negative = negative ∧ n.decimal.value = Decimal.value ⟨digitsValue digits, exponent⟩ := by
  have hzeros : ∀ k, ∀ c ∈ List.replicate k '0', c.isDigit = true := by
    intro k c hc
    rw [List.eq_of_mem_replicate hc]
    rfl
  rw [Layout.positionalText]
  simp only [if_true]
  split
  · -- zeros up to the point, and one after it
    rename_i he
    refine ⟨⟨negative, digits ++ List.replicate exponent.toNat '0', ['0'], by simp [hne],
      List.forall_mem_append.mpr ⟨hd, hzeros _⟩, hzeros 1⟩, ?_, rfl, ?_⟩
    · simp [Numeral.text, Numeral.unsigned]
    · have hall : digits ++ List.replicate exponent.toNat '0' ++ ['0'] =
          digits ++ List.replicate (exponent.toNat + 1) '0' := by
        rw [List.replicate_succ', List.append_assoc]
      have hexp : (0 : Int) - 1 + (exponent.toNat + 1 : Nat) = exponent := by omega
      rw [Numeral.decimal, Decimal.ofParts, hall, digitsValue_append_zeros, Decimal.value_mul_pow,
        List.length_singleton, Nat.cast_one, hexp]
  split
  · -- the point is among the digits
    rename_i he hplaces
    generalize hplace : digits.length - (-exponent).toNat = place
    refine ⟨⟨negative, digits.take place, digits.drop place, ?_,
      fun c hc => hd c (List.mem_of_mem_take hc), fun c hc => hd c (List.mem_of_mem_drop hc)⟩,
      ?_, rfl, ?_⟩
    · rw [Ne, List.take_eq_nil_iff, not_or]
      exact ⟨by omega, hne⟩
    · have hfraction : digits.drop place ≠ [] := by
        rw [Ne, List.drop_eq_nil_iff]
        omega
      rw [Numeral.text, Numeral.unsigned, if_neg hfraction]
    · have hexp : (0 : Int) - (digits.length - place : Nat) = exponent := by omega
      rw [Numeral.decimal, Decimal.ofParts, List.take_append_drop, List.length_drop, hexp]
  · -- zeros after the point
    rename_i he hplaces
    refine ⟨⟨negative, ['0'], List.replicate ((-exponent).toNat - digits.length) '0' ++ digits,
      by simp, hzeros 1, List.forall_mem_append.mpr ⟨hzeros _, hd⟩⟩, ?_, rfl, ?_⟩
    · simp [Numeral.text, Numeral.unsigned, hne]
    · have hall := digitsValue_zeros_append ((-exponent).toNat - digits.length + 1) digits
      have hlength : (0 : Int) - ((-exponent).toNat - digits.length + digits.length : Nat) =
          exponent := by omega
      rw [List.replicate_succ, List.cons_append] at hall
      rw [Numeral.decimal, Decimal.ofParts, List.singleton_append, hall, List.length_append,
        List.length_replicate, hlength]

/-- The digits before an exponent are a numeral. -/
theorem exists_mantissa (negative : Bool) {digits : List Char} (hne : digits ≠ [])
    (hd : ∀ c ∈ digits, c.isDigit = true) (exponent : Int) :
    ∃ (n : Numeral) (sign : Char) (power : Nat), (sign = '+' ∨ sign = '-') ∧
      signText negative ++ Layout.scientificText digits exponent =
        n.text ++ 'e' :: sign :: Nat.toDigits 10 power := by
  cases digits with
  | nil => exact absurd rfl hne
  | cons d ds =>
    rw [List.forall_mem_cons] at hd
    refine ⟨⟨negative, [d], ds, List.cons_ne_nil d [], by simpa using hd.1, hd.2⟩,
      if exponent + (((d :: ds).length : Int) - 1) < 0 then '-' else '+',
      (exponent + (((d :: ds).length : Int) - 1)).natAbs, ?_, ?_⟩
    · split <;> simp
    · cases ds <;> simp [Layout.scientificText, Numeral.text, Numeral.unsigned]

/-- A layout with bounds for the powers of ten that are written without an exponent. -/
theorem Layout.write_bounded {layout : Layout} {low high : Int} {x : Binary64.Finite}
    (h : layout.positional = some (low, high)) (hx : x.significand ≠ 0) :
    let d := Decimal.shortest layout.tie x
    layout.write x = signText x.negative ++
      if low ≤ d.power ∧ d.power ≤ high then
        positionalText layout.wholeMark (Nat.toDigits 10 d.digits) d.exponent
      else scientificText (Nat.toDigits 10 d.digits) d.exponent := by
  intro d
  rw [write, if_neg hx]
  simp only [h, decide_eq_true_eq]
  rfl

namespace Number

/-- The numbers that are written without an exponent. -/
def IsPositional : Number → Prop
  | integer _ _ => True
  | float x => x.significand = 0 ∨
      (10 : ℚ) ^ (-5 : Int) ≤ x.value ∧ x.value < (10 : ℚ) ^ (16 : Int)

/-- Which numbers these are is a comparison of natural numbers. -/
theorem isPositional_float {x : Binary64.Finite} :
    (float x).IsPositional ↔ x.significand = 0 ∨
      Binary64.scale ≤ x.magnitude * 10 ^ 5 ∧ x.magnitude < 10 ^ 16 * Binary64.scale := by
  have hlow := Decimal.value_le_iff (d := ⟨1, -5⟩) (x := x)
  have hhigh := Decimal.value_le_iff (d := ⟨1, 16⟩) (x := x)
  rw [Decimal.value_one] at hlow hhigh
  rw [IsPositional, ← not_le (a := (10 : ℚ) ^ (16 : Int)), hlow, hhigh, not_le]
  simp

instance : (n : Number) → Decidable n.IsPositional
  | integer _ _ => .isTrue trivial
  | float _ => decidable_of_iff _ isPositional_float.symm

theorem exists_finite (n : Number) : ∃ x, n.toBinary64 = .finite x := by
  cases n with
  | integer i h => exact Binary64.exists_ofInt_eq_finite h
  | float x => exact ⟨x, rfl⟩

theorem toJson_zero {x : Binary64.Finite} (hx : x.significand = 0) :
    (float x).toJson = signText x.negative ++ Layout.positionalText true ['0'] 0 := by
  rw [toJson, Layout.write, if_pos hx]
  rfl

/-- The text of a number that is not zero, by its magnitude. -/
theorem toJson_float {x : Binary64.Finite} (hx : x.significand ≠ 0) :
    let d := Decimal.shortest .toEven x
    ((float x).IsPositional → (float x).toJson =
      signText x.negative ++ Layout.positionalText true (Nat.toDigits 10 d.digits) d.exponent) ∧
    (¬(float x).IsPositional → (float x).toJson =
      signText x.negative ++ Layout.scientificText (Nat.toDigits 10 d.digits) d.exponent) := by
  intro d
  have hpositional : (float x).IsPositional ↔ -5 ≤ d.power ∧ d.power ≤ 15 := by
    rw [IsPositional, or_iff_right hx, Decimal.power_shortest_iff .toEven hx]
  have hwrite : (float x).toJson = signText x.negative ++
      if -5 ≤ d.power ∧ d.power ≤ 15 then
        Layout.positionalText true (Nat.toDigits 10 d.digits) d.exponent
      else Layout.scientificText (Nat.toDigits 10 d.digits) d.exponent :=
    Layout.write_bounded (show layout.positional = some (-5, 15) from rfl) hx
  rw [hpositional, hwrite]
  exact ⟨fun h => by rw [if_pos h], fun h => by rw [if_neg h]⟩

/-- An integer is written as a numeral without a fraction. -/
theorem exists_whole_numeral {i : Int} (hi) :
    ∃ m : Numeral, m.fraction = [] ∧ (integer i hi).toJson = m.text ∧
      m.toBinary64 = (integer i hi).toBinary64 := by
  refine ⟨⟨decide (i < 0), Nat.toDigits 10 i.natAbs, [], Nat.toDigits_ne_nil,
    fun c hc => isDigit_toDigits hc, by simp⟩, rfl, ?_, ?_⟩
  · simp [toJson, Numeral.text, Numeral.unsigned, signText]
  · rw [Numeral.toBinary64, Decimal.toBinary64_eq_ofRatio, Numeral.decimal, Decimal.ofParts,
      List.append_nil, digitsValue_toDigits]
    simp [toBinary64, Binary64.ofInt]

/-- **Numbers of moderate magnitude are written as numerals**, which are read as exactly them. -/
theorem exists_numeral {n : Number} (h : n.IsPositional) :
    ∃ m : Numeral, n.toJson = m.text ∧ m.toBinary64 = n.toBinary64 := by
  cases n with
  | integer i hi =>
    obtain ⟨m, -, htext, hvalue⟩ := exists_whole_numeral hi
    exact ⟨m, htext, hvalue⟩
  | float x =>
    by_cases hx : x.significand = 0
    · obtain ⟨m, htext, hnegative, hvalue⟩ :=
        exists_positional x.negative (List.cons_ne_nil '0' []) (by simp) 0
      refine ⟨m, (toJson_zero hx).trans htext, ?_⟩
      have hzero : Decimal.value ⟨digitsValue ['0'], 0⟩ = x.value := by
        rw [Binary64.Finite.value, Binary64.Finite.magnitude, hx, Nat.zero_mul, Nat.cast_zero,
          zero_div, Decimal.value]
        exact zero_mul _
      rw [Numeral.toBinary64, hnegative, Decimal.toBinary64_of_value (hvalue.trans hzero)]
      rfl
    · obtain ⟨m, htext, hnegative, hvalue⟩ := exists_positional x.negative Nat.toDigits_ne_nil
        (fun c hc => isDigit_toDigits hc) (Decimal.shortest .toEven x).exponent
      refine ⟨m, ((toJson_float hx).1 h).trans htext, ?_⟩
      rw [digitsValue_toDigits] at hvalue
      rw [Numeral.toBinary64, hnegative, Decimal.toBinary64_congr hvalue,
        Decimal.toBinary64_shortest]
      rfl

/-- **All other numbers have an exponent** after a numeral. -/
theorem exists_scientific {n : Number} (h : ¬n.IsPositional) :
    ∃ (m : Numeral) (sign : Char) (power : Nat), (sign = '+' ∨ sign = '-') ∧
      n.toJson = m.text ++ 'e' :: sign :: Nat.toDigits 10 power := by
  cases n with
  | integer i hi => exact absurd trivial h
  | float x =>
    have hx : x.significand ≠ 0 := fun hx => h (.inl hx)
    rw [(toJson_float hx).2 h]
    exact exists_mantissa x.negative Nat.toDigits_ne_nil (fun c hc => isDigit_toDigits hc) _

/-- The number 0.1, which is between two numbers of the format. -/
def tenth : Number := .float ⟨false, 7205759403792794, 1018, by decide⟩

/-- The number 10^16, the least one that is written with an exponent. -/
def tenQuadrillion : Number := .float ⟨false, 5000000000000000, 1075, by decide⟩

example : tenth.toJson = "0.1".toList := by decide +kernel

example : tenQuadrillion.toJson = "1e+16".toList := by decide +kernel

end Number

end Transclude
