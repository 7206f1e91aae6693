/-
How the six comparisons of a test fit together.

Equality and ordering are decided apart, by different distinctions of cases: numbers, strings that
write a number, other strings, and values that have no order.

* `Value.same_refl`, `Value.same_comm` — equality of values is reflexive and symmetric;
* `order?_swap` — the ordering of two values turns round with them, and is missing in both
  directions or in none;
* `looselyEqual_of_order?` — where there is an ordering, it says whether the values are equal;
* `comparisons_coherent` — equality is total, symmetric and reflexive; the four orderings are all
  errors, or all follow from whether the left value is less, equal or greater.

Design notes: with an ordering all six comparisons are `Comparison.holds` of it
(`compareValues_of_order?`), so that the laws are facts about three orderings; without one the four
that ask for it fail (`compareValues_of_not_order?`).
-/
import Transclude.Condition.Evaluate
import Transclude.Proofs.Numeral

namespace Transclude

/-! ### Equality of values -/

namespace Value

mutual

theorem same_refl (v : Value) : v.same v = true := by
  cases v with
  | null => rfl
  | bool b => simp [same]
  | number n => exact n.same_refl
  | string s => simp [same]
  | array xs => exact sameItems_refl xs
  | object ms => exact sameMembers_refl ms

theorem sameItems_refl (xs : List Value) : sameItems xs xs = true := by
  cases xs with
  | nil => rfl
  | cons x xs => rw [sameItems, same_refl x, sameItems_refl xs, Bool.and_self]

theorem sameMembers_refl (ms : List (String × Value)) : sameMembers ms ms = true := by
  match ms with
  | [] => rfl
  | (k, v) :: ms => rw [sameMembers, same_refl v, sameMembers_refl ms, beq_self_eq_true,
      Bool.and_self, Bool.and_self]

end

mutual

theorem same_comm (v w : Value) : v.same w = w.same v := by
  cases v with
  | null => cases w <;> rfl
  | bool a => cases w with
    | bool b => exact Bool.beq_comm
    | _ => rfl
  | number m => cases w with
    | number n => exact m.same_comm n
    | _ => rfl
  | string s => cases w with
    | string t => exact Bool.beq_comm
    | _ => rfl
  | array xs => cases w with
    | array ys => exact sameItems_comm xs ys
    | _ => rfl
  | object ms => cases w with
    | object ns => exact sameMembers_comm ms ns
    | _ => rfl

theorem sameItems_comm (xs ys : List Value) : sameItems xs ys = sameItems ys xs := by
  match xs, ys with
  | [], [] => rfl
  | [], _ :: _ => rfl
  | _ :: _, [] => rfl
  | x :: xs, y :: ys => rw [sameItems, sameItems, same_comm x y, sameItems_comm xs ys]

theorem sameMembers_comm (ms ns : List (String × Value)) :
    sameMembers ms ns = sameMembers ns ms := by
  match ms, ns with
  | [], [] => rfl
  | [], _ :: _ => rfl
  | _ :: _, [] => rfl
  | (k, v) :: ms, (l, w) :: ns =>
    rw [sameMembers, sameMembers, same_comm v w, sameMembers_comm ms ns, Bool.beq_comm]

end

end Value

namespace Binary64

theorem numericEq_comm (x y : Binary64) : x.numericEq y = y.numericEq x := by
  rw [numericEq, numericEq, compare?_swap x y]
  cases compare? x y with
  | none => rfl
  | some o => cases o <;> rfl

end Binary64

namespace Condition

/-! ### Equality in a test -/

theorem looselyEqual_comm (l r : Value) : looselyEqual l r = looselyEqual r l := by
  cases l with
  | number m => cases r with
    | number n => exact Binary64.numericEq_comm _ _
    | _ => rfl
  | string s => cases r with
    | string t => exact Value.same_comm _ _
    | _ => rfl
  | _ => cases r <;> first | rfl | exact Value.same_comm _ _

theorem looselyEqual_refl (v : Value) : looselyEqual v v = true := by
  cases v with
  | number n =>
    -- the number of a value is finite, so it is equal to itself
    obtain ⟨x, hx⟩ := n.exists_finite
    rw [looselyEqual, hx, Binary64.numericEq, Binary64.compare?_finite]
    simp
  | _ => exact Value.same_refl _

/-! ### Ordering in a test -/

/-- Two strings are ordered by their characters. -/
theorem order?_strings (s t : String) :
    order? (.string s) (.string t) = some (Ord.compare s t) := rfl

/-- All other values are ordered as the numbers that they are or write. -/
theorem order?_numbers {l r : Value} (h : ¬(l.kind = .string ∧ r.kind = .string)) :
    order? l r = (number? l).bind fun x => (number? r).bind x.compare? := by
  unfold order?
  split
  · exact absurd ⟨rfl, rfl⟩ h
  · cases number? l <;> cases number? r <;> rfl

/-- Values with a number each, not both strings, are equal when their numbers are. -/
theorem looselyEqual_of_numbers {l r : Value} {x y : Binary64}
    (h : ¬(l.kind = .string ∧ r.kind = .string)) (hx : number? l = some x)
    (hy : number? r = some y) : looselyEqual l r = x.numericEq y := by
  cases l with
  | number m =>
    obtain rfl := Option.some.inj hx
    cases r with
    | number n => obtain rfl := Option.some.inj hy; rfl
    | string t =>
      have ht : numeric? t = some y := hy
      rw [looselyEqual, equalsText, ht]
      exact Binary64.numericEq_comm _ _
    | _ => cases hy
  | string s =>
    have hs : numeric? s = some x := hx
    cases r with
    | number n => obtain rfl := Option.some.inj hy; rw [looselyEqual, equalsText, hs]
    | string t => exact absurd ⟨rfl, rfl⟩ h
    | _ => cases hy
  | _ => cases hx

theorem eq_string_of_kind {v : Value} (h : v.kind = .string) : ∃ s, v = .string s := by
  cases v with
  | string s => exact ⟨s, rfl⟩
  | _ => cases h

theorem order?_swap (l r : Value) : order? r l = (order? l r).map Ordering.swap := by
  by_cases h : l.kind = .string ∧ r.kind = .string
  · obtain ⟨s, rfl⟩ := eq_string_of_kind h.1
    obtain ⟨t, rfl⟩ := eq_string_of_kind h.2
    rw [order?_strings, order?_strings, Option.map_some]
    exact congrArg some Std.OrientedCmp.eq_swap
  · rw [order?_numbers h, order?_numbers fun hr => h hr.symm]
    cases number? l with
    | none => cases number? r <;> rfl
    | some x => cases number? r with
      | none => rfl
      | some y => exact Binary64.compare?_swap x y

/-- Where two values have an ordering, it says whether they are equal. -/
theorem looselyEqual_of_order? {l r : Value} {o : Ordering} (h : order? l r = some o) :
    looselyEqual l r = (o == .eq) := by
  by_cases hk : l.kind = .string ∧ r.kind = .string
  · obtain ⟨s, rfl⟩ := eq_string_of_kind hk.1
    obtain ⟨t, rfl⟩ := eq_string_of_kind hk.2
    rw [order?_strings, Option.some.injEq] at h
    have heq : o = .eq ↔ s = t := h ▸ Std.LawfulEqCmp.compare_eq_iff_eq
    rw [Bool.eq_iff_iff, beq_iff_eq, heq]
    exact beq_iff_eq
  · rw [order?_numbers hk] at h
    obtain ⟨x, hx, h⟩ := Option.bind_eq_some_iff.mp h
    obtain ⟨y, hy, h⟩ := Option.bind_eq_some_iff.mp h
    rw [looselyEqual_of_numbers hk hx hy, Binary64.numericEq, h]
    rfl

/-! ### The comparisons -/

/-- Whether a comparison needs an ordering of its operands. -/
def Comparison.IsOrdering : Comparison → Prop
  | equal => False
  | notEqual => False
  | _ => True

/-- With an ordering, it decides all comparisons. -/
theorem compareValues_of_order? {l r : Value} {o : Ordering} (h : order? l r = some o)
    (op : Comparison) : compareValues op l r = .ok (op.holds o) := by
  cases op with
  | equal => rw [compareValues, looselyEqual_of_order? h, Comparison.holds]
  | notEqual => rw [compareValues, looselyEqual_of_order? h, Comparison.holds]; rfl
  | _ => simp only [compareValues, h]

/-- Without one, all but equality and inequality are errors. -/
theorem compareValues_of_not_order? {l r : Value} (h : order? l r = none) {op : Comparison}
    (hop : op.IsOrdering) :
    compareValues op l r = .error (.incomparable op l.kind r.kind) := by
  cases op with
  | equal => exact hop.elim
  | notEqual => exact hop.elim
  | _ => simp only [compareValues, h]

/-- **The six comparisons are coherent.**  Equality and inequality of two values are never errors,
do not depend on the order of the values, and are opposites; a value is equal to itself.  The four
orderings are errors for the two values in either order, or they all follow from which one of
less, equal and greater holds. -/
theorem comparisons_coherent (l r : Value) :
    (∃ same : Bool,
      compareValues .equal l r = .ok same ∧ compareValues .equal r l = .ok same ∧
      compareValues .notEqual l r = .ok !same ∧ compareValues .notEqual r l = .ok !same) ∧
    compareValues .equal l l = .ok true ∧
    ((∀ op : Comparison, op.IsOrdering →
        (∃ e, compareValues op l r = .error e) ∧ ∃ e, compareValues op r l = .error e) ∨
      ∃ less same greater : Bool,
        [less, same, greater].count true = 1 ∧
        compareValues .less l r = .ok less ∧ compareValues .greater r l = .ok less ∧
        compareValues .equal l r = .ok same ∧
        compareValues .greater l r = .ok greater ∧ compareValues .less r l = .ok greater ∧
        compareValues .lessOrEqual l r = .ok (less || same) ∧
        compareValues .greaterOrEqual r l = .ok (less || same) ∧
        compareValues .greaterOrEqual l r = .ok (greater || same) ∧
        compareValues .lessOrEqual r l = .ok (greater || same)) := by
  refine ⟨⟨looselyEqual l r, rfl, ?_, rfl, ?_⟩, ?_, ?_⟩
  · rw [compareValues, looselyEqual_comm]
  · rw [compareValues, looselyEqual_comm]
  · rw [compareValues, looselyEqual_refl]
  have hswap := order?_swap l r
  cases h : order? l r with
  | none =>
    rw [h] at hswap
    exact .inl fun op hop =>
      ⟨⟨_, compareValues_of_not_order? h hop⟩, _, compareValues_of_not_order? hswap hop⟩
  | some o =>
    rw [h] at hswap
    have hlr := compareValues_of_order? h
    have hrl := compareValues_of_order? hswap
    refine .inr ⟨o == .lt, o == .eq, o == .gt, ?_⟩
    simp only [hlr, hrl]
    cases o <;> decide

end Condition

end Transclude
