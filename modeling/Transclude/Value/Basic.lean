/-
Variable values.

A context of variables, an item of a list and the payload of an event are all values: null, a
boolean, a number, a string, an array or an object.  A number is an integer of 64 bits or a finite
binary64 number, and the two kinds stay apart: `1` and `1.0` are different values with different
texts, though a test compares them numerically.

* `Value.same` — equality of values: structural, except that the zeros of either sign are equal;
* `Value.ofMembers` — an object keeps its members in the order of their keys, and of several members
  with one key the last.
-/
import Transclude.Number.Decimal

namespace Transclude

/-- A number: an integer that fits 64 bits, signed or unsigned, or a finite binary64 number. -/
inductive Number where
  | integer (value : Int) (inRange : -9223372036854775808 ≤ value ∧ value < 18446744073709551616)
  | float (value : Binary64.Finite)
  deriving DecidableEq

/-- A value of a variable. -/
inductive Value where
  | null
  | bool (b : Bool)
  | number (n : Number)
  | string (s : String)
  | array (items : List Value)
  | object (members : List (String × Value))

namespace Number

/-- The number nearest to it in the binary64 format. -/
def toBinary64 : Number → Binary64
  | integer i _ => .ofInt i
  | float x => .finite x

/-- Equality as values: integers and floats differ, and floats are equal when their values are. -/
def same : Number → Number → Bool
  | integer i _, integer j _ => i == j
  | float x, float y => x.units == y.units
  | _, _ => false

theorem same_refl (n : Number) : same n n = true := by cases n <;> simp [same]

theorem same_comm (m n : Number) : same m n = same n m := by
  cases m <;> cases n <;> simp only [same]
  all_goals exact Bool.beq_comm

end Number

namespace Value

instance : Inhabited Value := ⟨.null⟩

/-- The number as a value; one that no JSON text can hold becomes null. -/
def ofBinary64 : Binary64 → Value
  | .finite x => .number (.float x)
  | _ => .null

/-- The integer as a value; one that does not fit 64 bits becomes the nearest float. -/
def ofInt (i : Int) : Value :=
  if h : -9223372036854775808 ≤ i ∧ i < 18446744073709551616 then .number (.integer i h)
  else ofBinary64 (.ofInt i)

mutual

/-- Equality of values. -/
def same : Value → Value → Bool
  | null, null => true
  | bool a, bool b => a == b
  | number m, number n => m.same n
  | string s, string t => s == t
  | array xs, array ys => sameItems xs ys
  | object ms, object ns => sameMembers ms ns
  | _, _ => false

/-- Equality item by item. -/
def sameItems : List Value → List Value → Bool
  | [], [] => true
  | x :: xs, y :: ys => same x y && sameItems xs ys
  | _, _ => false

/-- Equality member by member, keys included. -/
def sameMembers : List (String × Value) → List (String × Value) → Bool
  | [], [] => true
  | (k, v) :: ms, (l, w) :: ns => k == l && same v w && sameMembers ms ns
  | _, _ => false

end

/-! ### Objects -/

/-- The members with one more, in the order of the keys; it replaces a member with the same key. -/
def putMember (key : String) (value : Value) : List (String × Value) → List (String × Value)
  | [] => [(key, value)]
  | (k, v) :: ms =>
    if key = k then (key, value) :: ms
    else if key < k then (key, value) :: (k, v) :: ms
    else (k, v) :: putMember key value ms

/-- The object with these members. -/
def ofMembers (members : List (String × Value)) : Value :=
  .object (members.foldl (fun ms m => putMember m.1 m.2 ms) [])

/-- The first member with this key. -/
def member? (key : String) (members : List (String × Value)) : Option Value :=
  (members.find? (fun m => m.1 == key)).map Prod.snd

/-- The empty object, the context of a production without variables. -/
def empty : Value := .object []

/-! ### Kinds -/

/-- The six kinds of values. -/
inductive Kind where
  | null
  | boolean
  | number
  | string
  | array
  | object
  deriving DecidableEq

/-- The kind of a value. -/
def kind : Value → Kind
  | null => .null
  | bool _ => .boolean
  | number _ => .number
  | string _ => .string
  | array _ => .array
  | object _ => .object

/-- The name of a kind. -/
def Kind.name : Kind → String
  | null => "null"
  | boolean => "boolean"
  | number => "number"
  | string => "string"
  | array => "array"
  | object => "object"

end Value

end Transclude
