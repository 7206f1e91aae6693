/-
What producing a snippet leaves behind.

A production ends with a result or an error, and on the way it leaves notices: warnings, and the
calls of owner functions.  The notices before an error stay.

* `Outcome` — the notices in order, and the result or the error;
* `Error.message` — the wording of the errors.
-/
import Transclude.Condition.Error
import Transclude.Owner
import Transclude.Warning

namespace Transclude.Production

/-- Why a snippet cannot be produced. -/
inductive Error where
  | unknownSnippet (name : String)
  /-- A test without a value, as it was after its placeholders were replaced. -/
  | condition (test : String) (cause : Condition.Error)
  | nestedTooDeeply (name : String) (depth : Nat)
  deriving DecidableEq

/-- The wording of an error about a test. -/
def testMessage (test : String) (cause : Condition.Error) : String :=
  "Cannot evaluate expression " ++ Warning.quoted test ++ ": " ++ cause.message

/-- The wording of an error. -/
def Error.message : Error → String
  | unknownSnippet name => "unknown snippet: " ++ name
  | condition test cause => testMessage test cause
  | nestedTooDeeply name depth =>
    "snippet insertion nested too deeply: " ++ name ++ " at depth " ++ toString depth

/-- Something that happened during a production. -/
inductive Notice (κ : Type) where
  | warning (w : Warning)
  | call (c : Call κ)

/-- What a production leaves. -/
structure Outcome (κ α : Type) where
  notices : List (Notice κ)
  result : Except Error α

namespace Outcome

variable {κ α β : Type}

/-- The warnings among the notices. -/
def warnings (x : Outcome κ α) : List Warning :=
  x.notices.filterMap fun
    | .warning w => some w
    | .call _ => none

/-- The calls among the notices. -/
def calls (x : Outcome κ α) : List (Call κ) :=
  x.notices.filterMap fun
    | .warning _ => none
    | .call c => some c

/-- A result without notices. -/
def ok (a : α) : Outcome κ α := ⟨[], .ok a⟩

/-- An error without notices. -/
def fail (e : Error) : Outcome κ α := ⟨[], .error e⟩

/-- A result with a warning. -/
def warn (w : Warning) (a : α) : Outcome κ α := ⟨[.warning w], .ok a⟩

/-- A result with the calls that led to it. -/
def called (calls : List (Call κ)) (a : α) : Outcome κ α := ⟨calls.map .call, .ok a⟩

/-- Goes on with a result; an error stays. -/
def andThen (x : Outcome κ α) (f : α → Outcome κ β) : Outcome κ β :=
  match x.result with
  | .error e => ⟨x.notices, .error e⟩
  | .ok a => ⟨x.notices ++ (f a).notices, (f a).result⟩

instance : Monad (Outcome κ) where
  pure := ok
  bind := andThen

@[simp] theorem pure_eq (a : α) : (pure a : Outcome κ α) = ok a := rfl

@[simp] theorem bind_eq (x : Outcome κ α) (f : α → Outcome κ β) : (x >>= f) = x.andThen f := rfl

@[simp] theorem ok_andThen (a : α) (f : α → Outcome κ β) : (ok a).andThen f = f a := by
  simp [ok, andThen]

@[simp] theorem fail_andThen (e : Error) (f : α → Outcome κ β) :
    (fail e : Outcome κ α).andThen f = fail e := rfl

theorem andThen_ok (x : Outcome κ α) : x.andThen ok = x := by
  obtain ⟨ns, r⟩ := x
  cases r <;> simp [andThen, ok]

theorem andThen_assoc {γ : Type} (x : Outcome κ α) (f : α → Outcome κ β) (g : β → Outcome κ γ) :
    (x.andThen f).andThen g = x.andThen fun a => (f a).andThen g := by
  obtain ⟨ns, r⟩ := x
  cases r with
  | error e => rfl
  | ok a =>
    simp only [andThen]
    cases (f a).result <;> simp

end Outcome

end Transclude.Production
