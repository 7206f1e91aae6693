/-
The reserved namespace of a template.

Directives and reserved attributes are the qualified names `name:local` of one namespace.  A name of
any other shape belongs to the template itself.

* `localName?_eq_some` — a name has a local name exactly when it is that one qualified.
-/

namespace Transclude

/-- The reserved namespace, by the name in front of the colon. -/
structure Namespace where
  name : String
  deriving DecidableEq

/-- What follows `lead` in a text that begins with it. -/
def afterLead? : List Char → List Char → Option (List Char)
  | [], cs => some cs
  | _ :: _, [] => none
  | l :: ls, c :: cs => if l = c then afterLead? ls cs else none

theorem afterLead?_eq_some {lead cs rest : List Char} :
    afterLead? lead cs = some rest ↔ cs = lead ++ rest := by
  induction lead generalizing cs with
  | nil => simp [afterLead?, eq_comm]
  | cons l ls ih =>
    cases cs with
    | nil => simp [afterLead?]
    | cons c cs =>
      by_cases h : l = c
      · simp [afterLead?, h, ih]
      · simp [afterLead?, h, Ne.symm h]

namespace Namespace

instance : Inhabited Namespace := ⟨⟨"dht"⟩⟩

/-- The qualified name of `local`. -/
def qualify (ns : Namespace) (localName : String) : String := ns.name ++ ":" ++ localName

/-- The local part of a name of this namespace. -/
def localName? (ns : Namespace) (qualified : String) : Option String :=
  (afterLead? (ns.name.toList ++ [':']) qualified.toList).map String.ofList

/-- Whether a name is the qualified form of `local`. -/
def is (ns : Namespace) (qualified localName : String) : Bool :=
  ns.localName? qualified == some localName

theorem localName?_eq_some {ns : Namespace} {q l : String} :
    ns.localName? q = some l ↔ q = ns.qualify l := by
  simp only [localName?, Option.map_eq_some_iff, afterLead?_eq_some, qualify]
  constructor
  · rintro ⟨r, hq, rfl⟩
    apply String.toList_inj.mp
    simp [hq]
  · rintro rfl
    exact ⟨l.toList, by simp, by simp⟩

@[simp] theorem localName?_qualify (ns : Namespace) (l : String) :
    ns.localName? (ns.qualify l) = some l := localName?_eq_some.mpr rfl

end Namespace

end Transclude
