/-
The grammar of tests.

* `Derives` — which tokens write which tree, by one rule for each form of a test;
* `Derives.named` — the paths of a derived tree have a segment;
* `derives_tokens` — a tree whose paths have a segment is derived by its tokens with parentheses.

Design notes: grouping to the left is written as left recursion, so a rule names the operands of the
tree it makes.  Paths have a relation of their own, since their tree is a list and not a test.
-/
import Transclude.Condition.Basic

namespace Transclude.Condition

/-- What a run of tokens can be, the loosest first. -/
inductive Nonterminal where
  | disjunction
  | conjunction
  | negation
  | comparison
  | atom

/-- The tokens that write a dotted path: `ident ( "." ident )*`. -/
inductive DerivesPath : List Token → List String → Prop
  | segment (name : String) : DerivesPath [.ident name] [name]
  | dotted {ts : List Token} {segments : List String} (h : DerivesPath ts segments)
    (name : String) : DerivesPath (ts ++ [.dot, .ident name]) (segments ++ [name])

/-- The tokens that write a test.

* `or := and ( "||" and )*`, grouped to the left;
* `and := not ( "&&" not )*`, grouped to the left;
* `not := "!" not | comparison`;
* `comparison := atom ( op atom )?`;
* `atom := literal | path | "(" or ")"`, where the parentheses leave no trace. -/
inductive Derives : Nonterminal → List Token → Condition → Prop
  | conjunction {ts : List Token} {c : Condition} (h : Derives .conjunction ts c) :
    Derives .disjunction ts c
  | or {ts us : List Token} {l r : Condition} (hl : Derives .disjunction ts l)
    (hr : Derives .conjunction us r) : Derives .disjunction (ts ++ .or :: us) (.or l r)
  | negation {ts : List Token} {c : Condition} (h : Derives .negation ts c) :
    Derives .conjunction ts c
  | and {ts us : List Token} {l r : Condition} (hl : Derives .conjunction ts l)
    (hr : Derives .negation us r) : Derives .conjunction (ts ++ .and :: us) (.and l r)
  | comparison {ts : List Token} {c : Condition} (h : Derives .comparison ts c) :
    Derives .negation ts c
  | not {ts : List Token} {c : Condition} (h : Derives .negation ts c) :
    Derives .negation (.not :: ts) (.not c)
  | atom {ts : List Token} {c : Condition} (h : Derives .atom ts c) : Derives .comparison ts c
  | compare {ts us : List Token} {l r : Condition} (op : Comparison) (hl : Derives .atom ts l)
    (hr : Derives .atom us r) : Derives .comparison (ts ++ .compare op :: us) (.compare op l r)
  | literal (l : Literal) : Derives .atom [.literal l] (.literal l)
  | path {ts : List Token} {segments : List String} (h : DerivesPath ts segments) :
    Derives .atom ts (.path segments)
  | parentheses {ts : List Token} {c : Condition} (h : Derives .disjunction ts c) :
    Derives .atom (.opening :: (ts ++ [.closing])) c

/-- Whether every path of a test has a segment. -/
def named : Condition → Bool
  | literal _ => true
  | path segments => !segments.isEmpty
  | not c => c.named
  | and l r => l.named && r.named
  | or l r => l.named && r.named
  | compare _ l r => l.named && r.named

theorem DerivesPath.ne_nil {ts : List Token} {segments : List String}
    (h : DerivesPath ts segments) : segments ≠ [] := by
  cases h with
  | segment name => exact List.cons_ne_nil name []
  | dotted h name => exact List.append_ne_nil_of_right_ne_nil _ (List.cons_ne_nil name [])

/-- The grammar has no path without a segment. -/
theorem Derives.named {n : Nonterminal} {ts : List Token} {c : Condition} (h : Derives n ts c) :
    c.named = true := by
  induction h with
  | conjunction _ ih | negation _ ih | comparison _ ih | not _ ih | atom _ ih | parentheses _ ih =>
    exact ih
  | or _ _ ihl ihr | and _ _ ihl ihr | compare _ _ _ ihl ihr =>
    rw [Condition.named, ihl, ihr, Bool.and_true]
  | literal l => rfl
  | path h => simpa [Condition.named] using h.ne_nil

/-! ### Trees written with parentheses -/

/-- The tokens of a path without its first segment. -/
theorem pathTokens_cons (s : String) (segments : List String) :
    pathTokens (s :: segments) = .ident s :: segments.flatMap fun t => [.dot, .ident t] := by
  induction segments generalizing s with
  | nil => rfl
  | cons t segments ih => rw [pathTokens, ih, List.flatMap_cons]; rfl

theorem derivesPath_append {ts : List Token} {segments : List String} (h : DerivesPath ts segments)
    (after : List String) :
    DerivesPath (ts ++ after.flatMap fun t => [.dot, .ident t]) (segments ++ after) := by
  induction after generalizing ts segments with
  | nil => simpa using h
  | cons t after ih =>
    have ht := ih (h.dotted t)
    rwa [List.append_assoc, List.append_assoc, List.singleton_append] at ht

theorem derivesPath_pathTokens {segments : List String} (h : segments ≠ []) :
    DerivesPath (pathTokens segments) segments := by
  cases segments with
  | nil => exact absurd rfl h
  | cons s segments =>
    rw [pathTokens_cons]
    exact derivesPath_append (.segment s) segments

theorem Derives.disjunction_of_atom {ts : List Token} {c : Condition} (h : Derives .atom ts c) :
    Derives .disjunction ts c :=
  .conjunction (.negation (.comparison (.atom h)))

/-- A test is written by its tokens with parentheses around every operand. -/
theorem derives_tokens {c : Condition} (h : c.named = true) : Derives .disjunction c.tokens c := by
  -- the two operands of a connective or comparison, each in parentheses
  have split : ∀ {l r : Condition}, (l.named && r.named) = true →
      (l.named = true → Derives .disjunction l.tokens l) →
      (r.named = true → Derives .disjunction r.tokens r) →
      Derives .atom (.opening :: (l.tokens ++ [.closing])) l ∧
        Derives .atom (.opening :: (r.tokens ++ [.closing])) r := by
    intro l r hn ihl ihr
    rw [Bool.and_eq_true] at hn
    exact ⟨.parentheses (ihl hn.1), .parentheses (ihr hn.2)⟩
  induction c with
  | literal l => exact (Derives.literal l).disjunction_of_atom
  | path segments =>
    have hs : segments ≠ [] := by simpa [Condition.named] using h
    exact (Derives.path (derivesPath_pathTokens hs)).disjunction_of_atom
  | not c ih =>
    have hc : Derives .atom (.opening :: (c.tokens ++ [.closing])) c := .parentheses (ih h)
    exact .conjunction (.negation (.not (.comparison (.atom hc))))
  | and l r ihl ihr =>
    obtain ⟨hl, hr⟩ := split h ihl ihr
    have hand := Derives.and (.negation (.comparison (.atom hl))) (.comparison (.atom hr))
    rw [List.cons_append, List.append_assoc] at hand
    exact .conjunction hand
  | or l r ihl ihr =>
    obtain ⟨hl, hr⟩ := split h ihl ihr
    have hor := Derives.or hl.disjunction_of_atom (.negation (.comparison (.atom hr)))
    rw [List.cons_append, List.append_assoc] at hor
    exact hor
  | compare op l r ihl ihr =>
    obtain ⟨hl, hr⟩ := split h ihl ihr
    have hcompare := Derives.compare op hl hr
    rw [List.cons_append, List.append_assoc] at hcompare
    exact .conjunction (.negation (.comparison hcompare))

end Transclude.Condition
