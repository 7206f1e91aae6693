/-
Conditionals with a negated test.

A test in parentheses with `!` in front is the negation of the test, whatever operators, literals
and placeholders are in it.  So a conditional does the same to the element around it if its test is
negated and its two branches change places.

* `interpolateTestChars_negated` — interpolation goes on inside the parentheses as it does without;
* `tokens?_negated` — the tokens inside are those of the test;
* `evaluateText_negated` — the value is the other boolean;
* `appendNode_negated` — the branches change places.
-/
import Transclude.Production.Producer
import Transclude.Proofs.Comparison
import Transclude.Proofs.Parsing

namespace Transclude

namespace Interpolation

/-! ### A character after a text -/

theorem exists_concat_of_isPlaceholder {written ident : List Char}
    (h : IsPlaceholder written ident) : ∃ before, written = before ++ ['}'] := by
  obtain ⟨before, after, rfl, -⟩ := h
  exact ⟨'{' :: '{' :: (before ++ (ident ++ (after ++ ['}']))), by simp⟩

/-- Placeholders end with a brace, so that no other character completes one. -/
theorem placeholder?_concat {c : Char} (hc : c ≠ '}') {cs : List Char}
    (h : placeholder? cs = none) : placeholder? (cs ++ [c]) = none := by
  refine Option.eq_none_iff_forall_ne_some.mpr fun r hr => ?_
  obtain ⟨written, hw, ht⟩ := placeholder?_eq_some_iff.mp hr
  rcases List.eq_nil_or_concat r.2 with hnil | ⟨rest, d, hrest⟩
  · obtain ⟨before, hbefore⟩ := exists_concat_of_isPlaceholder hw
    rw [hnil, List.append_nil, hbefore] at ht
    exact hc (List.cons.inj (List.append_inj' ht rfl).2).1
  · rw [hrest, List.concat_eq_append, ← List.append_assoc] at ht
    have hplaceholder := placeholder?_of_isPlaceholder hw rest
    rw [← (List.append_inj' ht rfl).1, h] at hplaceholder
    cases hplaceholder

theorem pieces_concat {c : Char} (hc : c ≠ '}') (text : List Char) :
    pieces (text ++ [c]) = pieces text ++ [.char c] := by
  induction text using text_induction with
  | empty =>
    have hlone : placeholder? ([] ++ [c]) = none := placeholder?_concat hc rfl
    exact pieces_char hlone
  | placeholder written ident rest h ih =>
    rw [List.append_assoc, pieces_placeholder h, pieces_placeholder h, ih, List.cons_append]
  | char d cs h ih =>
    have hlong : placeholder? (d :: (cs ++ [c])) = none := placeholder?_concat hc h
    rw [List.cons_append, pieces_char hlong, pieces_char h, ih, List.cons_append]

theorem items_concat {c : Char} (hc : c ≠ '}') (text : List Char) (context : Value) :
    items (text ++ [c]) context = items text context ++ [.own c] := by
  rw [items, pieces_concat hc, List.flatMap_append]
  rfl

theorem testChars_concat (s : Quoting) (its : List Item) (c : Char) :
    testChars s (its ++ [.own c]) = testChars s its ++ [c] := by
  induction its generalizing s with
  | nil => rfl
  | cons i its ih =>
    cases i with
    | own d => rw [List.cons_append, testChars, testChars, ih, List.cons_append]
    | value v => rw [List.cons_append, testChars, testChars, ih, List.append_assoc]

/-! ### Negated tests -/

/-- A test in parentheses, negated. -/
def negated (test : List Char) : List Char := '!' :: '(' :: (test ++ [')'])

/-- The parentheses are outside of quotes, and no placeholder reaches over them. -/
theorem interpolateTestChars_negated (test : List Char) (context : Value) :
    interpolateTestChars (negated test) context =
      negated (interpolateTestChars test context) := by
  rw [interpolateTestChars, negated, items_char (by decide), items_char (by decide),
    items_concat (by decide), testChars, testChars,
    show (Quoting.start.next '!').next '(' = .start from rfl, testChars_concat]
  rfl

end Interpolation

namespace Condition

open Interpolation (negated)

variable {text : List Char} {ts : List Token} {context v : Value}

/-- A closing parenthesis ends the lexeme before it. -/
theorem Reading.step_parenthesis {r : Reading} (h : r.flush = some ts) :
    r.step ')' = some (ts ++ [.closing], .blank) := by
  have hnext : r.next? ')' = none := by
    cases r with
    | quoted q content escaped => cases escaped <;> cases h
    | _ => rfl
  rw [step, hnext, h]
  rfl

theorem tokens?_negated (h : tokens? text = some ts) :
    tokens? (negated text) = some (.not :: .opening :: (ts ++ [.closing])) := by
  rw [tokens?_eq, Option.bind_eq_some_iff] at h
  obtain ⟨⟨us, r⟩, hfeed, hfinish⟩ := h
  obtain ⟨vs, hflush, rfl⟩ := Option.map_eq_some_iff.mp hfinish
  have hbang : Reading.blank.step '!' = some ([], .bang) := rfl
  have hopening : Reading.bang.step '(' = some ([.not, .opening], .blank) := rfl
  have hclosing : r.feed [')'] = some (vs ++ [.closing], .blank) := by
    rw [Reading.feed, Reading.step_parenthesis hflush]
    simp [Reading.feed]
  rw [tokens?_eq, negated, Reading.feed, hbang, Option.bind_some, Reading.feed, hopening,
    Option.bind_some, Reading.feed_append, hfeed, Option.bind_some, hclosing]
  simp [Reading.finish, show Reading.blank.flush = some [] from rfl]

/-- Parentheses hold a whole test, and `!` takes them as one operand. -/
theorem ofTokens_negated {c : Condition} (h : ofTokens ts = .ok c) :
    ofTokens (.not :: .opening :: (ts ++ [.closing])) = .ok (.not c) := by
  have hatom : Derives .atom (.opening :: (ts ++ [.closing])) c :=
    .parentheses (ofTokens_eq_ok.mp h)
  exact ofTokens_eq_ok.mpr (.conjunction (.negation (.not (.comparison (.atom hatom)))))

/-- A text with a value is a test. -/
theorem exists_of_evaluateText (h : evaluateText text context = .ok v) :
    ∃ ts c, tokens? text = some ts ∧ ofTokens ts = .ok c ∧ evaluate context c = .ok v := by
  rw [evaluateText, parse] at h
  cases hscan : scan text with
  | error e => simp [hscan] at h
  | ok placed =>
    cases hc : ofTokens (placed.map Placed.token) with
    | error stuck => simp [hscan, hc] at h
    | ok c =>
      simp only [hscan, hc] at h
      exact ⟨placed.map Placed.token, c, by rw [tokens?, hscan]; rfl, hc, h⟩

/-- The negation of a test has the other boolean as its value. -/
theorem evaluateText_negated {b : Bool} (h : evaluateText text context = .ok (.bool b)) :
    evaluateText (negated text) context = .ok (.bool !b) := by
  obtain ⟨ts, c, htokens, hc, hvalue⟩ := exists_of_evaluateText h
  rw [evaluateText_of_tokens (tokens?_negated htokens) (ofTokens_negated hc), evaluate, hvalue]
  rfl

theorem holds_of_evaluateText {b : Bool} (h : evaluateText text context = .ok (.bool b)) :
    holds text context = .ok b := by
  rw [holds, h]

end Condition

namespace Producer

open Interpolation (interpolateTest interpolateTestChars negated)
open Production (Outcome)

variable {κ : Type} {p : Producer κ} {insert : Insert κ} {context : Value}

/-! ### Branches -/

theorem childNamed?_text (tag name s : String) (attributes : List (String × String))
    (ns : List Markup.Node) :
    Markup.Element.childNamed? ⟨name, attributes, .text s :: ns⟩ tag =
      Markup.Element.childNamed? ⟨name, attributes, ns⟩ tag := rfl

theorem childNamed?_element (tag name : String) (attributes : List (String × String))
    (e : Markup.Element) (ns : List Markup.Node) :
    Markup.Element.childNamed? ⟨name, attributes, .element e :: ns⟩ tag =
      if e.name = tag then some e else Markup.Element.childNamed? ⟨name, attributes, ns⟩ tag := by
  have hall : Markup.Element.childElements ⟨name, attributes, .element e :: ns⟩ =
      e :: Markup.Element.childElements ⟨name, attributes, ns⟩ := rfl
  rw [Markup.Element.childNamed?, Markup.Element.childNamed?, hall]
  by_cases h : e.name = tag
  · rw [if_pos h, List.find?_cons_of_pos (by simpa using h)]
  · rw [if_neg h, List.find?_cons_of_neg (by simpa using h)]

theorem hasNamed_of_childNamed? {tag : String} {e child : Markup.Element}
    (h : e.childNamed? tag = some child) : hasNamed tag e.children = true := by
  obtain ⟨name, attributes, children⟩ := e
  induction children with
  | nil => cases h
  | cons n ns ih =>
    rw [hasNamed, List.any_cons, Bool.or_eq_true]
    cases n with
    | text s =>
      rw [childNamed?_text] at h
      exact .inr (ih h)
    | element c =>
      rw [childNamed?_element] at h
      by_cases htag : c.name = tag
      · exact .inl (by simp [Markup.Node.element?, htag])
      · rw [if_neg htag] at h
        exact .inr (ih h)

/-- The children of the first child with a name are carried out. -/
theorem appendNamed_of_childNamed? {tag : String} {e child : Markup.Element}
    (h : e.childNamed? tag = some child) :
    p.appendNamed insert tag e.children context =
      p.appendNodes insert child.children context := by
  obtain ⟨name, attributes, children⟩ := e
  induction children with
  | nil => cases h
  | cons n ns ih =>
    cases n with
    | text s =>
      rw [childNamed?_text] at h
      rw [appendNamed_text]
      exact ih h
    | element c =>
      obtain ⟨cname, cattributes, cchildren⟩ := c
      rw [childNamed?_element] at h
      rw [appendNamed_element]
      by_cases htag : cname = tag
      · rw [if_pos htag] at h ⊢
        obtain rfl := Option.some.inj h
        rfl
      · rw [if_neg htag] at h ⊢
        exact ih h

/-- Whether an element is a conditional with this test and these contents of its two branches. -/
structure IsConditional (p : Producer κ) (e : Markup.Element) (test : String)
    (whenTrue whenFalse : List Markup.Node) : Prop where
  directive : p.directive? e.name = some .conditional
  test : attributeOf? e.attributes "test" = some test
  whenTrue : ∃ child, e.childNamed? (p.reserved.qualify "then") = some child ∧
    child.children = whenTrue
  whenFalse : ∃ child, e.childNamed? (p.reserved.qualify "else") = some child ∧
    child.children = whenFalse

/-- The conditional with a test and two branches. -/
def conditional (p : Producer κ) (test : String) (whenTrue whenFalse : List Markup.Node) :
    Markup.Element :=
  ⟨p.reserved.qualify "if", [("test", test)],
    [.element ⟨p.reserved.qualify "then", [], whenTrue⟩,
      .element ⟨p.reserved.qualify "else", [], whenFalse⟩]⟩

theorem isConditional_conditional (p : Producer κ) (test : String)
    (whenTrue whenFalse : List Markup.Node) :
    p.IsConditional (p.conditional test whenTrue whenFalse) test whenTrue whenFalse := by
  have hne : p.reserved.qualify "then" ≠ p.reserved.qualify "else" := by
    intro h
    have hlocal := congrArg p.reserved.localName? h
    rw [Namespace.localName?_qualify, Namespace.localName?_qualify] at hlocal
    exact absurd hlocal (by decide)
  constructor
  · rw [directive?, conditional, Namespace.localName?_qualify]
    rfl
  · rfl
  · exact ⟨_, by rw [conditional, childNamed?_element, if_pos rfl], rfl⟩
  · exact ⟨_, by rw [conditional, childNamed?_element, if_neg hne, childNamed?_element, if_pos rfl],
      rfl⟩

/-- A conditional whose test is a boolean carries out one of its branches. -/
theorem IsConditional.appendNode_eq {e : Markup.Element} {test : String}
    {whenTrue whenFalse : List Markup.Node} (he : p.IsConditional e test whenTrue whenFalse)
    {b : Bool}
    (hb : Condition.holds (interpolateTestChars test.toList context) context = .ok b) :
    p.appendNode insert (.element e) context =
      p.appendNodes insert (if b then whenTrue else whenFalse) context := by
  obtain ⟨hdirective, htest, ⟨t, ht, rfl⟩, ⟨f, hf, rfl⟩⟩ := he
  obtain ⟨name, attributes, children⟩ := e
  have hholds : (testHolds attributes context : Outcome κ Bool) = .ok b := by
    unfold testHolds
    simp only [htest, Option.getD_some, interpolateTest, String.toList_ofList, hb]
  rw [appendNode_conditional p insert context hdirective]
  funext target
  rw [hholds, Production.Outcome.ok_andThen, branch]
  cases b with
  | true =>
    rw [if_pos rfl, if_pos (hasNamed_of_childNamed? ht), appendNamed_of_childNamed? ht, if_pos rfl]
  | false =>
    rw [if_neg Bool.false_ne_true, appendNamed_of_childNamed? hf, if_neg Bool.false_ne_true]

/-- **A conditional does the same with its test negated and its branches exchanged.**  If the test
has a boolean as its value, both carry out the same branch on the element around them, with the same
result or error and the same calls and warnings, whatever inserted snippets come to. -/
theorem appendNode_negated (p : Producer κ) (insert : Insert κ) {e e' : Markup.Element}
    {test : String} {whenTrue whenFalse : List Markup.Node} {context : Value} {b : Bool}
    (he : p.IsConditional e test whenTrue whenFalse)
    (he' : p.IsConditional e' ("!(" ++ test ++ ")") whenFalse whenTrue)
    (hb : Condition.evaluateText (interpolateTest test context).toList context = .ok (.bool b))
    (target : Output.Element κ) :
    p.appendNode insert (.element e') context target =
      p.appendNode insert (.element e) context target := by
  rw [interpolateTest, String.toList_ofList] at hb
  have htext : ("!(" ++ test ++ ")").toList = negated test.toList := by
    rw [String.toList_append, String.toList_append]
    rfl
  have hb' : Condition.holds (interpolateTestChars ("!(" ++ test ++ ")").toList context) context =
      .ok !b := by
    rw [htext, Interpolation.interpolateTestChars_negated]
    exact Condition.holds_of_evaluateText (Condition.evaluateText_negated hb)
  rw [he.appendNode_eq (Condition.holds_of_evaluateText hb), he'.appendNode_eq hb']
  cases b <;> rfl

/-- A test with a placeholder in quotation marks and a connective. -/
theorem appendNode_negated_of_disjunction :
    let p : Producer Unit := ⟨{}, default, 64, .none⟩
    let context : Value := .object [("flag", .bool true), ("x", .string "it's")]
    let test := "'{{x}}' = 'a' || flag"
    let target : Output.Element Unit := ⟨"p", [], [], []⟩
    Condition.evaluateText (interpolateTest test context).toList context = .ok (.bool true) ∧
    p.appendNode (p.produceAt 1)
        (.element (p.conditional ("!(" ++ test ++ ")") [.text "no"] [.text "yes"])) context target =
      p.appendNode (p.produceAt 1)
        (.element (p.conditional test [.text "yes"] [.text "no"])) context target := by
  intro p context test target
  have htokens : Condition.tokens? (interpolateTest test context).toList =
      some [.literal (.string "it's"), .compare .equal, .literal (.string "a"), .or,
        .ident "flag"] := by decide +kernel
  have hparse : Condition.ofTokens [.literal (.string "it's"), .compare .equal,
        .literal (.string "a"), .or, .ident "flag"] =
      .ok (.or (.compare .equal (.literal (.string "it's")) (.literal (.string "a")))
        (.path ["flag"])) := rfl
  have hb : Condition.evaluateText (interpolateTest test context).toList context =
      .ok (.bool true) := by
    rw [Condition.evaluateText_of_tokens htokens hparse]
    rfl
  exact ⟨hb, p.appendNode_negated (p.produceAt 1) (p.isConditional_conditional _ _ _)
    (p.isConditional_conditional _ _ _) hb target⟩

end Producer

end Transclude
