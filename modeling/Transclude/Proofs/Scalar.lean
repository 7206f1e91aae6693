/-
A path and its placeholder.

A test that compares a path with the placeholder of the same name compares a value with its own
text, as the test reads it.

* `Reading.feed_path` — a path of names is read as the tokens of a path;
* `tokens?_literal` — a scalar is written as the literal that has its value;
* `malformed_of_exponent` — a number that is written with an exponent leaves no test;
* `path_equals_placeholder` — the two are equal exactly if the value is not such a number.

Design notes: a name is a word that is no keyword.  Strings, booleans and null come back as they
are.  A number comes back through its decimal text, and is the same number again
(`Number.exists_numeral`); only an exponent is more than a test takes for a number.
-/
import Transclude.Proofs.Comparison
import Transclude.Proofs.Numeral
import Transclude.Proofs.Parsing

namespace Transclude

namespace Condition

open Interpolation

/-! ### Paths in a test -/

theorem pathIdent_cons (s t : String) (segments : List String) :
    pathIdent (s :: t :: segments) = s.toList ++ '.' :: pathIdent (t :: segments) := rfl

/-- The words that are not names. -/
def keywords : List String := ["true", "false", "null", "and", "or", "not"]

/-- A word that names a segment of a path. -/
def IsName (s : String) : Prop :=
  s ∉ keywords ∧ s.toList.head?.any isWordStart = true ∧ s.toList.tail.all isWordChar = true

instance (s : String) : Decidable (IsName s) :=
  inferInstanceAs (Decidable (_ ∧ _ ∧ _))

theorem IsName.exists_cons {s : String} (h : IsName s) :
    ∃ c cs, s.toList = c :: cs ∧ isWordStart c = true ∧ ∀ d ∈ cs, isWordChar d = true := by
  obtain ⟨-, hstart, hcs⟩ := h
  cases hs : s.toList with
  | nil => rw [hs] at hstart; cases hstart
  | cons c cs =>
    rw [hs] at hstart hcs
    exact ⟨c, cs, rfl, hstart, List.all_eq_true.mp hcs⟩

theorem wordToken_of_not_keyword {word : List Char} (h : String.ofList word ∉ keywords) :
    wordToken word = .ident (String.ofList word) := by
  simp only [keywords, List.mem_cons, List.not_mem_nil, or_false, not_or] at h
  unfold wordToken
  split <;> simp_all

theorem isWordChar_of_isWordStart {c : Char} (h : isWordStart c = true) : isWordChar c = true := by
  simp only [isWordStart, isWordChar, Char.isAlphanum, Bool.or_eq_true, decide_eq_true_eq] at h ⊢
  rcases h with h | h
  · exact .inl (.inl (.inl h))
  · exact .inl (.inr h)

theorem not_isSpace_of_isWordChar {c : Char} (h : isWordChar c = true) : isSpace c = false := by
  rw [Bool.eq_false_iff]
  intro hs
  simp only [isSpace, Bool.or_eq_true, decide_eq_true_eq] at hs
  rcases hs with ((rfl | rfl) | rfl) | rfl <;> cases h

theorem Reading.step_blank_wordStart {c : Char} (h : isWordStart c = true) :
    Reading.blank.step c = some ([], .word [c]) := by
  have hspace := not_isSpace_of_isWordChar (isWordChar_of_isWordStart h)
  have hbegin : beginning c = .first (.word [c]) := by
    unfold beginning
    rw [if_neg (by simp [hspace]), if_pos h]
  have hflush : Reading.blank.flush = some [] := rfl
  rw [Reading.step, Reading.next?, Reading.begin, hbegin, hflush]
  rfl

/-- A name is a lexeme of its own. -/
theorem IsName.feed {s : String} (h : IsName s) :
    Reading.blank.feed s.toList = some ([], .word s.toList.reverse) := by
  obtain ⟨c, cs, hs, hc, hcs⟩ := h.exists_cons
  rw [hs, Reading.feed, Reading.step_blank_wordStart hc, Option.bind_some, Reading.feed_word hcs]
  simp

theorem Reading.flush_word {word : List Char} (h : String.ofList word ∉ keywords) :
    (Reading.word word.reverse).flush = some [.ident (String.ofList word)] := by
  rw [← wordToken_of_not_keyword h]
  simp [Reading.flush, Scanner.flush, Except.toOption]

theorem IsName.flush {s : String} (h : IsName s) :
    (Reading.word s.toList.reverse).flush = some [.ident s] := by
  have hs : String.ofList s.toList = s := String.ofList_toList
  rw [Reading.flush_word (hs.symm ▸ h.1), hs]

/-- What goes on no word ends a name. -/
theorem IsName.step {s : String} (h : IsName s) {c : Char} (hc : isWordChar c = false) :
    (Reading.word s.toList.reverse).step c =
      (Reading.begin c).map fun p => (.ident s :: p.1, p.2) := by
  have hnext : (Reading.word s.toList.reverse).next? c = none := by
    rw [Reading.next?, if_neg (by simp [hc])]
  rw [Reading.step, hnext, h.flush]
  rfl

/-- A path of names is read as its segments with dots between them. -/
theorem Reading.feed_path {segments : List String} (hne : segments ≠ [])
    (hnames : ∀ s ∈ segments, IsName s) :
    Reading.blank.feed (pathIdent segments ++ " = ".toList) =
      some (pathTokens segments ++ [.compare .equal], .blank) := by
  induction segments with
  | nil => exact absurd rfl hne
  | cons s segments ih =>
    rw [List.forall_mem_cons] at hnames
    obtain ⟨hs, hnames⟩ := hnames
    cases segments with
    | nil =>
      have hpath : pathIdent [s] = s.toList := rfl
      rw [hpath, Reading.feed_append, hs.feed, Option.bind_some]
      have hspace : (Reading.word s.toList.reverse).step ' ' = some ([.ident s], .blank) :=
        hs.step rfl
      show ((Reading.word s.toList.reverse).feed [' ', '=', ' ']).map _ = _
      rw [Reading.feed, hspace]
      rfl
    | cons t segments =>
      have hdot : (Reading.word s.toList.reverse).step '.' = some ([.ident s, .dot], .blank) :=
        hs.step rfl
      rw [pathIdent_cons, List.append_assoc, Reading.feed_append, hs.feed, Option.bind_some,
        List.cons_append, Reading.feed, hdot, Option.bind_some, ih (List.cons_ne_nil _ _) hnames]
      rfl

theorem toNat_of_isWordChar {c : Char} (h : isWordChar c = true) :
    45 ≤ c.toNat ∧ c.toNat ≤ 122 := by
  have hrange : ∀ low high : Char, 45 ≤ low.toNat → high.toNat ≤ 122 →
      low.toNat ≤ c.toNat ∧ c.toNat ≤ high.toNat → 45 ≤ c.toNat ∧ c.toNat ≤ 122 :=
    fun _ _ hlow hhigh hc => ⟨Nat.le_trans hlow hc.1, Nat.le_trans hc.2 hhigh⟩
  simp only [isWordChar, Char.isAlphanum, Bool.or_eq_true, decide_eq_true_eq] at h
  rcases h with ((halpha | hdigit) | rfl) | rfl
  · rcases Bool.or_eq_true_iff.mp halpha with hupper | hlower
    · exact hrange 'A' 'Z' (by decide) (by decide) (of_decide_eq_true hupper)
    · exact hrange 'a' 'z' (by decide) (by decide)
        ((Bool.and_eq_true_iff.mp hlower).imp of_decide_eq_true of_decide_eq_true)
  · exact hrange '0' '9' (by decide) (by decide) (Char.isDigit_iff_toNat.mp hdigit)
  · decide
  · decide

theorem isIdentChar_of_isWordChar {c : Char} (h : isWordChar c = true) : isIdentChar c = true := by
  have hrange := toNat_of_isWordChar h
  have hbrace : c ≠ '{' ∧ c ≠ '}' := by
    constructor <;> rintro rfl <;> cases h
  have hblank : Text.isBlank c = false := by
    simp only [Text.isBlank, Bool.or_eq_false_iff, Bool.and_eq_false_iff, decide_eq_false_iff_not,
      beq_eq_false_iff_ne]
    omega
  simp [isIdentChar, hblank, hbrace]

theorem IsName.isIdentChar {s : String} (h : IsName s) : ∀ c ∈ s.toList, isIdentChar c = true := by
  obtain ⟨c, cs, hs, hc, hcs⟩ := h.exists_cons
  rw [hs, List.forall_mem_cons]
  exact ⟨isIdentChar_of_isWordChar (isWordChar_of_isWordStart hc),
    fun d hd => isIdentChar_of_isWordChar (hcs d hd)⟩

/-- The text of a path is an identifier. -/
theorem isIdentChar_pathIdent {segments : List String} (hnames : ∀ s ∈ segments, IsName s) :
    ∀ c ∈ pathIdent segments, isIdentChar c = true := by
  induction segments with
  | nil => simp [pathIdent, Text.join]
  | cons s segments ih =>
    rw [List.forall_mem_cons] at hnames
    cases segments with
    | nil => exact hnames.1.isIdentChar
    | cons t segments =>
      rw [pathIdent_cons, List.forall_mem_append, List.forall_mem_cons]
      exact ⟨hnames.1.isIdentChar, rfl, ih hnames.2⟩

/-! ### Literals in a test -/

/-- The literal of a scalar. -/
def literal? : Value → Option Literal
  | .string s => some (.string s)
  | .number n => some (.number n.toBinary64)
  | .bool b => some (.bool b)
  | .null => some .null
  | _ => none

/-- A scalar equals its literal. -/
theorem looselyEqual_value {v : Value} {l : Literal} (h : literal? v = some l) :
    looselyEqual v l.value = true := by
  cases v with
  | number n =>
    obtain rfl := Option.some.inj h
    obtain ⟨x, hx⟩ := n.exists_finite
    rw [Literal.value, hx, Value.ofBinary64, looselyEqual, hx, Number.toBinary64,
      Binary64.numericEq, Binary64.compare?_finite]
    simp
  | string s => obtain rfl := Option.some.inj h; simp [Literal.value, looselyEqual, Value.same]
  | bool b => obtain rfl := Option.some.inj h; simp [Literal.value, looselyEqual, Value.same]
  | null => obtain rfl := Option.some.inj h; rfl
  | _ => cases h

/-- A number that a test takes is one token. -/
theorem tokens?_number {n : Number} (h : n.IsPositional) :
    (Reading.blank.feed n.toJson).bind Reading.finish = some [.literal (.number n.toBinary64)] := by
  obtain ⟨m, htext, hvalue⟩ := n.exists_numeral h
  rw [htext, m.feed_text, Option.bind_some, Reading.finish, m.flush_reading, hvalue]
  rfl

/-- A scalar is written as its literal. -/
theorem tokens?_literal {v : Value} {l : Literal} (h : literal? v = some l)
    (hn : ∀ n, v = .number n → n.IsPositional) :
    (Reading.blank.feed (Interpolation.literal v)).bind Reading.finish = some [.literal l] := by
  cases v with
  | number n =>
    obtain rfl := Option.some.inj h
    have htext : Interpolation.literal (.number n) = n.toJson := String.toList_ofList
    rw [htext, tokens?_number (hn n rfl)]
  | string s =>
    obtain rfl := Option.some.inj h
    have hliteral := Reading.feed_inQuotes (r := .blank) rfl s.toList
    rw [String.ofList_toList] at hliteral
    have htext : Interpolation.literal (.string s) =
        '\'' :: (escapeQuotes s.toList ++ ['\'']) := rfl
    rw [htext, hliteral]
    rfl
  | bool b => obtain rfl := Option.some.inj h; cases b <;> rfl
  | null => obtain rfl := Option.some.inj h; rfl
  | _ => cases h

/-- A number with an exponent is not one token: its exponent is a word, or begins no token. -/
theorem tokens?_of_exponent {n : Number} (h : ¬n.IsPositional) :
    (Reading.blank.feed n.toJson).bind Reading.finish = none ∨
      ∃ l name, (Reading.blank.feed n.toJson).bind Reading.finish =
        some [.literal l, .ident name] := by
  obtain ⟨m, sign, power, hsign, htext⟩ := n.exists_scientific h
  rw [htext]
  rcases hsign with rfl | rfl
  -- no token begins with `+`, but `-` goes on the word that `e` begins
  · rw [m.feed_exponent]
    exact .inl rfl
  · have hword : String.ofList ('e' :: '-' :: Nat.toDigits 10 power) ∉ keywords := by
      intro hk
      have hmem := List.mem_map_of_mem (f := String.toList) hk
      rw [String.toList_ofList] at hmem
      simp [keywords] at hmem
    rw [m.feed_negative_exponent fun c hc => isDigit_toDigits hc, Option.bind_some,
      Reading.finish, Reading.flush_word hword]
    exact .inr ⟨_, _, rfl⟩

/-! ### A path and its placeholder -/

variable {segments : List String} {context v : Value}

/-- The test that compares a path with its placeholder. -/
def pathAndPlaceholder (segments : List String) : String :=
  String.ofList (pathIdent segments) ++ " = " ++
    placeholderOf (String.ofList (pathIdent segments))

theorem items_pathAndPlaceholder (hnames : ∀ s ∈ segments, IsName s)
    (hv : context.lookup? (pathIdent segments) = some v) :
    items (pathAndPlaceholder segments).toList context =
      (pathIdent segments ++ " = ".toList).map .own ++ [.value v] := by
  have hident := isIdentChar_pathIdent hnames
  have hbrace : '{' ∉ pathIdent segments ++ " = ".toList := by
    rw [List.mem_append, not_or]
    exact ⟨fun h => absurd (hident _ h) (by decide), by decide⟩
  have hplaceholder : IsPlaceholder (placeholderOf (String.ofList (pathIdent segments))).toList
      (String.ofList (pathIdent segments)).toList :=
    isPlaceholder_placeholderOf (by simpa using hident)
  rw [String.toList_ofList] at hplaceholder
  rw [pathAndPlaceholder, String.toList_append, String.toList_append, String.toList_ofList,
    items_append_of_not_mem hbrace, ← List.append_nil (placeholderOf _).toList,
    items_placeholder hplaceholder hv]
  rfl

/-- The tokens of the test are the path and what its value is written as. -/
theorem tokens?_pathAndPlaceholder (hne : segments ≠ []) (hnames : ∀ s ∈ segments, IsName s)
    (hv : context.lookup? (pathIdent segments) = some v) :
    tokens? (interpolateTest (pathAndPlaceholder segments) context).toList =
      ((Reading.blank.feed (Interpolation.literal v)).bind Reading.finish).map fun ts =>
        pathTokens segments ++ .compare .equal :: ts := by
  have hown : readItems .blank ((pathIdent segments ++ " = ".toList).map .own) =
      some (pathTokens segments ++ [.compare .equal], .blank) := by
    rw [readItems_own, Reading.feed_path hne hnames]
  have hfeed := feed_testChars_append [.value v]
    (guarded_own .blank (pathIdent segments ++ " = ".toList)) (by simp) (fun q h => by cases h)
  rw [hown] at hfeed
  rw [tokens?_eq, interpolateTest, String.toList_ofList, interpolateTestChars,
    items_pathAndPlaceholder hnames hv, show Quoting.start = Reading.blank.quoting from rfl, hfeed]
  have hvalue : testChars Reading.blank.quoting [.value v] = Interpolation.literal v :=
    List.append_nil _
  rw [Option.bind_some, hvalue]
  cases Reading.blank.feed (Interpolation.literal v) with
  | none => rfl
  | some p => simp [Reading.finish, Function.comp_def]

/-- A text whose tokens write no test has no value. -/
theorem holds_of_not_ok {text : List Char}
    (h : ∀ ts, tokens? text = some ts → ∀ c, ofTokens ts ≠ .ok c) :
    ∃ e, holds text context = .error (.malformed e) := by
  have hparse : ∃ e, parse text = .error e := by
    rw [parse]
    cases hscan : scan text with
    | error e => exact ⟨e, rfl⟩
    | ok placed =>
      cases hc : ofTokens (placed.map Placed.token) with
      | error stuck => exact ⟨_, by simp only [hc]; rfl⟩
      | ok c => exact absurd hc (h _ (by rw [tokens?, hscan]; rfl) c)
  obtain ⟨e, he⟩ := hparse
  exact ⟨e, by rw [holds, evaluateText, he]⟩

/-- No test has a name after a literal that is compared with a path. -/
theorem ofTokens_name_after_literal (hne : segments ≠ []) (l : Literal) (name : String)
    (c : Condition) :
    ofTokens (pathTokens segments ++ .compare .equal :: [.literal l, .ident name]) ≠ .ok c := by
  intro h
  obtain ⟨q, hread, -⟩ := Parser.run_eq_ok.mp h
  rw [Parser.start, Parser.read?_append,
    read?_of_derivesPath (derivesPath_pathTokens hne)] at hread
  cases hread

/-- A number with an exponent leaves no test. -/
theorem malformed_of_exponent (hne : segments ≠ []) (hnames : ∀ s ∈ segments, IsName s)
    {n : Number} (hv : context.lookup? (pathIdent segments) = some (.number n))
    (hn : ¬n.IsPositional) :
    ∃ e, holds (interpolateTest (pathAndPlaceholder segments) context).toList context =
      .error (.malformed e) := by
  refine holds_of_not_ok fun ts hts => ?_
  have htext : Interpolation.literal (.number n) = n.toJson := String.toList_ofList
  rw [tokens?_pathAndPlaceholder hne hnames hv, htext] at hts
  rcases tokens?_of_exponent hn with hnone | ⟨l, name, hsome⟩
  · rw [hnone] at hts
    cases hts
  · rw [hsome] at hts
    cases hts
    exact ofTokens_name_after_literal hne l name

theorem exists_literal? (hscalar : v.kind ≠ .array ∧ v.kind ≠ .object) :
    ∃ l, literal? v = some l := by
  cases v with
  | array xs => exact absurd rfl hscalar.1
  | object ms => exact absurd rfl hscalar.2
  | _ => exact ⟨_, rfl⟩

/-- **A path equals its placeholder**, whatever scalar it names, unless the scalar is a number so
large or so small that its text has an exponent; then there is no such test. -/
theorem path_equals_placeholder (segments : List String) (context v : Value)
    (hne : segments ≠ []) (hnames : ∀ s ∈ segments, IsName s)
    (hv : context.lookup? (pathIdent segments) = some v)
    (hscalar : v.kind ≠ .array ∧ v.kind ≠ .object) :
    let test := (interpolateTest (pathAndPlaceholder segments) context).toList
    ((∀ n, v = .number n → n.IsPositional) → holds test context = .ok true) ∧
    (∀ n, v = .number n → ¬n.IsPositional → ∃ e, holds test context = .error (.malformed e)) := by
  intro test
  constructor
  · intro hn
    obtain ⟨l, hl⟩ := exists_literal? hscalar
    have htokens : tokens? test =
        some (pathTokens segments ++ .compare .equal :: [.literal l]) := by
      rw [tokens?_pathAndPlaceholder hne hnames hv, tokens?_literal hl hn]
      rfl
    have htree : ofTokens (pathTokens segments ++ .compare .equal :: [.literal l]) =
        .ok (.compare .equal (.path segments) (.literal l)) :=
      ofTokens_eq_ok.mpr (.conjunction (.negation (.comparison
        (.compare .equal (.path (derivesPath_pathTokens hne)) (.literal l)))))
    have hpath : evaluate context (.path segments) = .ok v := by
      rw [evaluate, hv, Option.getD_some]
    refine holds_of_comparison htokens htree hpath rfl ?_
    rw [compareValues, looselyEqual_value hl]
  · rintro n rfl hn
    exact malformed_of_exponent hne hnames hv hn

/-- A number that is written with a fraction, at the end of a path. -/
theorem path_equals_placeholder_of_tenth :
    let context : Value := .object [("a", .object [("b", .number .tenth)])]
    holds (interpolateTest "a.b = {{a.b}}" context).toList context = .ok true := by
  intro context
  have htenth : Number.tenth.IsPositional := by decide +kernel
  have hlookup : context.lookup? (pathIdent ["a", "b"]) = some (.number .tenth) := rfl
  refine (path_equals_placeholder ["a", "b"] context (.number .tenth) (by decide) (by decide)
    hlookup ⟨by decide, by decide⟩).1 ?_
  rintro n ⟨rfl⟩
  exact htenth

/-- A path that names 10^16 differs from its placeholder. -/
theorem path_differs_from_placeholder :
    ¬∀ (segments : List String) (context v : Value), segments ≠ [] → (∀ s ∈ segments, IsName s) →
      context.lookup? (pathIdent segments) = some v → v.kind ≠ .array ∧ v.kind ≠ .object →
        holds (interpolateTest (pathAndPlaceholder segments) context).toList context =
          .ok true := by
  intro h
  have hlarge : ¬Number.tenQuadrillion.IsPositional := by decide +kernel
  have hname : ∀ s ∈ ["x"], IsName s := by decide
  have hlookup : Value.lookup? (.object [("x", .number .tenQuadrillion)]) (pathIdent ["x"]) =
      some (.number .tenQuadrillion) := rfl
  have htrue := h ["x"] _ _ (by decide) hname hlookup ⟨by decide, by decide⟩
  obtain ⟨e, he⟩ := malformed_of_exponent (List.cons_ne_nil "x" []) hname hlookup hlarge
  rw [he] at htrue
  cases htrue

end Condition

end Transclude
