/-
Comparisons of strings with literals.

A test that compares a placeholder with a literal decides whether the two strings are the same,
whatever is in them, and whether or not the placeholder stands in quotation marks itself.

* `evaluateText_of_tokens` — the value of a test, from its tokens;
* `Verbatim` — texts without placeholders, which stay as they are;
* `verbatim_escapeQuotes` — escaping a text does not make placeholders;
* `equality_of_strings` — tests with `=` and with `!=` decide whether two strings are the same.
-/
import Transclude.Condition.Evaluate
import Transclude.Proofs.Placeholder
import Transclude.Proofs.Substitution

namespace Transclude

/-! ### From tokens to values -/

namespace Condition

variable {text : List Char} {ts : List Token}

theorem exists_scan_of_tokens? (h : tokens? text = some ts) :
    ∃ placed, scan text = .ok placed ∧ placed.map Placed.token = ts := by
  rw [tokens?] at h
  cases hs : scan text with
  | error e =>
    rw [hs] at h
    cases h
  | ok placed =>
    rw [hs] at h
    exact ⟨placed, rfl, Option.some.inj h⟩

/-- The value of a test is that of the tree of its tokens. -/
theorem evaluateText_of_tokens (h : tokens? text = some ts) {c : Condition}
    (hc : ofTokens ts = .ok c) (context : Value) :
    evaluateText text context = evaluate context c := by
  obtain ⟨placed, hscan, rfl⟩ := exists_scan_of_tokens? h
  rw [evaluateText, parse, hscan]
  simp only [hc]

/-- Two operands are compared by their values. -/
theorem holds_of_comparison {op : Comparison} {l r : Condition} {context v w : Value} {b : Bool}
    (h : tokens? text = some ts) (hc : ofTokens ts = .ok (.compare op l r))
    (hl : evaluate context l = .ok v) (hr : evaluate context r = .ok w)
    (hb : compareValues op v w = .ok b) : holds text context = .ok b := by
  have hvalue : evaluate context (.compare op l r) = .ok (.bool b) := by
    rw [evaluate, hl, hr]
    show (do return Value.bool (← compareValues op v w)) = _
    rw [hb]
    rfl
  rw [holds, evaluateText_of_tokens h hc, hvalue]

end Condition

namespace Interpolation

open Condition

/-! ### Texts without placeholders -/

theorem ne_brace_of_isQuote {q : Char} (h : isQuote q = true) : q ≠ '{' ∧ q ≠ '}' := by
  rcases eq_of_isQuote h with rfl | rfl <;> decide

/-- Whether a text has no placeholders: all its pieces are characters. -/
def Verbatim (text : List Char) : Prop := pieces text = text.map .char

theorem verbatim_cons {c : Char} {cs : List Char} :
    Verbatim (c :: cs) ↔ placeholder? (c :: cs) = none ∧ Verbatim cs := by
  cases h : placeholder? (c :: cs) with
  | none => simp [Verbatim, pieces_char h]
  | some r =>
    obtain ⟨written, hw, ht⟩ := placeholder?_eq_some_iff.mp h
    have hp := pieces_placeholder hw r.2
    rw [← ht] at hp
    simp [Verbatim, hp]

theorem placeholder?_of_ne {c : Char} (hc : c ≠ '{') (cs : List Char) :
    placeholder? (c :: cs) = none := by
  cases h : placeholder? (c :: cs) with
  | none => rfl
  | some r =>
    obtain ⟨written, ⟨before, after, hw, -⟩, ht⟩ := placeholder?_eq_some_iff.mp h
    rw [hw, List.cons_append, List.cons.injEq] at ht
    exact absurd ht.1 hc

/-- A character that begins no placeholder does not make one. -/
theorem Verbatim.cons {c : Char} {cs : List Char} (hc : c ≠ '{') (h : Verbatim cs) :
    Verbatim (c :: cs) := verbatim_cons.mpr ⟨placeholder?_of_ne hc cs, h⟩

theorem Verbatim.append {a cs : List Char} (ha : '{' ∉ a) (h : Verbatim cs) :
    Verbatim (a ++ cs) := by
  induction a with
  | nil => exact h
  | cons c a ih =>
    rw [List.mem_cons, not_or] at ha
    exact .cons (Ne.symm ha.1) (ih ha.2)

/-- A text has no placeholders if no part of it has the form of one. -/
theorem verbatim_of_forall {text : List Char}
    (h : ∀ written ident, IsPlaceholder written ident → ¬written <:+: text) : Verbatim text := by
  induction text with
  | nil => rfl
  | cons c cs ih =>
    refine verbatim_cons.mpr ⟨?_, ih fun written ident hw hin => ?_⟩
    · refine Option.eq_none_iff_forall_ne_some.mpr fun r hr => ?_
      obtain ⟨written, hw, ht⟩ := placeholder?_eq_some_iff.mp hr
      exact h written r.1 hw (ht ▸ (List.prefix_append written r.2).isInfix)
    · exact h written ident hw (hin.trans (List.suffix_cons c cs).isInfix)

theorem items_of_verbatim {text : List Char} (h : Verbatim text) (context : Value) :
    items text context = text.map .own := by
  rw [items, h, List.flatMap_map, List.map_eq_flatMap]
  rfl

theorem items_char {c : Char} (hc : c ≠ '{') (cs : List Char) (context : Value) :
    items (c :: cs) context = .own c :: items cs context := by
  rw [items, pieces_char (placeholder?_of_ne hc cs)]
  rfl

theorem items_append_of_not_mem {a : List Char} (ha : '{' ∉ a) (cs : List Char)
    (context : Value) : items (a ++ cs) context = a.map .own ++ items cs context := by
  induction a with
  | nil => rfl
  | cons c a ih =>
    rw [List.mem_cons, not_or] at ha
    rw [List.cons_append, items_char (Ne.symm ha.1), ih ha.2]
    rfl

theorem items_placeholder {written ident : List Char} (hw : IsPlaceholder written ident)
    {context v : Value} (hv : context.lookup? ident = some v) (rest : List Char) :
    items (written ++ rest) context = .value v :: items rest context := by
  rw [items, pieces_placeholder hw, List.flatMap_cons, Piece.items, hv]
  rfl

/-- The placeholder of an identifier, without blanks. -/
def placeholderOf (ident : String) : String := "\x7b\x7b" ++ ident ++ "\x7d\x7d"

theorem isPlaceholder_placeholderOf {ident : String}
    (h : ∀ c ∈ ident.toList, isIdentChar c = true) :
    IsPlaceholder (placeholderOf ident).toList ident.toList :=
  ⟨[], [], by simp [placeholderOf], by simp, fun c hc => isIdentChar_iff.mp (h c hc), by simp⟩

/-! ### Escaped texts without placeholders -/

theorem escapeQuotes_cons (c : Char) (cs : List Char) :
    escapeQuotes (c :: cs) =
      (if c = '\\' || isQuote c then ['\\', c] else [c]) ++ escapeQuotes cs := rfl

/-- A character that is not escaped stands at the beginning if it did before. -/
theorem exists_cons_of_escapeQuotes {q c : Char} {cs rest : List Char} (hb : c ≠ '\\')
    (hq : c ≠ q) (h : escapeQuotes cs ++ [q] = c :: rest) :
    ∃ cs', cs = c :: cs' ∧ rest = escapeQuotes cs' ++ [q] := by
  cases cs with
  | nil => exact absurd (List.cons.inj h).1.symm hq
  | cons d ds =>
    rw [escapeQuotes_cons] at h
    split at h
    · exact absurd (List.cons.inj h).1.symm hb
    · obtain ⟨rfl, rfl⟩ := List.cons.inj h
      exact ⟨ds, rfl, rfl⟩

/-- What is skipped of a text up to the first character that is escaped is skipped of the escaped
text. -/
theorem dropWhile_escapeQuotes_of_neg {p : Char → Bool} {q : Char} (hb : p '\\' = false)
    (hp : ∀ c, isQuote c = true → p c = false) (hq : isQuote q = true) (cs : List Char) :
    (escapeQuotes cs ++ [q]).dropWhile p = escapeQuotes (cs.dropWhile p) ++ [q] := by
  induction cs with
  | nil => simp [escapeQuotes, hp q hq]
  | cons c cs ih =>
    by_cases hc : (c = '\\' || isQuote c) = true
    · have hn : p c = false := by
        rcases Bool.or_eq_true_iff.mp hc with h | h
        · rw [of_decide_eq_true h, hb]
        · exact hp c h
      rw [List.dropWhile_cons_of_neg (by simp [hn]), escapeQuotes_cons, if_pos hc]
      simp [hb]
    · rw [escapeQuotes_cons, if_neg hc]
      cases hn : p c with
      | true =>
        rw [List.dropWhile_cons_of_pos hn, List.append_assoc, List.singleton_append,
          List.dropWhile_cons_of_pos hn, ih]
      | false =>
        rw [List.dropWhile_cons_of_neg (by simp [hn]), List.append_assoc, List.singleton_append,
          List.dropWhile_cons_of_neg (by simp [hn]), escapeQuotes_cons, if_neg hc]
        simp

/-- What is skipped of a text together with all that is escaped is skipped of the escaped text; if
that is everything, the closing mark is skipped as well. -/
theorem dropWhile_escapeQuotes_of_pos {p : Char → Bool} {q : Char} (hb : p '\\' = true)
    (hp : ∀ c, isQuote c = true → p c = true) (hq : isQuote q = true) (cs : List Char) :
    (escapeQuotes cs ++ [q]).dropWhile p =
      if cs.dropWhile p = [] then [] else escapeQuotes (cs.dropWhile p) ++ [q] := by
  induction cs with
  | nil => simp [escapeQuotes, hp q hq]
  | cons c cs ih =>
    by_cases hc : (c = '\\' || isQuote c) = true
    · have hn : p c = true := by
        rcases Bool.or_eq_true_iff.mp hc with h | h
        · rw [of_decide_eq_true h, hb]
        · exact hp c h
      rw [List.dropWhile_cons_of_pos hn, escapeQuotes_cons, if_pos hc, ← ih]
      simp [hb, hn]
    · rw [escapeQuotes_cons, if_neg hc, List.append_assoc, List.singleton_append]
      cases hn : p c with
      | true => rw [List.dropWhile_cons_of_pos hn, List.dropWhile_cons_of_pos hn, ih]
      | false =>
        rw [List.dropWhile_cons_of_neg (by simp [hn]), List.dropWhile_cons_of_neg (by simp [hn]),
          if_neg (List.cons_ne_nil c cs), escapeQuotes_cons, if_neg hc]
        simp

theorem exists_placeholder?_iff {cs : List Char} :
    (∃ r, placeholder? cs = some r) ↔ ∃ body rest, cs = '{' :: '{' :: body ∧
      ((body.dropWhile Text.isBlank).dropWhile isIdentChar).dropWhile Text.isBlank =
        '}' :: '}' :: rest := by
  constructor
  · rintro ⟨r, hr⟩
    unfold placeholder? at hr
    split at hr
    · simp only at hr
      split at hr
      · rename_i rest hclose
        exact ⟨_, rest, rfl, hclose⟩
      · cases hr
    · cases hr
  · rintro ⟨body, rest, rfl, hclose⟩
    simp only [placeholder?, hclose]
    exact ⟨_, rfl⟩

/-- Escaping makes no placeholder at the beginning of a text. -/
theorem placeholder?_escapeQuotes {q : Char} (hq : isQuote q = true) {cs : List Char}
    (h : placeholder? cs = none) : placeholder? (escapeQuotes cs ++ [q]) = none := by
  obtain ⟨hopening, hclosing⟩ := ne_brace_of_isQuote hq
  have hblank : ∀ c, isQuote c = true → Text.isBlank c = false := by
    intro c hc
    rcases eq_of_isQuote hc with rfl | rfl <;> rfl
  have hident : ∀ c, isQuote c = true → isIdentChar c = true := by
    intro c hc
    rcases eq_of_isQuote hc with rfl | rfl <;> rfl
  refine Option.eq_none_iff_forall_ne_some.mpr fun r hr => ?_
  obtain ⟨body, rest, hopen, hclose⟩ := exists_placeholder?_iff.mp ⟨r, hr⟩
  -- the braces of the escaped text are those of the text, and so is what is between them
  obtain ⟨cs₁, rfl, h₁⟩ := exists_cons_of_escapeQuotes (by decide) hopening.symm hopen
  obtain ⟨cs₂, rfl, rfl⟩ := exists_cons_of_escapeQuotes (by decide) hopening.symm h₁.symm
  rw [dropWhile_escapeQuotes_of_neg rfl hblank hq, dropWhile_escapeQuotes_of_pos rfl hident hq]
    at hclose
  split at hclose
  · cases hclose
  · rw [dropWhile_escapeQuotes_of_neg rfl hblank hq] at hclose
    obtain ⟨cs₃, h₃, h₄⟩ := exists_cons_of_escapeQuotes (by decide) hclosing.symm hclose
    obtain ⟨cs₄, rfl, -⟩ := exists_cons_of_escapeQuotes (by decide) hclosing.symm h₄.symm
    obtain ⟨r', hr'⟩ := exists_placeholder?_iff.mpr ⟨cs₂, cs₄, rfl, h₃⟩
    rw [h] at hr'
    cases hr'

/-- Escaping a text makes no placeholders. -/
theorem verbatim_escapeQuotes {q : Char} (hq : isQuote q = true) {cs : List Char}
    (h : Verbatim cs) : Verbatim (escapeQuotes cs ++ [q]) := by
  induction cs with
  | nil => exact .cons (ne_brace_of_isQuote hq).1 rfl
  | cons c cs ih =>
    obtain ⟨hc, hcs⟩ := verbatim_cons.mp h
    have hrest := ih hcs
    by_cases he : (c = '\\' || isQuote c) = true
    · have hne : c ≠ '{' := by
        rintro rfl
        cases he
      rw [escapeQuotes_cons, if_pos he]
      exact .cons (by decide) (.cons hne hrest)
    · have hfirst := placeholder?_escapeQuotes hq hc
      rw [escapeQuotes_cons, if_neg he] at hfirst ⊢
      exact verbatim_cons.mpr ⟨hfirst, hrest⟩

/-! ### Strings in a test -/

theorem readItems_own (r : Reading) (cs : List Char) :
    readItems r (cs.map .own) = r.feed cs := by
  induction cs generalizing r with
  | nil => rfl
  | cons c cs ih =>
    rw [List.map_cons, readItems, Reading.feed, Item.read]
    simp only [ih]

/-- The items of a string in a test: outside of quotes, or between quotation marks. -/
inductive IsOperand (s : String) : List Item → Prop
  | bare : IsOperand s [.value (.string s)]
  | quoted {r : Char} (hr : isQuote r = true) : IsOperand s [.own r, .value (.string s), .own r]

/-- Either way the string is one token. -/
theorem IsOperand.readItems_eq {s : String} {its : List Item} (h : IsOperand s its) :
    readItems .blank its = some ([.literal (.string s)], .blank) := by
  cases h with
  | bare => rfl
  | @quoted r hr =>
    have hopen : Reading.blank.step r = some ([], .quoted r [] false) := by
      rcases eq_of_isQuote hr with rfl | rfl <;> rfl
    have hvalue : Item.read (.quoted r [] false) (.value (.string s)) =
        some ([], .quoted r s.toList.reverse false) := by
      simp [Item.read, Value.text]
    have hclose := Reading.step_closing hr s.toList.reverse
    rw [List.reverse_reverse, String.ofList_toList] at hclose
    rw [readItems, Item.read, hopen, Option.bind_some, readItems, hvalue, Option.bind_some,
      readItems, Item.read, hclose]
    rfl

theorem IsOperand.guarded {s : String} {its : List Item} (h : IsOperand s its) :
    guarded .blank its = true := by
  cases h with
  | bare => rfl
  | quoted hr => rcases eq_of_isQuote hr with rfl | rfl <;> rfl

theorem IsOperand.isQuoted {s : String} {its : List Item} (h : IsOperand s its) {v : Value}
    (hv : Item.value v ∈ its) : IsQuoted v := by
  have hs : v = .string s := by
    cases h <;> simpa using hv
  exact hs ▸ .inl rfl

/-- The tokens of a string that is compared with a literal. -/
theorem tokens?_of_operand {text rest : List Char} {context : Value} {s : String}
    {its : List Item} (h : IsOperand s its) (hi : items text context = its ++ rest.map .own) :
    tokens? (interpolateTestChars text context) =
      ((Reading.blank.feed rest).bind Reading.finish).map (.literal (.string s) :: ·) := by
  have hg : Interpolation.guarded .blank (items text context) = true := by
    rw [hi, guarded_append, h.guarded, h.readItems_eq, Bool.true_and]
    exact guarded_own .blank rest
  have hv : ∀ v, Item.value v ∈ items text context → IsQuoted v := by
    intro v hv
    rw [hi, List.mem_append] at hv
    rcases hv with hv | hv
    · exact h.isQuoted hv
    · obtain ⟨c, -, hc⟩ := List.mem_map.mp hv
      cases hc
  rw [tokens?_interpolateTestChars hg hv, itemTokens?, hi, readItems_append, h.readItems_eq,
    Option.bind_some, readItems_own]
  cases Reading.blank.feed rest with
  | none => rfl
  | some p =>
    simp only [Option.map_some, Option.bind_some, Reading.finish]
    cases p.2.flush <;> rfl

/-! ### Equality -/

/-- A text as a literal of a test, between quotation marks. -/
def quotedText (q : Char) (a : String) : String :=
  String.ofList (q :: (escapeQuotes a.toList ++ [q]))

theorem verbatim_quotedText {q : Char} (hq : isQuote q = true) {a : String}
    (ha : Verbatim a.toList) : Verbatim (quotedText q a).toList := by
  rw [quotedText, String.toList_ofList]
  exact .cons (ne_brace_of_isQuote hq).1 (verbatim_escapeQuotes hq ha)

/-- What follows a string that is compared with a literal. -/
theorem feed_compared {q : Char} (hq : isQuote q = true) (a : String) {symbol : List Char}
    {op : Comparison} (hsymbol : Reading.blank.feed symbol = some ([.compare op], .blank)) :
    (Reading.blank.feed (symbol ++ (quotedText q a).toList)).bind Reading.finish =
      some [.compare op, .literal (.string a)] := by
  rw [Reading.feed_append, hsymbol, quotedText, String.toList_ofList, Option.bind_some,
    Reading.feed_literal rfl hq, String.ofList_toList]
  rfl

/-- A comparison of a string with a literal, from its text to its outcome. -/
theorem holds_compared {text symbol : List Char} {context : Value} {s a : String} {q : Char}
    {its : List Item} {op : Comparison} {b : Bool} (hs : IsOperand s its) (hq : isQuote q = true)
    (hsymbol : Reading.blank.feed symbol = some ([.compare op], .blank))
    (hi : items text context = its ++ (symbol ++ (quotedText q a).toList).map .own)
    (hb : compareValues op (.string s) (.string a) = .ok b) :
    holds (interpolateTestChars text context) context = .ok b := by
  have htokens : tokens? (interpolateTestChars text context) =
      some [.literal (.string s), .compare op, .literal (.string a)] := by
    rw [tokens?_of_operand hs hi, feed_compared hq a hsymbol]
    rfl
  exact holds_of_comparison htokens rfl rfl rfl hb

/-- The items of a text that goes on with a comparison with a literal. -/
theorem items_compared {symbol : List Char} (hsymbol : '{' ∉ symbol) {q : Char}
    (hq : isQuote q = true) {a : String} (ha : Verbatim a.toList) (context : Value) :
    items (symbol ++ (quotedText q a).toList) context =
      (symbol ++ (quotedText q a).toList).map .own :=
  items_of_verbatim ((verbatim_quotedText hq ha).append hsymbol) context

/-- The two ways in which a placeholder can be one side of a comparison. -/
inductive Compared (written : List Char) : List Char → Prop
  | bare : Compared written written
  | quoted {r : Char} (hr : isQuote r = true) : Compared written (r :: (written ++ [r]))

theorem Compared.items_eq {written ident left : List Char} (h : Compared written left)
    (hw : IsPlaceholder written ident) {context : Value} {s : String}
    (hs : context.lookup? ident = some (.string s)) (rest : List Char) :
    ∃ its, IsOperand s its ∧ items (left ++ rest) context = its ++ items rest context := by
  cases h with
  | bare => exact ⟨_, .bare, items_placeholder hw hs rest⟩
  | @quoted r hr =>
    have hbrace := (ne_brace_of_isQuote hr).1
    refine ⟨_, .quoted hr, ?_⟩
    rw [List.cons_append, items_char hbrace, List.append_assoc, items_placeholder hw hs,
      List.singleton_append, items_char hbrace]
    rfl

/-- **Equality tests decide whether two strings are the same.**  The string of a placeholder, with or
without quotation marks around the placeholder, is compared with a literal.  The test has a value
whatever the two strings are: `=` holds if they are the same, and `!=` if they are not. -/
theorem equality_of_strings (x s a : String) (q : Char) (left : String) (context : Value)
    (hx : ∀ c ∈ x.toList, isIdentChar c = true) (hs : context.lookup? x.toList = some (.string s))
    (hq : isQuote q = true)
    (ha : ∀ written ident, IsPlaceholder written ident → ¬written <:+: a.toList)
    (hleft : left = placeholderOf x ∨
      ∃ r, isQuote r = true ∧ left = String.ofList (r :: (placeholderOf x).toList ++ [r])) :
    holds (interpolateTest (left ++ " = " ++ quotedText q a) context).toList context =
      .ok (decide (s = a)) ∧
    holds (interpolateTest (left ++ " != " ++ quotedText q a) context).toList context =
      .ok (decide (s ≠ a)) := by
  have hverbatim := verbatim_of_forall ha
  have hcompared : Compared (placeholderOf x).toList left.toList := by
    rcases hleft with rfl | ⟨r, hr, rfl⟩
    · exact .bare
    · rw [String.toList_ofList]
      exact .quoted hr
  have hside := fun rest =>
    hcompared.items_eq (isPlaceholder_placeholderOf hx) hs rest
  constructor
  · obtain ⟨its, hoperand, hitems⟩ := hside (" = ".toList ++ (quotedText q a).toList)
    rw [items_compared (by decide) hq hverbatim] at hitems
    rw [interpolateTest, String.toList_ofList, String.toList_append, String.toList_append,
      List.append_assoc]
    exact holds_compared hoperand hq rfl hitems rfl
  · obtain ⟨its, hoperand, hitems⟩ := hside (" != ".toList ++ (quotedText q a).toList)
    rw [items_compared (by decide) hq hverbatim] at hitems
    have hdiffer : compareValues .notEqual (.string s) (.string a) = .ok (decide (s ≠ a)) := by
      rw [decide_not]
      rfl
    rw [interpolateTest, String.toList_ofList, String.toList_append, String.toList_append,
      List.append_assoc]
    exact holds_compared hoperand hq rfl hitems hdiffer

/-- A string with a quotation mark and a backslash, which is also the name of a variable. -/
theorem equality_of_strings_with_escapes :
    let context : Value := .object [("x", .string "it's\\"), ("it's\\", .string "no")]
    holds (interpolateTest "{{x}} = 'it\\'s\\\\'" context).toList context = .ok true ∧
    holds (interpolateTest "\"{{x}}\" != \"its\"" context).toList context = .ok true := by
  intro context
  -- a text without braces has no placeholders
  have hnone : ∀ a : List Char, '{' ∉ a → ∀ written ident, IsPlaceholder written ident →
      ¬written <:+: a := by
    rintro a ha written ident ⟨before, after, rfl, -⟩ hin
    exact ha (hin.subset List.mem_cons_self)
  have hx : ∀ c ∈ "x".toList, isIdentChar c = true := List.all_eq_true.mp (by decide)
  have hsame := equality_of_strings "x" "it's\\" "it's\\" '\'' "{{x}}" context hx rfl rfl
    (hnone _ (by decide)) (.inl rfl)
  have hother := equality_of_strings "x" "it's\\" "its" '"' "\"{{x}}\"" context hx rfl rfl
    (hnone _ (by decide)) (.inr ⟨'"', rfl, rfl⟩)
  exact ⟨hsame.1, hother.2⟩

end Interpolation

end Transclude
