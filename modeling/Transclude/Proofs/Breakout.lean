/-
What a value can do directly after a backslash.

A backslash of the author takes the first character of what is spliced in after it.  If that is the
backslash of an escaped quotation mark, the mark itself closes the literal, and the rest of the
value is read as tokens.

* `shape_iff_guarded` — tests keep their shape exactly up to a placeholder in such a place;
* `value_read_as_path` — a test in which a value is read as the path of another variable.

Design notes: that a placeholder in such a place does harm is shown by contexts made for the
purpose.  `uniform` gives one string to all identifiers that have a value, so that what is resolved
in the rest of the test stays as it was.
-/
import Transclude.Proofs.Placeholder
import Transclude.Proofs.Shape

namespace Transclude

namespace Value

/-! ### Contexts that give one string to some identifiers -/

/-- The context in which each of some identifiers names the same string. -/
def uniform (idents : List (List Char)) (s : String) : Value :=
  .object (idents.map fun ident => (String.ofList ident, .string s))

theorem member?_uniform (idents : List (List Char)) (s : String) (ident : List Char) :
    member? (String.ofList ident) (idents.map fun i => (String.ofList i, .string s)) =
      if ident ∈ idents then some (.string s) else none := by
  induction idents with
  | nil => rfl
  | cons i idents ih =>
    by_cases h : i = ident
    · simp [member?, h]
    · have hs : ¬String.ofList i = String.ofList ident := fun he =>
        h (by simpa using congrArg String.toList he)
      rw [member?] at ih ⊢
      rw [List.map_cons, List.find?_cons_of_neg (by simpa using hs), ih]
      simp [Ne.symm h]

theorem lookup?_uniform_of_mem {idents : List (List Char)} {ident : List Char}
    (h : ident ∈ idents) (hne : ident ≠ []) (s : String) :
    (uniform idents s).lookup? ident = some (.string s) := by
  rw [lookup?, if_neg hne, uniform, keyed?, member?_uniform, if_pos h]

theorem lookup?_string {ident : List Char} (hne : ident ≠ []) (s : String) :
    (Value.string s).lookup? ident = none := by
  have hk : (Value.string s).keyed? (String.ofList ident) = none := rfl
  rw [lookup?, if_neg hne, hk]
  cases hs : Text.split '.' ident with
  | nil => exact absurd hs (Text.split_ne_nil '.' ident)
  | cons a ss => simp [walk?, step?]

theorem lookup?_uniform_of_not_mem {idents : List (List Char)} {ident : List Char}
    (h : ident ∉ idents) (hne : ident ≠ []) (s : String) :
    (uniform idents s).lookup? ident = none := by
  rw [lookup?, if_neg hne, uniform, keyed?, member?_uniform, if_neg h]
  by_cases hd : '.' ∈ ident
  · -- a path leads to a string with its first segment at best, and no further
    obtain ⟨a, b, rfl⟩ := List.append_of_mem hd
    simp only [if_pos hd, Text.split_append]
    cases ha : Text.split '.' a with
    | nil => exact absurd ha (Text.split_ne_nil '.' a)
    | cons x xs =>
      rw [List.cons_append, walk?, step?, member?_uniform]
      cases hr : xs ++ Text.split '.' b with
      | nil => exact absurd (List.append_eq_nil_iff.mp hr).2 (Text.split_ne_nil '.' b)
      | cons y ys => by_cases hx : x ∈ idents <;> simp [hx, walk?, step?]
  · simp [hd]

end Value

namespace Interpolation

open Condition

/-- The identifiers among some pieces that a context resolves. -/
def resolved (v : Value) : List Piece → List (List Char)
  | [] => []
  | .char _ :: ps => resolved v ps
  | .placeholder _ ident :: ps =>
    if (v.lookup? ident).isSome then ident :: resolved v ps else resolved v ps

theorem mem_resolved {v : Value} {ps : List Piece} {ident : List Char} :
    ident ∈ resolved v ps ↔
      (v.lookup? ident).isSome = true ∧ ∃ written, Piece.placeholder written ident ∈ ps := by
  induction ps with
  | nil => simp [resolved]
  | cons p ps ih =>
    cases p with
    | char c => simp [resolved, ih]
    | placeholder written i =>
      by_cases hi : (v.lookup? i).isSome = true
      · rw [resolved, if_pos hi, List.mem_cons, ih]
        grind
      · rw [resolved, if_neg hi, ih]
        grind

/-- Where strings are substituted, any string can be. -/
theorem exists_sameStrings {ps : List Piece} {v : Value} (h : SameStrings ps v v)
    {written ident : List Char} (hm : Piece.placeholder written ident ∈ ps)
    (hr : (v.lookup? ident).isSome = true) (s : String) :
    ∃ w, SameStrings ps v w ∧ w.lookup? ident = some (.string s) := by
  by_cases hi : ident = []
  · -- the context itself is substituted, and is a string
    subst hi
    obtain ⟨a, rfl⟩ : ∃ a, v = .string a := by
      rcases h written [] hm with ⟨hv, -⟩ | ⟨a, -, ha, -⟩
      · simp at hv
      · exact ⟨a, Option.some.inj ha⟩
    refine ⟨.string s, ?_, rfl⟩
    intro written' j hj
    by_cases hn : j = []
    · subst hn
      exact .inr ⟨a, s, rfl, rfl⟩
    · exact .inl ⟨Value.lookup?_string hn a, Value.lookup?_string hn s⟩
  · have hempty : ∀ written', Piece.placeholder written' [] ∉ ps := by
      intro written' hj
      rcases h written' [] hj with ⟨hv, -⟩ | ⟨a, -, ha, -⟩
      · simp at hv
      · rw [Option.some.inj ha, Value.lookup?_string hi] at hr
        cases hr
    refine ⟨.uniform (resolved v ps) s, ?_, ?_⟩
    · intro written' j hj
      have hn : j ≠ [] := fun hn => hempty written' (hn ▸ hj)
      rcases h written' j hj with ⟨hv, -⟩ | ⟨a, -, ha, -⟩
      · have hmem : j ∉ resolved v ps := by
          intro hmem
          have hsome := (mem_resolved.mp hmem).1
          simp [hv] at hsome
        exact .inl ⟨hv, Value.lookup?_uniform_of_not_mem hmem hn s⟩
      · have hmem : j ∈ resolved v ps := mem_resolved.mpr ⟨by simp [ha], written', hj⟩
        exact .inr ⟨a, s, ha, Value.lookup?_uniform_of_mem hmem hn s⟩
    · exact Value.lookup?_uniform_of_mem (mem_resolved.mpr ⟨hr, written, hm⟩) hi s

/-! ### Values that close the literal around them -/

theorem isQuote_of_readItems {r r' : Reading} {its : List Item} {ts : List Token}
    (hq : ∀ q, r.quoting.opened = some q → isQuote q = true)
    (h : readItems r its = some (ts, r')) :
    ∀ q, r'.quoting.opened = some q → isQuote q = true := by
  induction its generalizing r ts with
  | nil => cases h; exact hq
  | cons i rest ih =>
    obtain ⟨⟨us, r₁⟩, hi, hm⟩ := Option.bind_eq_some_iff.mp h
    obtain ⟨⟨vs, r₂⟩, hr, he⟩ := Option.map_eq_some_iff.mp hm
    cases he
    refine ih ?_ hr
    -- after the first item, an open literal was opened by a quotation mark
    cases i with
    | own c =>
      intro q ho
      rw [Reading.quoting_step hi] at ho
      exact isQuote_of_opened_next hq ho
    | value v =>
      cases ho : r.quoting.opened with
      | none =>
        rw [Item.read_value_outside ho] at hi
        obtain ⟨_, -, he⟩ := Option.map_eq_some_iff.mp hi
        cases he
        exact fun q hb => by cases hb
      | some q =>
        cases r with
        | quoted q' content escaped => cases hi; exact hq
        | _ => cases ho

/-- A test that is not guarded has a first placeholder directly after an unescaped backslash. -/
theorem exists_of_not_guarded {v : Value} {ps : List Piece} {r : Reading}
    (h : guarded r (ps.flatMap (Piece.items v)) = false) :
    ∃ qs written ident rs ts r', ps = qs ++ .placeholder written ident :: rs ∧
      (v.lookup? ident).isSome = true ∧ guarded r (qs.flatMap (Piece.items v)) = true ∧
      readItems r (qs.flatMap (Piece.items v)) = some (ts, r') ∧ r'.quoting.escaped = true := by
  induction ps generalizing r with
  | nil => cases h
  | cons p ps ih =>
    rw [List.flatMap_cons, guarded_append] at h
    by_cases hg : guarded r (p.items v) = true
    · -- the first piece is not it
      rw [hg, Bool.true_and] at h
      cases hr : readItems r (p.items v) with
      | none => rw [hr] at h; cases h
      | some q =>
        obtain ⟨us, r₁⟩ := q
        rw [hr] at h
        obtain ⟨qs, written, ident, rs, ts, r', rfl, hl, hg', hr', he⟩ := ih h
        refine ⟨p :: qs, written, ident, rs, us ++ ts, r', rfl, hl, ?_, ?_, he⟩
        · rw [List.flatMap_cons, guarded_append, hg, hr, Bool.true_and]
          exact hg'
        · rw [List.flatMap_cons, readItems_append, hr, Option.bind_some, hr', Option.map_some]
    · cases p with
      | char c => exact absurd (guarded_own r [c]) hg
      | placeholder written ident =>
        rw [Piece.items] at hg
        cases hl : v.lookup? ident with
        | none => rw [hl] at hg; exact absurd (guarded_own r written) hg
        | some x =>
          rw [hl] at hg
          refine ⟨[], written, ident, ps, [], r, rfl, by simp [hl], rfl, rfl, ?_⟩
          cases he : r.quoting.escaped with
          | true => rfl
          | false =>
            refine absurd ?_ hg
            rw [guarded, Item.fits, he]
            cases Item.read r (.value x) <;> rfl

/-- The tokens of a test that ends in a placeholder: those of what is before it, and those that the
scanner makes of the value from there on. -/
theorem tokens?_of_last {text : List Char} {ps : List Piece} {written ident : List Char}
    {v : Value} {s : String} {ts : List Token} {r : Reading}
    (hp : pieces text = ps ++ [.placeholder written ident])
    (hs : SameStrings (pieces text) v v) (hl : v.lookup? ident = some (.string s))
    (hg : guarded .blank (ps.flatMap (Piece.items v)) = true)
    (hr : readItems .blank (ps.flatMap (Piece.items v)) = some (ts, r)) :
    tokens? (interpolateTestChars text v) =
      ((r.feed (testChars r.quoting [.value (.string s)])).bind Reading.finish).map (ts ++ ·) := by
  have hsub : SameStrings ps v v := hs.mono fun _ hm => hp ▸ List.mem_append_left _ hm
  have hi : items text v = ps.flatMap (Piece.items v) ++ [.value (.string s)] := by
    rw [items, hp, List.flatMap_append, List.flatMap_singleton, Piece.items, hl]
  have hf := feed_testChars_append [.value (.string s)] hg
    (fun _ hv => isQuoted_of_alike (alike_items hsub) hv) fun q h => by cases h
  rw [show Reading.blank.quoting = Quoting.start from rfl, hr] at hf
  rw [tokens?_eq, interpolateTestChars, hi, hf, Option.bind_some]
  cases r.feed (testChars r.quoting [.value (.string s)]) with
  | none => rfl
  | some p =>
    rw [Option.map_some, Option.bind_some, Option.bind_some, Reading.finish, Reading.finish]
    cases p.2.flush <;> simp

/-- A value directly after a backslash closes the literal if it begins with its quotation mark; what
follows the mark is read between lexemes. -/
theorem feed_after_backslash {q : Char} (hq : isQuote q = true) (content cs : List Char) :
    (Reading.quoted q content true).feed (escapeQuotes (q :: cs)) =
      (Reading.blank.feed (escapeQuotes cs)).map fun p =>
        (.literal (.string (String.ofList (content.reverse ++ ['\\']))) :: p.1, p.2) := by
  have hd : escapeQuotes (q :: cs) = '\\' :: q :: escapeQuotes cs := by
    rcases eq_of_isQuote hq with rfl | rfl <;> rfl
  have hb : (Reading.quoted q content true).step '\\' =
      some ([], .quoted q ('\\' :: content) false) := rfl
  have hc := Reading.step_closing hq ('\\' :: content)
  rw [List.reverse_cons] at hc
  rw [hd, Reading.feed, hb, Option.bind_some, Reading.feed, hc, Option.bind_some]
  cases Reading.blank.feed (escapeQuotes cs) <;> rfl

theorem eq_quoted_of_escaped {r : Reading} (h : r.quoting.escaped = true) :
    ∃ q content, r = .quoted q content true := by
  cases r with
  | quoted q content escaped =>
    obtain rfl : escaped = true := h
    exact ⟨q, content, rfl⟩
  | _ => cases h

/-- A placeholder directly after an unescaped backslash of a quoted literal lets its values decide
which tokens the test has. -/
theorem exists_unlike_of_escaped {text : List Char} {ps all : List Piece}
    {written ident : List Char} {v : Value} {ts : List Token} {r : Reading}
    (hp : pieces text = ps ++ [.placeholder written ident]) (hall : ∀ p ∈ pieces text, p ∈ all)
    (hs : SameStrings all v v) (hl : (v.lookup? ident).isSome = true)
    (hg : guarded .blank (ps.flatMap (Piece.items v)) = true)
    (hr : readItems .blank (ps.flatMap (Piece.items v)) = some (ts, r))
    (he : r.quoting.escaped = true) :
    ∃ w w' us us', SameStrings all v w ∧ SameStrings all v w' ∧
      tokens? (interpolateTestChars text w) = some us ∧
      tokens? (interpolateTestChars text w') = some us' ∧ ¬List.Forall₂ Token.Alike us us' := by
  obtain ⟨q, content, rfl⟩ := eq_quoted_of_escaped he
  have hq : isQuote q = true := isQuote_of_readItems (fun _ h => by cases h) hr q rfl
  have hmem : Piece.placeholder written ident ∈ all := hall _ (by simp [hp])
  -- a context whose value closes the literal, and goes on with `cs`
  have hcontext : ∀ cs out, (Reading.blank.feed (escapeQuotes cs)).bind Reading.finish = some out →
      ∃ w us t, SameStrings all v w ∧ us.length = ts.length ∧
        tokens? (interpolateTestChars text w) = some (us ++ t :: out) := by
    intro cs out hout
    obtain ⟨w, hw, hwl⟩ := exists_sameStrings hs hmem hl (String.ofList (q :: cs))
    have htextw : SameStrings (pieces text) v w := hw.mono hall
    have hsub : SameStrings ps v w := htextw.mono fun _ hm => hp ▸ List.mem_append_left _ hm
    have hgw := guarded_of_alike (alike_items hsub) (.same .blank) hg
    obtain ⟨⟨us, r'⟩, hrw, hlen, hsame⟩ :=
      exists_of_rel (hr ▸ alike_readItems (alike_items hsub.symm) (.same .blank))
    obtain ⟨q', content', rfl⟩ := eq_quoted_of_escaped (hsame.quoting_eq ▸ he)
    obtain rfl : q' = q := Option.some.inj (congrArg Quoting.opened hsame.quoting_eq)
    refine ⟨w, us, .literal (.string (String.ofList (content'.reverse ++ ['\\']))), hw,
      hlen.length_eq, ?_⟩
    have htext : testChars (Reading.quoted q' content' true).quoting
        [.value (.string (String.ofList (q' :: cs)))] = escapeQuotes (q' :: cs) := by
      simp [Reading.quoting, testChars, Value.text]
    obtain ⟨p, hfeed, hfinish⟩ := Option.bind_eq_some_iff.mp hout
    obtain ⟨vs, hflush, rfl⟩ := Option.map_eq_some_iff.mp hfinish
    rw [tokens?_of_last hp htextw.right hwl hgw hrw, htext, feed_after_backslash hq, hfeed]
    simp [Reading.finish, hflush]
  obtain ⟨w, us, t, hw, hu, ht⟩ := hcontext [] [] rfl
  obtain ⟨w', us', t', hw', hu', ht'⟩ := hcontext ['='] [.compare .equal] rfl
  refine ⟨w, w', _, _, hw, hw', ht, ht', ?_⟩
  -- one context gives a token more than the other
  intro hsame
  have hlen := hsame.length_eq
  simp only [List.length_append, List.length_cons, List.length_nil] at hlen
  omega

/-! ### The shape of tests -/

/-- **Strings keep the shape of a test exactly while it is guarded.**  In a guarded test, all
contexts that resolve the same placeholders, and these to strings, give tokens that differ in the
contents of strings at most.  A test that is not guarded has an initial part where they do not. -/
theorem shape_iff_guarded (text : String) (v : Value) (hs : SameStrings (pieces text.toList) v v) :
    (guarded .blank (items text.toList v) = true → ∀ w, SameStrings (pieces text.toList) v w →
      Option.Rel (List.Forall₂ Token.Alike) (tokens? (interpolateTest text v).toList)
        (tokens? (interpolateTest text w).toList)) ∧
    (guarded .blank (items text.toList v) = false →
      ∃ initial, initial <+: text.toList ∧ ∃ w w' us us',
        SameStrings (pieces text.toList) v w ∧ SameStrings (pieces text.toList) v w' ∧
        tokens? (interpolateTestChars initial w) = some us ∧
        tokens? (interpolateTestChars initial w') = some us' ∧
        ¬List.Forall₂ Token.Alike us us') := by
  constructor
  · intro hg w hw
    rw [interpolateTest, interpolateTest, String.toList_ofList, String.toList_ofList]
    exact alike_of_guarded hw hg
  · intro hg
    obtain ⟨ps, written, ident, rs, ts, r, hp, hl, hg, hr, he⟩ := exists_of_not_guarded hg
    have hsplit : pieces text.toList = (ps ++ [.placeholder written ident]) ++ rs := by
      rw [hp, List.append_assoc, List.singleton_append]
    have hinitial := pieces_of_append hsplit
    refine ⟨(ps ++ [Piece.placeholder written ident]).flatMap Piece.written, ?_, ?_⟩
    · refine ⟨rs.flatMap Piece.written, ?_⟩
      rw [← List.flatMap_append, ← hsplit, flatMap_written_pieces]
    · refine exists_unlike_of_escaped hinitial ?_ hs hl hg hr he
      intro p hm
      rw [hinitial] at hm
      exact hsplit ▸ List.mem_append_left rs hm

/-- A guarded test: both contexts give the tokens of a comparison of strings. -/
theorem shape_of_compared_placeholders :
    Option.Rel (List.Forall₂ Token.Alike)
      (tokens? (interpolateTest "'{{x}}' = {{y}}"
        (.object [("x", .string "a"), ("y", .string "x")])).toList)
      (tokens? (interpolateTest "'{{x}}' = {{y}}"
        (.object [("x", .string "it's"), ("y", .string "true")])).toList) := by
  have hpieces : pieces "'{{x}}' = {{y}}".toList =
      [.char '\'', .placeholder "{{x}}".toList ['x'], .char '\'', .char ' ', .char '=', .char ' ',
        .placeholder "{{y}}".toList ['y']] := by rfl
  have hsame : ∀ s t s' t', SameStrings (pieces "'{{x}}' = {{y}}".toList)
      (.object [("x", .string s), ("y", .string t)])
      (.object [("x", .string s'), ("y", .string t')]) := by
    intro s t s' t'
    simp only [hpieces, sameStrings_char, sameStrings_placeholder]
    exact ⟨.inr ⟨s, s', rfl, rfl⟩, .inr ⟨t, t', rfl, rfl⟩, sameStrings_nil _ _⟩
  exact (shape_iff_guarded _ _ (hsame _ _ _ _)).1 (by decide) _ (hsame _ _ _ _)

/-- After the backslash the quotation mark of the author counts as escaped, and the value outside
the literal is spliced in bare: it is read as the path `x` or as the keyword `true`. -/
theorem value_read_as_path :
    ¬∀ (text : String) (v w : Value), SameStrings (pieces text.toList) v w → ∀ us us',
      tokens? (interpolateTest text v).toList = some us →
      tokens? (interpolateTest text w).toList = some us' → List.Forall₂ Token.Alike us us' := by
  intro h
  have hpieces : pieces "'\\{{x}}' = {{y}}".toList =
      [.char '\'', .char '\\', .placeholder "{{x}}".toList ['x'], .char '\'', .char ' ', .char '=',
        .char ' ', .placeholder "{{y}}".toList ['y']] := by rfl
  have hsame : SameStrings (pieces "'\\{{x}}' = {{y}}".toList)
      (.object [("x", .string "a"), ("y", .string "x")])
      (.object [("x", .string "a"), ("y", .string "true")]) := by
    simp only [hpieces, sameStrings_char, sameStrings_placeholder]
    exact ⟨.inr ⟨"a", "a", rfl, rfl⟩, .inr ⟨"x", "true", rfl, rfl⟩, sameStrings_nil _ _⟩
  have halike := h "'\\{{x}}' = {{y}}" _ _ hsame
    [.literal (.string "a"), .compare .equal, .ident "x"]
    [.literal (.string "a"), .compare .equal, .literal (.bool true)] (by decide) (by decide)
  -- the third tokens are a path and a keyword
  rw [List.forall₂_cons, List.forall₂_cons, List.forall₂_cons] at halike
  obtain ⟨-, -, hthird, -⟩ := halike
  cases hthird

end Interpolation

end Transclude
