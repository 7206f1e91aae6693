/-
The tokens of a test with values in it.

A test with placeholders has a reading that never writes a value into its text: the author's
characters are read as they are, a value outside of quotes is a string token of its own, and a value
inside a quoted literal adds its characters to that literal.

* `itemTokens?` — the tokens of this reading;
* `guarded` — no value stands directly after an unescaped backslash of a quoted literal;
* `scan_interpolateTest_iff` — a guarded test has exactly these tokens once it is interpolated, if
  its values are strings, arrays and objects.

Design notes: the proof runs the scanner over the interpolated text beside the reading of the items.
Both are always in the same lexeme, and the `Quoting` of the author's characters is how far that
lexeme has come in a literal (`Reading.quoting_step`).  A value keeps this so, because the scanner
takes off exactly the backslashes that the splicing puts on.
-/
import Transclude.Proofs.Quotation

namespace Transclude.Interpolation

open Condition

/-! ### Reading items -/

/-- Reads an item: a character of the author as the scanner does; a value adds its text to the
literal around it, and outside of quotes it is a string token. -/
def Item.read (r : Reading) : Item → Option (List Token × Reading)
  | .own c => r.step c
  | .value v =>
    match r with
    | .quoted q content escaped =>
      some ([], .quoted q (v.text.toList.reverse ++ content) escaped)
    | r => r.flush.map fun ts => (ts ++ [.literal (.string v.text)], .blank)

/-- Reads more items. -/
def readItems (r : Reading) : List Item → Option (List Token × Reading)
  | [] => some ([], r)
  | i :: rest =>
    (i.read r).bind fun p => (readItems p.2 rest).map fun q => (p.1 ++ q.1, q.2)

/-- The tokens that a test of these items has. -/
def itemTokens? (its : List Item) : Option (List Token) :=
  (readItems .blank its).bind Reading.finish

/-- Whether an item may stand where this is being read: a value may not stand directly after an
unescaped backslash of a quoted literal. -/
def Item.fits (r : Reading) : Item → Bool
  | .own _ => true
  | .value _ => !r.quoting.escaped

/-- Whether no value stands directly after an unescaped backslash of a quoted literal. -/
def guarded (r : Reading) : List Item → Bool
  | [] => true
  | i :: rest =>
    i.fits r &&
      match i.read r with
      | some (_, r') => guarded r' rest
      | none => true

/-- Whether a value is written in quotation marks outside of quotes. -/
def IsQuoted (v : Value) : Prop := v.kind = .string ∨ v.kind = .array ∨ v.kind = .object

theorem readItems_append (r : Reading) (a b : List Item) :
    readItems r (a ++ b) =
      (readItems r a).bind fun p => (readItems p.2 b).map fun q => (p.1 ++ q.1, q.2) := by
  induction a generalizing r with
  | nil => simp [readItems]
  | cons i a ih =>
    simp only [List.cons_append, readItems]
    cases i.read r with
    | none => rfl
    | some p =>
      simp only [Option.bind_some, ih]
      cases readItems p.2 a with
      | none => rfl
      | some q =>
        simp only [Option.bind_some, Option.map_some]
        cases readItems q.2 b <;> simp

theorem guarded_append (r : Reading) (a b : List Item) :
    guarded r (a ++ b) =
      (guarded r a &&
        match readItems r a with
        | some (_, r') => guarded r' b
        | none => true) := by
  induction a generalizing r with
  | nil => simp [readItems, guarded]
  | cons i a ih =>
    simp only [List.cons_append, guarded, readItems]
    cases i.read r with
    | none => simp
    | some p =>
      simp only [Option.bind_some, ih, Bool.and_assoc]
      cases readItems p.2 a <;> rfl

/-- Characters of the author may stand anywhere. -/
theorem guarded_own (r : Reading) (cs : List Char) : guarded r (cs.map Item.own) = true := by
  induction cs generalizing r with
  | nil => rfl
  | cons c cs ih =>
    rw [List.map_cons, guarded, Item.fits, Bool.true_and]
    cases Item.read r (.own c) with
    | none => rfl
    | some p => exact ih p.2

theorem Item.read_value_outside {r : Reading} (h : r.quoting.opened = none) (v : Value) :
    Item.read r (.value v) = r.flush.map fun ts => (ts ++ [.literal (.string v.text)], .blank) := by
  cases r with
  | quoted q content escaped => exact absurd h (by simp [Reading.quoting])
  | _ => rfl

/-! ### Splicing values in -/

theorem literal_of_isQuoted {v : Value} (h : IsQuoted v) :
    literal v = '\'' :: (escapeQuotes v.text.toList ++ ['\'']) := by
  cases v with
  | string s => rfl
  | array xs => rfl
  | object ms => rfl
  | _ => simp [IsQuoted, Value.kind] at h

/-- Where the quoting of the author's characters is that of the lexeme at hand, a value is written
so that the scanner reads it as the reading of items does, and stays in the same literal. -/
theorem feed_value {r : Reading} {v : Value} (hv : IsQuoted v)
    (hq : ∀ q, r.quoting.opened = some q → isQuote q = true) (he : r.quoting.escaped = false) :
    r.feed (if r.quoting.opened.isSome then escapeQuotes v.text.toList else literal v) =
      Item.read r (.value v) := by
  cases ho : r.quoting.opened with
  | none =>
    rw [literal_of_isQuoted hv, if_neg (by simp), Reading.feed_inQuotes ho, String.ofList_toList,
      Item.read_value_outside ho]
  | some q =>
    obtain ⟨content, rfl⟩ := Reading.eq_quoted_of_opened ho he
    rw [if_pos (by simp), Reading.feed_escapeQuotes (hq q ho)]
    rfl

theorem quoting_read_value {r r' : Reading} {v : Value} {ts : List Token}
    (he : r.quoting.escaped = false) (h : Item.read r (.value v) = some (ts, r')) :
    r'.quoting = r.quoting := by
  cases ho : r.quoting.opened with
  | none =>
    rw [Item.read_value_outside ho] at h
    obtain ⟨us, -, hp⟩ := Option.map_eq_some_iff.mp h
    cases hp
    exact (Reading.quoting_eq_start ho).symm
  | some q =>
    obtain ⟨content, rfl⟩ := Reading.eq_quoted_of_opened ho he
    cases h
    rfl

/-- The scanner reads the interpolated text of some items as these are read, and is then where the
text of the items after them begins. -/
theorem feed_testChars_append {r : Reading} {its : List Item} (after : List Item)
    (hg : guarded r its = true) (hv : ∀ v, Item.value v ∈ its → IsQuoted v)
    (hq : ∀ q, r.quoting.opened = some q → isQuote q = true) :
    r.feed (testChars r.quoting (its ++ after)) =
      (readItems r its).bind fun p =>
        (p.2.feed (testChars p.2.quoting after)).map fun q => (p.1 ++ q.1, q.2) := by
  induction its generalizing r with
  | nil => simp [readItems]
  | cons i rest ih =>
    rw [guarded, Bool.and_eq_true] at hg
    obtain ⟨hf, hg⟩ := hg
    have hrest : ∀ v, Item.value v ∈ rest → IsQuoted v := by
      intro v h
      exact hv v (List.mem_cons_of_mem _ h)
    -- what is left to do once both readings have taken the first item
    have htail : ∀ ts r', i.read r = some (ts, r') →
        (∀ q, r'.quoting.opened = some q → isQuote q = true) →
        ((r'.feed (testChars r'.quoting (rest ++ after))).map fun q => (ts ++ q.1, q.2)) =
          ((readItems r' rest).map fun q => (ts ++ q.1, q.2)).bind fun p =>
            (p.2.feed (testChars p.2.quoting after)).map fun q => (p.1 ++ q.1, q.2) := by
      intro ts r' hs hq'
      rw [hs] at hg
      rw [ih hg hrest hq']
      cases readItems r' rest with
      | none => rfl
      | some p =>
        simp only [Option.bind_some, Option.map_some, Option.map_map]
        cases p.2.feed (testChars p.2.quoting after) <;> simp
    cases i with
    | own c =>
      rw [List.cons_append, testChars, Reading.feed, readItems]
      cases hs : r.step c with
      | none => simp [Item.read, hs]
      | some p =>
        obtain ⟨ts, r'⟩ := p
        have hk : r'.quoting = r.quoting.next c := Reading.quoting_step hs
        rw [Item.read, hs, Option.bind_some, Option.bind_some, ← hk]
        refine htail ts r' hs ?_
        intro q h
        exact isQuote_of_opened_next hq (hk ▸ h)
    | value v =>
      have he : r.quoting.escaped = false := by simpa [Item.fits] using hf
      rw [List.cons_append, testChars, Reading.feed_append,
        feed_value (hv v List.mem_cons_self) hq he, readItems]
      cases hs : Item.read r (.value v) with
      | none => rfl
      | some p =>
        obtain ⟨ts, r'⟩ := p
        have hk : r'.quoting = r.quoting := quoting_read_value he hs
        rw [Option.bind_some, Option.bind_some, ← hk]
        refine htail ts r' hs ?_
        intro q h
        exact hq q (hk ▸ h)

theorem tokens?_interpolateTestChars {text : List Char} {context : Value}
    (hg : guarded .blank (items text context) = true)
    (hv : ∀ v, Item.value v ∈ items text context → IsQuoted v) :
    tokens? (interpolateTestChars text context) = itemTokens? (items text context) := by
  have hf := feed_testChars_append [] hg hv fun q h => by cases h
  rw [List.append_nil, show Reading.blank.quoting = Quoting.start from rfl] at hf
  rw [tokens?_eq, interpolateTestChars, itemTokens?, hf]
  cases readItems .blank (items text context) with
  | none => rfl
  | some p => simp [testChars, Reading.feed]

/-- **A guarded test has the tokens of its items**, if its values are strings, arrays and objects:
interpolation keeps the tokens of the author, makes one string token of every value outside of
quotes, and adds exactly the text of a value to the literal around it. -/
theorem scan_interpolateTest_iff (text : String) (context : Value) (ts : List Token)
    (hg : guarded .blank (items text.toList context) = true)
    (hv : ∀ v, Item.value v ∈ items text.toList context → IsQuoted v) :
    (∃ placed, scan (interpolateTest text context).toList = .ok placed ∧
      placed.map Placed.token = ts) ↔ itemTokens? (items text.toList context) = some ts := by
  rw [← tokens?_interpolateTestChars hg hv, interpolateTest, String.toList_ofList, tokens?]
  cases scan (interpolateTestChars text.toList context) with
  | error e => simp [Except.toOption]
  | ok placed => simp [Except.toOption]

/-- A value in the middle of a literal, and one outside of quotes. -/
theorem scan_interpolateTest_spliced :
    ∃ placed, scan (interpolateTest "'it\\'s {{x}}' = {{y}}"
        (.object [("x", .string "a'b\\"), ("y", .array [.string "k"])])).toList = .ok placed ∧
      placed.map Placed.token =
        [.literal (.string "it's a'b\\"), .compare .equal, .literal (.string "[\"k\"]")] := by
  have hi : items "'it\\'s {{x}}' = {{y}}".toList
        (.object [("x", .string "a'b\\"), ("y", .array [.string "k"])]) =
      "'it\\'s ".toList.map Item.own ++ [.value (.string "a'b\\")] ++ "' = ".toList.map Item.own ++
        [.value (.array [.string "k"])] := by rfl
  refine (scan_interpolateTest_iff _ _ _ (by decide) ?_).mpr (by decide)
  intro v hv
  rw [hi] at hv
  simp only [List.mem_append, List.mem_map, List.mem_singleton, reduceCtorEq, and_false,
    exists_false, false_or, or_false, Item.value.injEq] at hv
  rcases hv with rfl | rfl
  · exact .inl rfl
  · exact .inr (.inl rfl)

end Transclude.Interpolation
