/-
Values that a test reads as literals of their own.

Integers, booleans and null are written into a test as they are, so whether one is a token of its
own depends on the characters next to it.

* `IsOwnToken` — a token with a given span, and no other one over a part of it;
* `IsLiteral` — a text that is one lexeme, and a literal as such;
* `isOwnToken_literal`, `not_isOwnToken_of_joined` — a literal in a text is a token of its own
  exactly if the text is not joined at either end of it;
* `own_literal_iff_not_joined` — this for every value of a test, and characters next to it that
  suffice for it.

Design notes: a value is joined with what comes before it if that ends in a lexeme that goes on with
the value, as `not` does with `false`, and with what comes after it if the value itself goes on with
that, as `1` does with `.5`.  Which characters belong to a lexeme is a question of the whole of it,
not of two characters, so `JoinedAt` is about what the scanner makes of the text up to the cut; a
character that goes on neither words nor numbers (`IsSeparator`) rules it out.
-/
import Transclude.Proofs.Scalar
import Transclude.Proofs.Span

namespace Transclude

namespace Condition

open Text Interpolation

/-! ### Literals in a text -/

/-- A token with this span, and no other one over a part of it. -/
def IsOwnToken (ts : List Placed) (start stop : Nat) (t : Token) : Prop :=
  ⟨t, start, stop⟩ ∈ ts ∧ ∀ u ∈ ts, u.start < stop → start < u.stop → u = ⟨t, start, stop⟩

/-- A character that goes on neither words nor numbers. -/
def IsSeparator (c : Char) : Prop := isWordChar c = false ∧ c ≠ '.'

instance (c : Char) : Decidable (IsSeparator c) :=
  inferInstanceAs (Decidable (_ ∧ _))

/-- A text that is one lexeme, and a literal as such. -/
structure IsLiteral (text : List Char) (l : Literal) (r : Reading) : Prop where
  feed : Reading.blank.feed text = some ([], r)
  flush : r.flush = some [.literal l]
  head : ∃ c cs, text = c :: cs ∧ isWordChar c = true
  next : ∀ c, IsSeparator c → r.next? c = none

variable {s s' : Scanner} {c : Char} {cs before text after : List Char} {l : Literal}
  {r r' : Reading} {ts : List Placed}

theorem beginning_of_isWordChar (h : isWordChar c = true) : ∃ r, beginning c = .first r := by
  unfold beginning
  rw [if_neg (by simp [not_isSpace_of_isWordChar h])]
  by_cases hstart : isWordStart c = true
  · exact ⟨_, if_pos hstart⟩
  rw [if_neg hstart]
  by_cases hdigit : c.isDigit = true
  · exact ⟨_, if_pos hdigit⟩
  rw [if_neg hdigit]
  obtain rfl : c = '-' := by
    simp only [isWordStart, Bool.or_eq_true, decide_eq_true_eq, not_or] at hstart
    simpa [isWordChar, Char.isAlphanum, hstart, hdigit] using h
  exact ⟨.minus, rfl⟩

/-- A lexeme that gives no token with a character goes on with it. -/
theorem Reading.next?_of_step (hne : r ≠ .blank) (h : r.step c = some ([], r')) :
    r.next? c = some (.more r') := by
  rcases step_cases h with ⟨hnext, -⟩ | ⟨t, -, hts, -⟩ | ⟨-, ended, begun, hflush, -, hts⟩
  · exact hnext
  · cases hts
  · -- a lexeme that ends gives a token
    obtain ⟨rfl, -⟩ := List.append_eq_nil_iff.mp hts.symm
    cases r with
    | blank => exact absurd rfl hne
    | quoted q content escaped => cases escaped <;> cases hflush
    | _ => cases hflush

/-- A lexeme that gives no token with some characters takes them all. -/
theorem Scanner.feed_of_more (hne : s.reading ≠ .blank) (h : s.reading.feed cs = some ([], r)) :
    s.feed cs = .ok ([], ⟨s.start, s.position + byteLength cs, r⟩) := by
  induction cs generalizing s with
  | nil => cases h; rfl
  | cons c cs ih =>
    obtain ⟨us, r₁, vs, hstep, hfeed, huv⟩ := Reading.feed_cons_eq_some h
    obtain ⟨rfl, rfl⟩ := List.append_eq_nil_iff.mp huv.symm
    have hnext := Reading.next?_of_step hne hstep
    have hmore := ih (s := ⟨s.start, s.position + c.utf8Size, r₁⟩) (Reading.next?_more hnext).2.1
      hfeed
    refine feed_cons_eq_ok.mpr ⟨[], _, [], step_of_more hnext, ?_, rfl⟩
    rw [hmore, byteLength_cons, Nat.add_assoc]

namespace IsLiteral

/-- Between lexemes, a literal is read as one lexeme. -/
theorem feed_between (h : IsLiteral text l r) (position : Nat) :
    (Scanner.between position).feed text =
      .ok ([], ⟨position, position + byteLength text, r⟩) := by
  obtain ⟨c, cs, rfl, hc⟩ := h.head
  obtain ⟨first, hfirst⟩ := beginning_of_isWordChar hc
  have hstep : (Scanner.between position).step c =
      .ok ([], ⟨position, position + c.utf8Size, first⟩) := by
    rw [Scanner.step_between, begin, hfirst]
  have hbare : Reading.blank.step c = some ([], first) := by
    have htoken := (Scanner.between position).toOption_step c
    rw [hstep] at htoken
    exact htoken.symm
  obtain ⟨us, r₁, vs, hstep', hrest, huv⟩ := Reading.feed_cons_eq_some h.feed
  obtain ⟨rfl, rfl⟩ := List.append_eq_nil_iff.mp huv.symm
  obtain rfl : first = r₁ := by
    rw [hbare] at hstep'
    exact (Prod.mk.inj (Option.some.inj hstep')).2
  refine Scanner.feed_cons_eq_ok.mpr ⟨[], _, [], hstep, ?_, rfl⟩
  rw [Scanner.feed_of_more (beginning_first hfirst).1 hrest, byteLength_cons, Nat.add_assoc]

/-- Where a literal ends, it is one token. -/
theorem flush_placed (h : IsLiteral text l r) (start position : Nat) :
    (Scanner.mk start position r).flush = .ok [⟨.literal l, start, position⟩] := by
  have hflush := h.flush
  cases r with
  | blank => cases hflush
  | minus => cases hflush
  | point read => cases hflush
  | quoted q content escaped => cases escaped <;> cases hflush
  | ampersand => cases hflush
  | bar => cases hflush
  | _ =>
    obtain ⟨htoken, -⟩ := List.cons.inj (Option.some.inj hflush)
    rw [Scanner.flush, ← htoken]

theorem joinedAt_iff_goesOn (h : IsLiteral text l r) :
    JoinedAt text after ↔ r.goesOn after = true :=
  joinedAt_iff (h.feed_between 0)

theorem byteLength_pos (h : IsLiteral text l r) : 0 < byteLength text := by
  obtain ⟨c, cs, rfl, -⟩ := h.head
  have := c.utf8Size_pos
  rw [byteLength_cons]
  omega

/-- A literal opens no quotes. -/
theorem quoting (h : IsLiteral text l r) : Quoting.start.advance text = .start := by
  have hquoting := Reading.quoting_feed h.feed
  have hflush := h.flush
  cases r with
  | quoted q content escaped => cases escaped <;> cases hflush
  | _ => exact hquoting.symm

end IsLiteral

/-! ### Tokens over the ends of a literal -/

variable {us : List Placed} {t : Token}

/-- A text that a literal stands in, read up to it and on from it. -/
theorem run_literal (h : IsLiteral text l r)
    (hrun : (Scanner.between 0).run (before ++ (text ++ after)) = .ok ts)
    (hbefore : ¬JoinedAt before (text ++ after)) :
    ∃ us vs, InOrder 0 (byteLength before) us ∧ ts = us ++ vs ∧
      (Scanner.mk (byteLength before) (byteLength before + byteLength text) r).run after =
        .ok vs := by
  obtain ⟨us₁, s, rest, hfeed, hrest, rfl⟩ := Scanner.run_append_eq_ok.mp hrun
  obtain ⟨hus₁, hsound, hposition⟩ := Scanner.feed_inOrder (sound_between 0) hfeed
  rw [joinedAt_iff hfeed, Bool.not_eq_true] at hbefore
  obtain ⟨us₂, vs, hflush, hbetween, rfl⟩ := Scanner.run_cut hbefore hrest
  -- the lexeme before the literal gives the last tokens up to it
  have hus₂ := Scanner.flush_inOrder hsound hflush
  have hstart : s.position = byteLength before := by rw [hposition]; exact Nat.zero_add _
  rw [hstart] at hus₂ hbetween
  obtain ⟨vs₁, s', vs₂, hliteral, hafter, rfl⟩ := Scanner.run_append_eq_ok.mp hbetween
  rw [h.feed_between] at hliteral
  cases hliteral
  exact ⟨us₁ ++ us₂, vs₂, hus₁.append hus₂, (List.append_assoc _ _ _).symm, hafter⟩

/-- **A literal is a token of its own** if the text is joined at neither end of it. -/
theorem isOwnToken_literal (h : IsLiteral text l r)
    (hrun : (Scanner.between 0).run (before ++ (text ++ after)) = .ok ts)
    (hbefore : ¬JoinedAt before (text ++ after)) (hafter : ¬JoinedAt text after) :
    IsOwnToken ts (byteLength before) (byteLength before + byteLength text) (.literal l) := by
  obtain ⟨us, vs, hus, rfl, hvs⟩ := run_literal h hrun hbefore
  rw [h.joinedAt_iff_goesOn, Bool.not_eq_true] at hafter
  obtain ⟨own, ws, hflush, hrest, rfl⟩ := Scanner.run_cut hafter hvs
  rw [h.flush_placed] at hflush
  cases hflush
  have hws := Scanner.run_inOrder (sound_between _) hrest
  refine ⟨by simp, fun u hu hstart hstop => ?_⟩
  -- the tokens before it end where it begins, and those after it begin where it ends
  rw [List.mem_append, List.mem_append, List.mem_singleton] at hu
  rcases hu with hu | rfl | hu
  · have := hus.mem hu
    omega
  · rfl
  · have := hws.mem hu
    simp only [Scanner.between] at this
    omega

/-- If the text is joined at an end of the literal, a token reaches over that end. -/
theorem not_isOwnToken_of_joined (h : IsLiteral text l r)
    (hrun : (Scanner.between 0).run (before ++ (text ++ after)) = .ok ts)
    (hjoined : JoinedAt before (text ++ after) ∨ JoinedAt text after) (t : Token) :
    ¬IsOwnToken ts (byteLength before) (byteLength before + byteLength text) t := by
  rintro ⟨-, hown⟩
  by_cases hbefore : JoinedAt before (text ++ after)
  · -- the lexeme before the literal begins outside of it and reaches into it
    obtain ⟨us, s, rest, hfeed, hrest, rfl⟩ := Scanner.run_append_eq_ok.mp hrun
    obtain ⟨-, hsound, hposition⟩ := Scanner.feed_inOrder (sound_between 0) hfeed
    have hgoes := (joinedAt_iff hfeed).mp hbefore
    obtain ⟨u, hu, hstart, hstop⟩ := Scanner.run_of_goesOn hgoes hrest
    have hlt : s.start < s.position := by
      rcases hsound with ⟨hblank, -⟩ | ⟨-, hlt⟩
      · rw [hblank, Reading.goesOn_blank] at hgoes
        cases hgoes
      · omega
    rw [show s.position = byteLength before from hposition.trans (Nat.zero_add _)] at hlt hstop
    have heq := hown u (List.mem_append_right _ hu) (by omega) hstop
    simp only [heq] at hstart
    omega
  · -- the literal is the first part of a lexeme that reaches over its end
    have hafter := hjoined.resolve_left hbefore
    obtain ⟨us, vs, -, rfl, hvs⟩ := run_literal h hrun hbefore
    have hgoes := h.joinedAt_iff_goesOn.mp hafter
    obtain ⟨u, hu, hstart, hstop⟩ := Scanner.run_of_goesOn hgoes hvs
    have hpos := h.byteLength_pos
    simp only at hstart hstop
    have heq := hown u (List.mem_append_right _ hu) (by omega) (by omega)
    simp only [heq] at hstop
    omega

/-! ### Characters that keep texts apart -/

/-- Whether a lexeme is a word or a number so far. -/
def Reading.isWord : Reading → Bool
  | .word _ => true
  | .minus => true
  | .whole _ => true
  | .point _ => true
  | .fraction _ => true
  | _ => false

theorem IsSeparator.isDigit (h : IsSeparator c) : c.isDigit = false := by
  rw [Bool.eq_false_iff]
  intro hdigit
  have hword := h.1
  simp [isWordChar, Char.isAlphanum, hdigit] at hword

/-- Letters, digits and dashes go on words and numbers only, and quoted literals. -/
theorem Reading.next?_of_isWordChar (hword : r.isWord = false) (ho : r.quoting.opened = none)
    (h : isWordChar c = true) : r.next? c = none := by
  have hsigns : c ≠ '&' ∧ c ≠ '|' ∧ c ≠ '=' := by
    refine ⟨?_, ?_, ?_⟩ <;> rintro rfl <;> cases h
  cases r <;> simp_all [next?, isWord, Reading.quoting]

theorem Reading.isWord_of_next? (h : IsSeparator c) (hnext : r.next? c = some (.more r')) :
    r'.isWord = false := by
  obtain ⟨hword, hpoint⟩ := h
  have hdigit := IsSeparator.isDigit ⟨hword, hpoint⟩
  cases r with
  | quoted q content escaped => cases escaped <;> grind [next?, isWord]
  | _ => grind [next?, isWord]

theorem isWord_of_beginning (h : IsSeparator c) (hbegin : beginning c = .first r) :
    r.isWord = false := by
  unfold beginning at hbegin
  split at hbegin
  · cases hbegin
  split at hbegin
  · rename_i hstart
    have hword := isWordChar_of_isWordStart hstart
    rw [h.1] at hword
    cases hword
  split at hbegin
  · rename_i hdigit
    rw [h.isDigit] at hdigit
    cases hdigit
  -- one case for each character that begins a lexeme; a dash is no separator
  split at hbegin <;> cases hbegin <;> first | rfl | exact absurd h.1 (by decide)

/-- No word and no number is at hand after a separator. -/
theorem Reading.isWord_of_step {us : List Token} (hc : IsSeparator c)
    (h : r.step c = some (us, r')) : r'.isWord = false := by
  rcases step_cases h with ⟨hnext, -⟩ | ⟨t, -, -, rfl⟩ | ⟨-, ended, begun, -, hbegin, -⟩
  · exact isWord_of_next? hc hnext
  · rfl
  · rw [begin] at hbegin
    cases hb : beginning c with
    | blank => rw [hb] at hbegin; cases hbegin; rfl
    | single t => rw [hb] at hbegin; cases hbegin; rfl
    | none => rw [hb] at hbegin; cases hbegin
    | first r₁ => rw [hb] at hbegin; cases hbegin; exact isWord_of_beginning hc hb

theorem Reading.isWord_of_feed {us : List Token} (hlast : ∀ c ∈ before.getLast?, IsSeparator c)
    (h : Reading.blank.feed before = some (us, r)) : r.isWord = false := by
  rcases List.eq_nil_or_concat' before with rfl | ⟨cs, c, rfl⟩
  · cases h
    rfl
  · rw [feed_append] at h
    obtain ⟨⟨vs, r₁⟩, -, hp⟩ := Option.bind_eq_some_iff.mp h
    obtain ⟨⟨ws, r₂⟩, hfeed, hpair⟩ := Option.map_eq_some_iff.mp hp
    cases hpair
    obtain ⟨xs, r₃, ys, hstep, hend, -⟩ := feed_cons_eq_some hfeed
    cases hend
    exact isWord_of_step (hlast c (by simp)) hstep

/-- A text that ends in a separator, outside of quotes, is not joined with a word or a number. -/
theorem not_joinedAt_of_separator (ho : Quoting.start.advance before = .start)
    (hlast : ∀ c ∈ before.getLast?, IsSeparator c) (hc : isWordChar c = true) :
    ¬JoinedAt before (c :: cs) := by
  rintro ⟨us, s, hfeed, hgoes⟩
  have hbare := (Scanner.between 0).toOption_feed before
  rw [hfeed] at hbare
  have hquoting : s.reading.quoting = .start := (Reading.quoting_feed hbare.symm).trans ho
  have hnext : s.reading.next? c = none :=
    Reading.next?_of_isWordChar (Reading.isWord_of_feed hlast hbare.symm) (by rw [hquoting]; rfl) hc
  rw [Reading.goesOn, hnext] at hgoes
  cases hgoes

/-- A literal is not joined with a separator after it. -/
theorem IsLiteral.not_joinedAt (h : IsLiteral text l r)
    (hfirst : ∀ c ∈ after.head?, IsSeparator c) : ¬JoinedAt text after := by
  rw [h.joinedAt_iff_goesOn, Bool.not_eq_true]
  cases after with
  | nil => rfl
  | cons c cs => rw [Reading.goesOn, h.next c (hfirst c rfl)]

end Condition

namespace Interpolation

open Text Condition

/-! ### Plain values -/

/-- The values that are written into tests as they are, save numbers with fractions: integers,
booleans and null. -/
def IsPlain : Value → Prop
  | .null => True
  | .bool _ => True
  | .number (.integer _ _) => True
  | _ => False

/-- Whether all values stand outside of quotes, by the quotation marks of the author. -/
def outside : Quoting → List Item → Bool
  | _, [] => true
  | k, .own c :: rest => outside (k.next c) rest
  | k, .value _ :: rest => k.opened.isNone && outside k rest

variable {v : Value} {a b : List Item} {k : Quoting}

/-- Outside of quotes, a plain value is written as its text. -/
theorem testChars_plain (h : IsPlain v) (its : List Item) :
    testChars .start (.value v :: its) = v.text.toList ++ testChars .start its := by
  cases v <;> first | rfl | cases h

/-- A plain value is written as a literal. -/
theorem isLiteral_of_isPlain (h : IsPlain v) :
    ∃ l r, literal? v = some l ∧ IsLiteral v.text.toList l r := by
  -- words are followed by separators, and so are digits
  have hword : ∀ read c, IsSeparator c → (Reading.word read).next? c = none := by
    intro read c hc
    rw [Reading.next?, if_neg (by simp [hc.1])]
  have hwhole : ∀ read c, IsSeparator c → (Reading.whole read).next? c = none := by
    intro read c hc
    rw [Reading.next?, if_neg (by simp [hc.isDigit]), if_neg hc.2]
  cases v with
  | null => exact ⟨.null, _, rfl, rfl, rfl, ⟨_, _, rfl, rfl⟩, hword _⟩
  | bool b => cases b <;> exact ⟨.bool _, _, rfl, rfl, rfl, ⟨_, _, rfl, rfl⟩, hword _⟩
  | number n =>
    cases n with
    | float x => cases h
    | integer i hi =>
      obtain ⟨m, hfraction, htext, hvalue⟩ := Number.exists_whole_numeral hi
      have hreading : m.reading = .whole m.text.reverse := by
        rw [Numeral.reading, if_pos hfraction]
      have hwritten : (Value.number (.integer i hi)).text.toList = m.text := by
        rw [← htext]
        exact String.toList_ofList
      rw [hwritten]
      refine ⟨_, m.reading, rfl, m.feed_text, ?_, ?_, hreading ▸ hwhole _⟩
      · rw [m.flush_reading, hvalue]
      · exact m.exists_wordChar
  | _ => cases h

theorem Quoting.next_eq_start (hk : k.opened = none → k = .start) {c : Char}
    (h : (k.next c).opened = none) : k.next c = .start := by
  obtain ⟨opened, escaped⟩ := k
  cases opened with
  | none =>
    obtain rfl : escaped = false := (Quoting.mk.inj (hk rfl)).2
    by_cases hc : isQuote c = true
    · rw [next, if_pos hc] at h
      cases h
    · rw [next, if_neg hc]
      rfl
  | some q => cases escaped <;> grind [next, start]

/-- A test up to a plain value and on from it. -/
theorem testChars_append_plain (hk : k.opened = none → k = .start)
    (hplain : ∀ w, .value w ∈ a → IsPlain w) (hv : IsPlain v)
    (hout : outside k (a ++ .value v :: b) = true) :
    testChars k (a ++ .value v :: b) =
        testChars k a ++ (v.text.toList ++ testChars .start b) ∧
      k.advance (testChars k a) = .start := by
  induction a generalizing k with
  | nil =>
    rw [List.nil_append, outside, Bool.and_eq_true] at hout
    obtain rfl := hk (by simpa using hout.1)
    exact ⟨testChars_plain hv b, rfl⟩
  | cons i a ih =>
    have hrest : ∀ w, .value w ∈ a → IsPlain w := fun w hw => hplain w (List.mem_cons_of_mem _ hw)
    cases i with
    | own c =>
      obtain ⟨htext, hadvance⟩ := ih (Quoting.next_eq_start hk) hrest hout
      exact ⟨congrArg (c :: ·) htext, hadvance⟩
    | value w =>
      rw [List.cons_append, outside, Bool.and_eq_true] at hout
      obtain rfl := hk (by simpa using hout.1)
      obtain ⟨htext, hadvance⟩ := ih hk hrest hout.2
      have hw : IsPlain w := hplain w List.mem_cons_self
      obtain ⟨l, r, -, hliteral⟩ := isLiteral_of_isPlain hw
      rw [List.cons_append, testChars_plain hw, testChars_plain hw, htext, List.append_assoc,
        Quoting.advance_append, hliteral.quoting]
      exact ⟨rfl, hadvance⟩

/-! ### The literals of a test -/

/-- A test whose only value comes last. -/
theorem isPlain_of_mem_last {cs : List Char} {w : Value} (hw : IsPlain w) :
    ∀ v, .value v ∈ cs.map Item.own ++ [.value w] → IsPlain v := by
  intro v hv
  rw [List.mem_append, List.mem_singleton] at hv
  rcases hv with hv | hv
  · obtain ⟨c, -, hc⟩ := List.mem_map.mp hv
    cases hc
  · cases hv
    exact hw

/-- **A value is a token of its own, its literal, exactly if the test is not joined at it**: if no
lexeme before it goes on with it, and it does not go on with what follows.  Separators around the
value suffice for this. -/
theorem own_literal_iff_not_joined (text : String) (context : Value) (ts : List Placed)
    (hscan : scan (interpolateTest text context).toList = .ok ts)
    (hplain : ∀ v, .value v ∈ items text.toList context → IsPlain v)
    (hout : outside .start (items text.toList context) = true) (a b : List Item) (v : Value)
    (hitems : items text.toList context = a ++ .value v :: b) :
    let before := testChars .start a
    let written := v.text.toList
    let after := testChars .start b
    let start := byteLength before
    let stop := start + byteLength written
    (¬JoinedAt before (written ++ after) ∧ ¬JoinedAt written after →
      ∃ l, literal? v = some l ∧ IsOwnToken ts start stop (.literal l)) ∧
    (JoinedAt before (written ++ after) ∨ JoinedAt written after →
      ∀ t, ¬IsOwnToken ts start stop t) ∧
    ((∀ c ∈ before.getLast?, IsSeparator c) → (∀ c ∈ after.head?, IsSeparator c) →
      ¬JoinedAt before (written ++ after) ∧ ¬JoinedAt written after) := by
  intro before written after start stop
  have hv : IsPlain v := hplain v (by simp [hitems])
  obtain ⟨l, r, hl, hliteral⟩ := isLiteral_of_isPlain hv
  rw [hitems] at hplain hout
  obtain ⟨htest, hquoting⟩ := testChars_append_plain (fun _ => rfl)
    (fun w hw => hplain w (List.mem_append_left _ hw)) hv hout
  have hrun : (Scanner.between 0).run (before ++ (written ++ after)) = .ok ts := by
    rw [interpolateTest, String.toList_ofList, interpolateTestChars, hitems, htest] at hscan
    rw [scan] at hscan
    cases hrun : (Scanner.between 0).run (before ++ (written ++ after)) with
    | error e => rw [hrun] at hscan; cases hscan
    | ok ts' => rw [hrun] at hscan; cases hscan; rfl
  refine ⟨?_, ?_, ?_⟩
  · rintro ⟨hbefore, hafter⟩
    exact ⟨l, hl, isOwnToken_literal hliteral hrun hbefore hafter⟩
  · exact not_isOwnToken_of_joined hliteral hrun
  · intro hlast hfirst
    obtain ⟨c, cs, hcons, hc⟩ := hliteral.head
    refine ⟨?_, hliteral.not_joinedAt hfirst⟩
    have hwritten : written ++ after = c :: (cs ++ after) := congrArg (· ++ after) hcons
    rw [hwritten]
    exact not_joinedAt_of_separator hquoting hlast hc

/-- A negated boolean, with a blank between. -/
theorem own_literal_of_negated_boolean :
    ∃ ts, scan (interpolateTest "not {{b}}" (.object [("b", .bool false)])).toList = .ok ts ∧
      IsOwnToken ts 4 9 (.literal (.bool false)) := by
  have hitems : items "not {{b}}".toList (.object [("b", .bool false)]) =
      "not ".toList.map Item.own ++ .value (.bool false) :: [] := by rfl
  have hplain : ∀ v, .value v ∈ items "not {{b}}".toList (.object [("b", .bool false)]) →
      IsPlain v := by
    rw [hitems]
    exact isPlain_of_mem_last trivial
  obtain ⟨ts, hscan⟩ : ∃ ts,
      scan (interpolateTest "not {{b}}" (.object [("b", .bool false)])).toList = .ok ts := ⟨_, rfl⟩
  obtain ⟨hown, -, hseparate⟩ := own_literal_iff_not_joined _ _ ts hscan hplain (by decide)
    ("not ".toList.map Item.own) [] (.bool false) hitems
  -- a blank before the value, and nothing after it
  have hlast : ∀ c ∈ (testChars .start ("not ".toList.map Item.own)).getLast?, IsSeparator c := by
    intro c hc
    obtain rfl : ' ' = c := Option.some.inj hc
    decide
  have hfirst : ∀ c ∈ (testChars .start []).head?, IsSeparator c := by
    intro c hc
    cases hc
  obtain ⟨l, hl, htoken⟩ := hown (hseparate hlast hfirst)
  cases hl
  exact ⟨ts, hscan, htoken⟩

/-- A negated boolean without a blank is read as a word, and not as a literal. -/
theorem value_read_as_part_of_word :
    ¬∀ (text : String) (context : Value) (ts : List Placed),
      scan (interpolateTest text context).toList = .ok ts →
      (∀ v, .value v ∈ items text.toList context → IsPlain v) →
      outside .start (items text.toList context) = true →
      ∀ (a b : List Item) (v : Value), items text.toList context = a ++ .value v :: b →
        ∃ l, literal? v = some l ∧ IsOwnToken ts (byteLength (testChars .start a))
          (byteLength (testChars .start a) + byteLength v.text.toList) (.literal l) := by
  intro h
  have hitems : items "not{{b}}".toList (.object [("b", .bool false)]) =
      "not".toList.map Item.own ++ .value (.bool false) :: [] := by rfl
  have hplain : ∀ v, .value v ∈ items "not{{b}}".toList (.object [("b", .bool false)]) →
      IsPlain v := by
    rw [hitems]
    exact isPlain_of_mem_last trivial
  have hscan : scan (interpolateTest "not{{b}}" (.object [("b", .bool false)])).toList =
      .ok [⟨.ident "notfalse", 0, 8⟩] := by rfl
  obtain ⟨l, hl, hmem, -⟩ := h _ _ _ hscan hplain (by decide) _ _ _ hitems
  cases hl
  exact absurd hmem (by decide)

end Interpolation

end Transclude
