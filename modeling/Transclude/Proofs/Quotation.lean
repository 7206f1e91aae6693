/-
Quotation marks in tests.

Two readers follow the quoted literals of a test: the scanner, which makes tokens of them, and the
`Quoting` that decides how a value is spliced in.

* `Reading.quoting_step` — a character takes both to the same place;
* `Reading.feed_escapeQuotes` — inside a literal, escaped characters add exactly themselves to it;
* `Reading.feed_literal` — outside, escaped characters in quotation marks are a token of their own.

Design notes: what the scanner makes of a character does not depend on the offsets it counts.
`Reading.step` and `Reading.feed` are the scanner without them, so that texts of different lengths
can be compared; `tokens?_eq` ties them to `scan`.
-/
import Transclude.Condition.Scan
import Transclude.Interpolation

namespace Transclude.Condition

open Interpolation

/-! ### The scanner without offsets -/

/-- The tokens of a lexeme that ends here. -/
def Reading.flush (r : Reading) : Option (List Token) :=
  (Scanner.mk 0 0 r).flush.toOption.map (List.map Placed.token)

/-- Reads a character between lexemes. -/
def Reading.begin (c : Char) : Option (List Token × Reading) :=
  match beginning c with
  | .blank => some ([], .blank)
  | .single t => some ([t], .blank)
  | .first r => some ([], r)
  | .none => none

/-- Reads one more character. -/
def Reading.step (r : Reading) (c : Char) : Option (List Token × Reading) :=
  match r.next? c with
  | some (.more r') => some ([], r')
  | some (.done t) => some ([t], .blank)
  | some .broken => none
  | none => r.flush.bind fun ts => (Reading.begin c).map fun p => (ts ++ p.1, p.2)

/-- Reads more characters. -/
def Reading.feed (r : Reading) : List Char → Option (List Token × Reading)
  | [] => some ([], r)
  | c :: cs => (r.step c).bind fun p => (p.2.feed cs).map fun q => (p.1 ++ q.1, q.2)

/-- The tokens of what is read to its end. -/
def Reading.finish (p : List Token × Reading) : Option (List Token) :=
  p.2.flush.map fun ts => p.1 ++ ts

/-- The tokens of a test. -/
def tokens? (text : List Char) : Option (List Token) :=
  (scan text).toOption.map (List.map Placed.token)

/-- What the scanner has come to, without offsets. -/
def Scanner.bare (p : List Placed × Scanner) : List Token × Reading :=
  (p.1.map Placed.token, p.2.reading)

theorem Scanner.toOption_flush (s : Scanner) :
    s.flush.toOption.map (List.map Placed.token) = s.reading.flush := by
  obtain ⟨start, position, r⟩ := s
  cases r with
  | quoted q content escaped => cases escaped <;> rfl
  | _ => rfl

theorem toOption_begin (position : Nat) (c : Char) :
    (begin position c).toOption.map Scanner.bare = Reading.begin c := by
  rw [begin, Reading.begin]
  cases beginning c <;> rfl

theorem Scanner.toOption_step (s : Scanner) (c : Char) :
    (s.step c).toOption.map bare = s.reading.step c := by
  rw [step, Reading.step]
  cases s.reading.next? c with
  | some m => cases m <;> rfl
  | none =>
    rw [← s.toOption_flush, ← toOption_begin s.position c]
    cases s.flush with
    | error e => rfl
    | ok ended =>
      cases begin s.position c with
      | error e => rfl
      | ok r => simp [Except.toOption, bare]

theorem Scanner.toOption_feed (s : Scanner) (cs : List Char) :
    (s.feed cs).toOption.map bare = s.reading.feed cs := by
  induction cs generalizing s with
  | nil => rfl
  | cons c cs ih =>
    rw [feed, Reading.feed, ← s.toOption_step c]
    cases s.step c with
    | error e => rfl
    | ok r =>
      obtain ⟨ts, s'⟩ := r
      have hs := ih s'
      simp only [Except.toOption, Option.map_some, Option.bind_some, bare] at hs ⊢
      rw [← hs]
      cases s'.feed cs with
      | error e => rfl
      | ok r => simp [bare]

theorem tokens?_eq (text : List Char) :
    tokens? text = (Reading.blank.feed text).bind Reading.finish := by
  have h := (Scanner.between 0).toOption_feed text
  rw [show (Scanner.between 0).reading = Reading.blank from rfl] at h
  rw [tokens?, scan, Scanner.run, ← h]
  cases (Scanner.between 0).feed text with
  | error e => rfl
  | ok r =>
    obtain ⟨ts, s⟩ := r
    have hf := s.toOption_flush
    simp only [Except.toOption, Option.map_some, Option.bind_some, Scanner.bare,
      Reading.finish] at hf ⊢
    rw [← hf]
    cases s.flush with
    | error e => rfl
    | ok us => simp

/-- A character goes on the lexeme at hand, ends it, or comes after it. -/
theorem Reading.step_cases {r r' : Reading} {c : Char} {ts : List Token}
    (h : r.step c = some (ts, r')) :
    (r.next? c = some (.more r') ∧ ts = []) ∨
    (∃ t, r.next? c = some (.done t) ∧ ts = [t] ∧ r' = .blank) ∨
    (r.next? c = none ∧ ∃ ended begun, r.flush = some ended ∧
      Reading.begin c = some (begun, r') ∧ ts = ended ++ begun) := by
  rw [step] at h
  cases hm : r.next? c with
  | some m =>
    rw [hm] at h
    cases m with
    | more r₁ => cases h; exact .inl ⟨rfl, rfl⟩
    | done t => cases h; exact .inr (.inl ⟨t, rfl, rfl, rfl⟩)
    | broken => cases h
  | none =>
    rw [hm] at h
    obtain ⟨ended, hflush, hp⟩ := Option.bind_eq_some_iff.mp h
    obtain ⟨⟨begun, r₁⟩, hbegin, hpair⟩ := Option.map_eq_some_iff.mp hp
    cases hpair
    exact .inr (.inr ⟨rfl, ended, begun, hflush, hbegin, rfl⟩)

theorem Reading.feed_cons_eq_some {r r' : Reading} {c : Char} {cs : List Char} {ts : List Token}
    (h : r.feed (c :: cs) = some (ts, r')) :
    ∃ us r₁ vs, r.step c = some (us, r₁) ∧ r₁.feed cs = some (vs, r') ∧ ts = us ++ vs := by
  obtain ⟨⟨us, r₁⟩, hstep, hrest⟩ := Option.bind_eq_some_iff.mp h
  obtain ⟨⟨vs, r₂⟩, hfeed, hpair⟩ := Option.map_eq_some_iff.mp hrest
  cases hpair
  exact ⟨us, r₁, vs, hstep, hfeed, rfl⟩

theorem Reading.feed_append (r : Reading) (a b : List Char) :
    r.feed (a ++ b) =
      (r.feed a).bind fun p => (p.2.feed b).map fun q => (p.1 ++ q.1, q.2) := by
  induction a generalizing r with
  | nil => simp [feed]
  | cons c a ih =>
    simp only [List.cons_append, feed]
    cases r.step c with
    | none => rfl
    | some p =>
      simp only [Option.bind_some, ih]
      cases p.2.feed a with
      | none => rfl
      | some q =>
        simp only [Option.bind_some, Option.map_some]
        cases q.2.feed b <;> simp

/-! ### Two readers of quotation marks -/

/-- How far a lexeme has come in a quoted literal. -/
def Reading.quoting : Reading → Quoting
  | .quoted q _ escaped => ⟨some q, escaped⟩
  | _ => .start

theorem Reading.quoting_eq_start {r : Reading} (h : r.quoting.opened = none) :
    r.quoting = .start := by
  cases r <;> first | rfl | exact absurd h (by simp [quoting])

theorem Reading.eq_quoted_of_opened {r : Reading} {q : Char} (ho : r.quoting.opened = some q)
    (he : r.quoting.escaped = false) : ∃ content, r = .quoted q content false := by
  cases r with
  | quoted q' content escaped =>
    obtain rfl : escaped = false := he
    obtain rfl : q' = q := Option.some.inj ho
    exact ⟨content, rfl⟩
  | _ => cases ho

theorem eq_of_isQuote {c : Char} (h : isQuote c = true) : c = '\'' ∨ c = '"' := by
  simpa [isQuote] using h

theorem beginning_of_isQuote {c : Char} (h : isQuote c = true) :
    beginning c = .first (.quoted c [] false) := by
  rcases eq_of_isQuote h with rfl | rfl <;> rfl

theorem quoting_of_beginning {c : Char} {r : Reading} (hc : isQuote c = false)
    (h : beginning c = .first r) : r.quoting = .start := by
  unfold beginning at h
  split at h
  · cases h
  split at h
  · cases h; rfl
  split at h
  · cases h; rfl
  -- one case for each character; a quotation mark is excluded, and no other begins a literal
  split at h <;> first | exact absurd hc (by decide) | (cases h <;> rfl)

/-- A quotation mark goes on no lexeme but a quoted literal. -/
theorem Reading.next?_of_isQuote {r : Reading} {c : Char} (hr : r.quoting.opened = none)
    (hc : isQuote c = true) : r.next? c = none := by
  cases r with
  | quoted q content escaped => exact absurd hr (by simp [quoting])
  | _ => rcases eq_of_isQuote hc with rfl | rfl <;> rfl

/-- A lexeme that is no quoted literal does not become one. -/
theorem Reading.quoting_of_next? {r r' : Reading} {c : Char} (hr : r.quoting.opened = none)
    (h : r.next? c = some (.more r')) : r'.quoting = .start := by
  cases r with
  | quoted q content escaped => exact absurd hr (by simp [quoting])
  | _ => grind [next?, quoting]

theorem Reading.quoting_of_begin {r : Reading} {c : Char} {ts : List Token}
    (h : Reading.begin c = some (ts, r)) : r.quoting = Quoting.start.next c := by
  rw [Reading.begin] at h
  by_cases hc : isQuote c = true
  · rw [beginning_of_isQuote hc] at h
    cases h
    simp [quoting, Quoting.next, Quoting.start, hc]
  · have hn : Quoting.start.next c = .start := by simp [Quoting.next, Quoting.start, hc]
    rw [hn]
    cases hb : beginning c with
    | first r₁ =>
      rw [hb] at h
      cases h
      exact quoting_of_beginning (by simpa using hc) hb
    | none => rw [hb] at h; cases h
    | _ => rw [hb] at h; cases h; rfl

/-- Outside of quotes, one character takes both readers of quotation marks to the same place. -/
theorem Reading.quoting_step_outside {r r' : Reading} {c : Char} {ts : List Token}
    (ho : r.quoting = .start) (h : r.step c = some (ts, r')) :
    r'.quoting = Quoting.start.next c := by
  have hr : r.quoting.opened = none := by rw [ho]; rfl
  -- a character that goes on the lexeme is no quotation mark
  have hsame : r.next? c ≠ none → Quoting.start.next c = .start := by
    intro hnext
    have hc : isQuote c = false := by
      refine Bool.eq_false_iff.mpr ?_
      intro hc
      exact hnext (next?_of_isQuote hr hc)
    simp [Quoting.next, Quoting.start, hc]
  rcases step_cases h with ⟨hnext, -⟩ | ⟨t, hnext, -, rfl⟩ | ⟨-, ended, begun, -, hbegin, -⟩
  · rw [hsame (by simp [hnext])]
    exact quoting_of_next? hr hnext
  · rw [hsame (by simp [hnext])]
    rfl
  · exact quoting_of_begin hbegin

/-- One character takes both readers of quotation marks to the same place. -/
theorem Reading.quoting_step {r r' : Reading} {c : Char} {ts : List Token}
    (h : r.step c = some (ts, r')) : r'.quoting = r.quoting.next c := by
  cases r with
  | quoted q content escaped =>
    cases escaped with
    | true =>
      by_cases hc : c = '\n'
      · simp [step, next?, hc] at h
      · simp only [step, next?, if_neg hc, Option.some.injEq, Prod.mk.injEq] at h
        obtain ⟨-, rfl⟩ := h
        rfl
    | false =>
      by_cases hb : c = '\\'
      · simp only [step, next?, if_pos hb, Option.some.injEq, Prod.mk.injEq] at h
        obtain ⟨-, rfl⟩ := h
        simp [quoting, Quoting.next, hb]
      by_cases hq : c = q
      · simp only [step, next?, if_neg hb, if_pos hq, Option.some.injEq, Prod.mk.injEq] at h
        obtain ⟨-, rfl⟩ := h
        simp [quoting, Quoting.next, Quoting.start, hq, show q ≠ '\\' from hq ▸ hb]
      · simp only [step, next?, if_neg hb, if_neg hq, Option.some.injEq, Prod.mk.injEq] at h
        obtain ⟨-, rfl⟩ := h
        simp [quoting, Quoting.next, hb, hq]
  | _ => exact quoting_step_outside rfl h

/-- A text takes both readers of quotation marks to the same place. -/
theorem Reading.quoting_feed {r r' : Reading} {cs : List Char} {ts : List Token}
    (h : r.feed cs = some (ts, r')) : r'.quoting = r.quoting.advance cs := by
  induction cs generalizing r ts with
  | nil => cases h; rfl
  | cons c cs ih =>
    obtain ⟨us, r₁, vs, hstep, hfeed, -⟩ := feed_cons_eq_some h
    rw [ih hfeed, quoting_step hstep]
    rfl

/-- Only quotation marks open literals. -/
theorem isQuote_of_opened_next {k : Quoting} {c q : Char}
    (hk : ∀ q, k.opened = some q → isQuote q = true) (h : (k.next c).opened = some q) :
    isQuote q = true := by
  obtain ⟨opened, escaped⟩ := k
  cases opened with
  | none =>
    by_cases hc : isQuote c = true
    · simp only [Quoting.next, if_pos hc, Option.some.injEq] at h
      exact h ▸ hc
    · simp [Quoting.next, hc] at h
  | some q' =>
    have hq' : isQuote q' = true := hk q' rfl
    cases escaped <;> grind [Quoting.next]

/-! ### Escaped texts -/

/-- Inside a literal, escaped characters add exactly themselves to it. -/
theorem Reading.feed_escapeQuotes {q : Char} (hq : isQuote q = true) (content cs : List Char) :
    (quoted q content false).feed (escapeQuotes cs) =
      some ([], quoted q (cs.reverse ++ content) false) := by
  induction cs generalizing content with
  | nil => rfl
  | cons c cs ih =>
    have hd : escapeQuotes (c :: cs) =
        (if c = '\\' || isQuote c then ['\\', c] else [c]) ++ escapeQuotes cs := rfl
    by_cases hc : (c = '\\' || isQuote c) = true
    · -- an escape stands for its character: it is neither a letter nor a line feed
      have hs : (quoted q content true).step c = some ([], quoted q (c :: content) false) := by
        have hn : c = '\\' ∨ c = '\'' ∨ c = '"' := by simpa [isQuote] using hc
        rcases hn with rfl | rfl | rfl <;> rfl
      have he : (quoted q content false).step '\\' = some ([], quoted q content true) := rfl
      rw [hd, if_pos hc, List.cons_append, List.singleton_append, feed, he, Option.bind_some,
        feed, hs, Option.bind_some, ih]
      simp
    · have hb : c ≠ '\\' := by simpa using fun h => hc (by simp [h])
      have hq' : c ≠ q := fun h => hc (by simp [h, hq])
      rw [hd, if_neg hc, List.singleton_append, feed]
      simp [step, next?, hb, hq', ih]

/-- The quotation mark that opened a literal closes it. -/
theorem Reading.step_closing {q : Char} (hq : isQuote q = true) (content : List Char) :
    (quoted q content false).step q =
      some ([.literal (.string (String.ofList content.reverse))], .blank) := by
  rcases eq_of_isQuote hq with rfl | rfl <;> simp [step, next?]

/-- Outside of quotes, escaped characters between quotation marks are a token of their own. -/
theorem Reading.feed_literal {r : Reading} (hr : r.quoting.opened = none) {q : Char}
    (hq : isQuote q = true) (cs : List Char) :
    r.feed (q :: (escapeQuotes cs ++ [q])) =
      r.flush.map fun ts => (ts ++ [.literal (.string (String.ofList cs))], .blank) := by
  have hs : r.step q = r.flush.map fun ts => (ts, quoted q [] false) := by
    rw [step, next?_of_isQuote hr hq, Reading.begin, beginning_of_isQuote hq]
    cases r.flush <;> simp
  rw [feed, hs]
  cases r.flush with
  | none => rfl
  | some ts =>
    simp only [Option.map_some, Option.bind_some]
    rw [feed_append, feed_escapeQuotes hq]
    simp [feed, step_closing hq]

theorem Reading.feed_inQuotes {r : Reading} (hr : r.quoting.opened = none) (cs : List Char) :
    r.feed ('\'' :: (escapeQuotes cs ++ ['\''])) =
      r.flush.map fun ts => (ts ++ [.literal (.string (String.ofList cs))], .blank) :=
  feed_literal hr rfl cs

end Transclude.Condition
