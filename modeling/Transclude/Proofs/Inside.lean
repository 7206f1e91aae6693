/-
Places inside quoted literals.

Substitution follows the quotation marks of a test character by character, the scanner makes tokens
of it.  At every place of a text that the scanner takes, the two agree on where a literal is open.

* `Opens.advance` — from the first character of a lexeme on, the quotation marks are followed to where
  its reading stands;
* `IsLexeme.advance`, `Lexemes.advance` — a lexeme leaves no literal open, so texts of lexemes do not;
* `Lexemes.cut` — a place of a text lies between its lexemes or inside one of them;
* `advance_iff_inside` — a literal is open exactly inside the spans of strings, with the quotation
  mark of the token, and the last character is an escape exactly if it ends an odd run of backslashes.

Design notes: a quoted literal is told from all other lexemes by its first character, so what is open
inside a lexeme does not depend on how the lexeme ends.
-/
import Transclude.Proofs.Lexeme

namespace Transclude.Condition

open Interpolation Text

variable {l cs before : List Char} {c : Char} {r : Reading} {t : Token} {ts : List Placed}
  {position : Nat}

/-! ### Escapes -/

/-- Whether a text ends with a backslash that is not itself escaped: the last one of an odd number. -/
def endsEscaping (cs : List Char) : Bool := (cs.reverse.takeWhile (· = '\\')).length % 2 = 1

theorem endsEscaping_concat (cs : List Char) (c : Char) :
    endsEscaping (cs ++ [c]) = (c = '\\' && !endsEscaping cs) := by
  by_cases hc : c = '\\'
  · simp only [endsEscaping, List.reverse_concat, hc, List.takeWhile_cons_of_pos, decide_true,
      List.length_cons, Bool.true_and, ← decide_not, decide_eq_decide]
    omega
  · simp [endsEscaping, hc]

/-! ### Quotation marks in a lexeme -/

/-- A lexeme that goes on stays in the literal that it is, or outside of literals. -/
theorem Reading.opened_of_next? {r' : Reading} (h : r.next? c = some (.more r')) :
    r'.quoting.opened = r.quoting.opened := by
  cases r with
  | quoted q content escaped => cases escaped <;> grind [next?, quoting]
  | _ => rw [quoting_of_next? rfl h]; rfl

theorem Opens.ne_nil (h : Opens cs r) : cs ≠ [] := by
  cases h <;> simp

theorem Reading.quoting_of_first (h : beginning c = .first r) : r.quoting = Quoting.start.next c := by
  have hbegin : Reading.begin c = some ([], r) := by rw [Reading.begin, h]
  exact quoting_of_begin hbegin

theorem Reading.quoting_of_more {r' : Reading} (h : r.next? c = some (.more r')) :
    r'.quoting = r.quoting.next c := by
  have hstep : r.step c = some ([], r') := by rw [step, h]
  exact quoting_step hstep

/-- From its first character on, the quotation marks of a lexeme are followed to where its reading
stands. -/
theorem Opens.advance (h : Opens cs r) : Quoting.start.advance cs = r.quoting := by
  induction h with
  | first hbegin => exact (Reading.quoting_of_first hbegin).symm
  | more _ hnext ih =>
    rw [Quoting.advance_append, ih, Reading.quoting_of_more hnext]
    rfl

/-- What is open in a lexeme is what its first character opens. -/
theorem Opens.opened (h : Opens cs r) : r.quoting.opened = cs.head?.filter isQuote := by
  induction h with
  | @first c r hbegin =>
    rw [Reading.quoting_of_first hbegin]
    by_cases hc : isQuote c = true <;> simp [Quoting.next, Quoting.start, hc, Option.filter]
  | more hopens hnext ih =>
    obtain ⟨d, ds, rfl⟩ := List.exists_cons_of_ne_nil hopens.ne_nil
    rw [Reading.opened_of_next? hnext, ih]
    rfl

/-- In a literal, the last character is an escape if it is a backslash that is not itself escaped,
whatever stands before the literal. -/
theorem Opens.escaped (h : Opens cs r) (ho : r.quoting.opened ≠ none) (before : List Char) :
    r.quoting.escaped = endsEscaping (before ++ cs) := by
  induction h with
  | @first c r hbegin =>
    have hc : isQuote c = true := by
      rw [Reading.quoting_of_first hbegin] at ho
      by_cases hc : isQuote c = true
      · exact hc
      · simp [Quoting.next, Quoting.start, hc] at ho
    rw [Reading.quoting_of_first hbegin, endsEscaping_concat]
    rcases eq_of_isQuote hc with rfl | rfl <;> rfl
  | @more cs c r r' _ hnext ih =>
    rw [Reading.opened_of_next? hnext] at ho
    rw [← List.append_assoc, endsEscaping_concat, ← ih ho]
    -- an escaped character ends the escape, also if it is a backslash
    cases r with
    | quoted q content escaped =>
      cases escaped <;> grind [Reading.next?, Reading.quoting]
    | _ => exact absurd rfl ho

/-! ### Quotation marks between lexemes -/

/-- A lexeme that can end here is no literal. -/
theorem Reading.quoting_of_flush {start stop : Nat}
    (h : (Scanner.mk start stop r).flush = .ok ts) : r.quoting = .start := by
  cases r with
  | quoted q content escaped => cases escaped <;> cases h
  | _ => rfl

/-- A lexeme leaves no literal open. -/
theorem IsLexeme.advance (h : IsLexeme l t) : Quoting.start.advance l = .start := by
  cases h with
  | @ended l r t hopens hflush =>
    rw [hopens.advance, Reading.quoting_of_flush (hflush 0 0)]
  | @done l r c t hopens hnext =>
    have hstep : r.step c = some ([t], .blank) := by rw [Reading.step, hnext]
    rw [Quoting.advance_append, hopens.advance]
    exact (Reading.quoting_step hstep).symm
  | @single c t hbegin =>
    have hfirst : Reading.begin c = some ([t], .blank) := by rw [Reading.begin, hbegin]
    exact (Reading.quoting_of_begin hfirst).symm

theorem Lexemes.advance (h : Lexemes position cs ts) : Quoting.start.advance cs = .start := by
  induction h with
  | nil => rfl
  | @blank position c cs ts hc _ ih =>
    have hnext : Quoting.start.next c = .start := by
      have hq : isQuote c = false := by
        refine Bool.eq_false_iff.mpr ?_
        intro hq
        rcases eq_of_isQuote hq with rfl | rfl <;> cases hc
      simp [Quoting.next, Quoting.start, hq]
    show (Quoting.start.next c).advance cs = .start
    rw [hnext, ih]
  | lexeme hl _ ih => rw [Quoting.advance_append, hl.advance, ih]

/-- The tokens of a text are within it. -/
theorem Lexemes.mem (h : Lexemes position cs ts) {p : Placed} (hp : p ∈ ts) :
    position ≤ p.start ∧ p.stop ≤ position + byteLength cs := by
  obtain ⟨before, l, after, rfl, hstart, hstop, -⟩ := h.exists_lexeme hp
  simp only [byteLength_append]
  omega

/-- A place of a text, with the tokens before and after it: it lies between lexemes, or inside one. -/
inductive Cut (position : Nat) : List Char → List Char → List Placed → Prop
  | between {a b : List Char} {us vs : List Placed} (ha : Lexemes position a us)
      (hb : Lexemes (position + byteLength a) b vs) : Cut position a b (us ++ vs)
  | inside {before x y after : List Char} {t : Token} {us vs : List Placed}
      (hbefore : Lexemes position before us) (hx : x ≠ []) (hy : y ≠ []) (hl : IsLexeme (x ++ y) t)
      (hafter : Lexemes (position + byteLength before + byteLength (x ++ y)) after vs) :
      Cut position (before ++ x) (y ++ after)
        (us ++ ⟨t, position + byteLength before,
          position + byteLength before + byteLength (x ++ y)⟩ :: vs)

theorem Cut.prepend {a b : List Char} {us : List Placed} (h : Lexemes position l us)
    (hcut : Cut (position + byteLength l) a b ts) : Cut position (l ++ a) b (us ++ ts) := by
  cases hcut with
  | between ha hb =>
    rw [← List.append_assoc]
    refine .between (h.append ha) ?_
    rwa [byteLength_append, ← Nat.add_assoc]
  | inside hbefore hx hy hl hafter =>
    rw [Nat.add_assoc position, ← byteLength_append] at hafter ⊢
    rw [← List.append_assoc, ← List.append_assoc]
    exact .inside (h.append hbefore) hx hy hl hafter

theorem Lexemes.cut (h : Lexemes position cs ts) {a b : List Char} (hcs : cs = a ++ b) :
    Cut position a b ts := by
  induction h generalizing a with
  | nil =>
    obtain ⟨rfl, rfl⟩ := List.append_eq_nil_iff.mp hcs.symm
    exact .between .nil .nil
  | @blank position c cs ts hc hrest ih =>
    cases a with
    | nil =>
      obtain rfl : c :: cs = b := hcs
      exact .between .nil (.blank hc hrest)
    | cons d a =>
      obtain ⟨rfl, htail⟩ := List.cons.inj hcs
      have hone : Lexemes position [c] [] := .blank hc .nil
      exact (ih htail).prepend hone
  | @lexeme position l cs t ts hl hrest ih =>
    -- the place lies after the lexeme, or at its begin, at its end or inside
    rcases List.append_eq_append_iff.mp hcs with ⟨a', rfl, htail⟩ | ⟨y, rfl, rfl⟩
    · exact (ih htail).prepend (.single hl position)
    · by_cases hx : a = []
      · subst hx
        exact .between .nil (.lexeme hl hrest)
      by_cases hy : y = []
      · subst hy
        rw [List.append_nil] at hl hrest ⊢
        exact .between (.single hl position) hrest
      · have hnone : Lexemes position [] [] := .nil
        exact .inside hnone hx hy hl hrest

/-! ### Inside a lexeme -/

theorem Opens.of_append {x y : List Char} (h : Opens (x ++ y) r) (hx : x ≠ []) :
    ∃ r', Opens x r' := by
  generalize hcs : x ++ y = cs at h
  induction h generalizing y with
  | @first c r hbegin =>
    rcases List.append_eq_singleton_iff.mp hcs with ⟨rfl, -⟩ | ⟨rfl, -⟩
    · exact absurd rfl hx
    · exact ⟨r, .first hbegin⟩
  | @more cs c r r' hopens hnext ih =>
    rcases List.eq_nil_or_concat y with rfl | ⟨y, d, rfl⟩
    · rw [List.append_nil] at hcs
      exact ⟨r', hcs ▸ .more hopens hnext⟩
    · rw [List.concat_eq_append, ← List.append_assoc] at hcs
      exact ih (List.append_inj_left' hcs rfl)

/-- A proper part of a lexeme from its first character on has led to a reading. -/
theorem IsLexeme.opens {x y : List Char} (h : IsLexeme (x ++ y) t) (hx : x ≠ []) (hy : y ≠ []) :
    ∃ r, Opens x r := by
  generalize hcs : x ++ y = cs at h
  cases h with
  | ended hopens _ => exact (hcs ▸ hopens).of_append hx
  | @done cs r c t hopens _ =>
    obtain ⟨y, d, rfl⟩ := (List.eq_nil_or_concat y).resolve_left hy
    rw [List.concat_eq_append, ← List.append_assoc] at hcs
    exact (List.append_inj_left' hcs rfl ▸ hopens).of_append hx
  | single _ =>
    rcases List.append_eq_singleton_iff.mp hcs with ⟨rfl, -⟩ | ⟨-, rfl⟩
    · exact absurd rfl hx
    · exact absurd rfl hy

/-- Whether a token is a string. -/
def Token.IsString (t : Token) : Prop := ∃ s, t = .literal (.string s)

theorem wordToken_not_isString (word : List Char) : ¬(wordToken word).IsString := by
  unfold wordToken
  split <;> simp [Token.IsString]

/-- Only a literal ends as a string, and it does with its last character. -/
theorem Reading.isString_of_done (h : r.next? c = some (.done t)) :
    t.IsString ↔ r.quoting.opened ≠ none := by
  cases r with
  | quoted q content escaped => cases escaped <;> grind [next?, quoting, Token.IsString]
  | _ => grind [next?, quoting, Token.IsString, Quoting.start]

theorem Reading.not_isString_of_flush {start stop : Nat}
    (h : (Scanner.mk start stop r).flush = .ok [⟨t, start, stop⟩]) : ¬t.IsString := by
  cases r with
  | quoted q content escaped => cases escaped <;> cases h
  | word read => cases h; exact wordToken_not_isString _
  | point read => simp [Scanner.flush] at h
  | _ => cases h <;> simp [Token.IsString, numberToken]

/-- A string is a lexeme that begins with a quotation mark. -/
theorem IsLexeme.isString_iff (h : IsLexeme l t) :
    t.IsString ↔ l.head?.filter isQuote ≠ none := by
  cases h with
  | @ended l r t hopens hflush =>
    rw [← hopens.opened, Reading.quoting_of_flush (hflush 0 0)]
    simpa [Quoting.start] using Reading.not_isString_of_flush (hflush 0 0)
  | @done cs r c t hopens hnext =>
    obtain ⟨d, ds, rfl⟩ := List.exists_cons_of_ne_nil hopens.ne_nil
    rw [Reading.isString_of_done hnext, hopens.opened]
    rfl
  | @single c t hbegin =>
    have hc : isQuote c = false := by
      refine Bool.eq_false_iff.mpr ?_
      intro hc
      rw [beginning_of_isQuote hc] at hbegin
      cases hbegin
    have ht : ¬t.IsString := by
      rcases eq_of_beginning_single hbegin with rfl | rfl | rfl <;> simp [Token.IsString]
    simpa [Option.filter, hc] using ht

/-! ### Places of a test -/

/-- Inside a lexeme, what is open is what the lexeme opened, if it is a string at all. -/
theorem IsLexeme.advance_inside {before x y : List Char}
    (hbefore : Quoting.start.advance before = .start) (h : IsLexeme (x ++ y) t) (hx : x ≠ [])
    (hy : y ≠ []) :
    let k := Quoting.start.advance (before ++ x)
    (k.opened ≠ none ↔ t.IsString) ∧
      (t.IsString → k.opened = (x ++ y).head? ∧ k.escaped = endsEscaping (before ++ x)) := by
  obtain ⟨r, hopens⟩ := h.opens hx hy
  obtain ⟨q, x, rfl⟩ := List.exists_cons_of_ne_nil hx
  have hstring : t.IsString ↔ r.quoting.opened ≠ none := by
    rw [h.isString_iff, hopens.opened]
    rfl
  rw [Quoting.advance_append, hbefore, hopens.advance]
  refine ⟨hstring.symm, fun ht => ?_⟩
  have ho : r.quoting.opened ≠ none := hstring.mp ht
  refine ⟨?_, hopens.escaped ho before⟩
  rw [hopens.opened] at ho ⊢
  by_cases hq : isQuote q = true
  · simp [Option.filter, hq]
  · simp [Option.filter, hq] at ho

/-- Whether an offset is strictly inside the span of a token. -/
def Placed.Surrounds (p : Placed) (offset : Nat) : Prop := p.start < offset ∧ offset < p.stop

/-- What lies before a place and what lies after it do not surround it. -/
theorem Lexemes.not_surrounds {a b : List Char} {us vs : List Placed} {low high offset : Nat}
    (ha : Lexemes low a us) (hb : Lexemes high b vs) (hlow : low + byteLength a ≤ offset)
    (hhigh : offset ≤ high) {p : Placed} (hp : p ∈ us ∨ p ∈ vs) : ¬p.Surrounds offset := by
  rintro ⟨hstart, hstop⟩
  rcases hp with hp | hp
  · have := ha.mem hp
    omega
  · have := hb.mem hp
    omega

/-- A place is inside no token and nothing is open there, or it is inside just one, which has opened
what is open if it is a string. -/
theorem Cut.surrounded {a b : List Char} (h : Cut 0 a b ts) :
    (Quoting.start.advance a = .start ∧ ∀ p ∈ ts, ¬p.Surrounds (byteLength a)) ∨
    ∃ p ∈ ts, p.Surrounds (byteLength a) ∧ (∀ p' ∈ ts, p'.Surrounds (byteLength a) → p' = p) ∧
      ((Quoting.start.advance a).opened ≠ none ↔ p.token.IsString) ∧
      (p.token.IsString → (Quoting.start.advance a).opened = (p.slice (a ++ b)).head? ∧
        (Quoting.start.advance a).escaped = endsEscaping a) := by
  cases h with
  | between ha hb =>
    refine .inl ⟨ha.advance, fun p hp => ?_⟩
    exact ha.not_surrounds hb (by omega) (by omega) (List.mem_append.mp hp)
  | @inside before x y after t us vs hbefore hx hy hl hafter =>
    have hpositive : ∀ {cs : List Char}, cs ≠ [] → 0 < byteLength cs := fun hne =>
      Nat.lt_of_lt_of_le (List.length_pos_iff.mpr hne) (length_le_byteLength _)
    have hxpositive := hpositive hx
    have hypositive := hpositive hy
    refine .inr ⟨_, List.mem_append_right _ List.mem_cons_self, ?_, ?_, ?_⟩
    · simp only [Placed.Surrounds, byteLength_append]
      omega
    · -- the other tokens end where the lexeme begins, or begin where it ends
      intro p hp hsurrounds
      rcases List.mem_append.mp hp with hp | hp
      · refine absurd hsurrounds (hbefore.not_surrounds hafter ?_ ?_ (.inl hp))
          <;> simp only [byteLength_append] <;> omega
      rcases List.mem_cons.mp hp with rfl | hp
      · rfl
      · refine absurd hsurrounds (hbefore.not_surrounds hafter ?_ ?_ (.inr hp))
          <;> simp only [byteLength_append] <;> omega
    · have hslice : Placed.slice ⟨t, 0 + byteLength before,
          0 + byteLength before + byteLength (x ++ y)⟩ (before ++ x ++ (y ++ after)) = x ++ y := by
        rw [Placed.slice, Nat.zero_add, List.append_assoc, ← List.append_assoc x,
          sliceBytes_append]
      rw [hslice]
      exact hl.advance_inside hbefore.advance hx hy

/-- **Quotation marks are followed as the scanner reads them.**  At every place of a test a literal is
open exactly if the place is inside the span of a string; it is open with the quotation mark that the
string begins with, and the character before the place is an escape exactly if it is a backslash that
is not itself escaped.  It does not matter in which parts the text up to the place is gone through. -/
theorem advance_iff_inside {text : List Char} (h : scan text = .ok ts) {offset : Nat}
    (hoffset : IsBoundary text offset) {parts : List (List Char)}
    (hparts : parts.flatten = takeBytes offset text) :
    let k := parts.foldl Quoting.advance .start
    (k.opened ≠ none ↔ ∃ p ∈ ts, p.token.IsString ∧ p.Surrounds offset) ∧
    ∀ p ∈ ts, p.token.IsString → p.Surrounds offset →
      k.opened = (p.slice text).head? ∧ k.escaped = endsEscaping (takeBytes offset text) := by
  obtain ⟨a, b, rfl, rfl⟩ := hoffset
  rw [takeBytes_append] at hparts ⊢
  have hk : parts.foldl Quoting.advance .start = Quoting.start.advance a := by
    rw [← hparts, Quoting.advance, List.foldl_flatten]
    rfl
  have hcut : Cut 0 a b ts := ((holds_between 0).run (scan_eq_ok.mp h)).cut rfl
  simp only [hk]
  rcases hcut.surrounded with ⟨hstart, hnone⟩ | ⟨p, hp, hsurrounds, honly, hopened, hkept⟩
  · rw [hstart]
    refine ⟨⟨fun ho => absurd rfl ho, ?_⟩, fun p hp _ hsurrounds => absurd hsurrounds (hnone p hp)⟩
    rintro ⟨p, hp, -, hsurrounds⟩
    exact absurd hsurrounds (hnone p hp)
  · refine ⟨⟨fun ho => ⟨p, hp, hopened.mp ho, hsurrounds⟩, ?_⟩, ?_⟩
    · rintro ⟨p', hp', hstring, hsurrounds'⟩
      rw [honly p' hp' hsurrounds'] at hstring
      exact hopened.mpr hstring
    · intro p' hp' hstring hsurrounds'
      rw [honly p' hp' hsurrounds'] at hstring ⊢
      exact hkept hstring

/-- A literal in double quotes that has a single one, then one in single quotes: there, after a letter
of two bytes, an escaped backslash and another backslash, the next quotation mark is escaped. -/
theorem advance_iff_inside_of_nested_quotes :
    let text := "\"it's\" = 'é\\\\\\'\"'".toList
    let parts := ["\"it's".toList, "\" = 'é\\".toList, [], "\\\\".toList]
    let k := parts.foldl Quoting.advance .start
    ∃ ts, scan text = .ok ts ∧ IsBoundary text 15 ∧ parts.flatten = takeBytes 15 text ∧
      ts.map Placed.token =
        [.literal (.string "it's"), .compare .equal, .literal (.string "é\\'\"")] ∧
      (k.opened ≠ none ↔ ∃ p ∈ ts, p.token.IsString ∧ p.Surrounds 15) ∧
      k.opened = some '\'' ∧ k.escaped = true := by
  intro text parts k
  have hscan : scan text = .ok
      [⟨.literal (.string "it's"), 0, 6⟩, ⟨.compare .equal, 7, 8⟩,
        ⟨.literal (.string "é\\'\""), 9, 18⟩] := by
    rfl
  have hboundary : IsBoundary text 15 :=
    ⟨takeBytes 15 text, dropBytes 15 text, by decide, by decide⟩
  have hparts : parts.flatten = takeBytes 15 text := by decide
  obtain ⟨hopened, hinside⟩ := advance_iff_inside hscan hboundary hparts
  obtain ⟨hquote, hescaped⟩ := hinside ⟨.literal (.string "é\\'\""), 9, 18⟩ (by simp) ⟨_, rfl⟩
    ⟨by decide, by decide⟩
  exact ⟨_, hscan, hboundary, hparts, rfl, hopened, hquote, hescaped.trans (by decide)⟩

end Transclude.Condition
