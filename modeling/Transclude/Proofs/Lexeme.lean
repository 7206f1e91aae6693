/-
The lexemes of a test.

A text that the scanner takes is a row of lexemes with blanks between them, and nothing of it is
lost: every lexeme is read as its token wherever it stands, so the tokens can be had back from their
places in the text, one by one or all together.

* `IsLexeme`, `IsLexeme.run` — a text that is read as one token, which it is wherever it stands;
* `Lexemes` — a text of lexemes and blanks, with the tokens at the places of their lexemes;
* `Scanner.Holds` — what a scanner has read of a lexeme, which is what its steps preserve;
* `Scanner.Holds.run` — a text is read as its lexemes;
* `tokens?_append_blank` — what is read on both sides of a blank;
* `scan_lossless` — the tokens of a test have spans without overlap, leave out blanks only, and are
  the tokens of their own slices of the text, taken apart or joined by blanks.

Design notes: the scanner keeps the value of a lexeme and not its characters, so `Opens` says which
characters a reading has come from.  Only the point after digits ends in two lexemes.
-/
import Transclude.Proofs.Comparison
import Transclude.Proofs.Span
import Transclude.Text.Split

namespace Transclude.Condition

open Text

/-! ### Lexemes -/

/-- Characters that have led to a reading, from the first one of a lexeme on. -/
inductive Opens : List Char → Reading → Prop
  | first {c : Char} {r : Reading} (h : beginning c = .first r) : Opens [c] r
  | more {cs : List Char} {c : Char} {r r' : Reading} (h : Opens cs r)
      (hnext : r.next? c = some (.more r')) : Opens (cs ++ [c]) r'

/-- A text that is read as one token: it can end where its reading has come to, its last character ends
it, or it is one character that is a token by itself. -/
inductive IsLexeme : List Char → Token → Prop
  | ended {cs : List Char} {r : Reading} {t : Token} (h : Opens cs r)
      (hflush : ∀ start stop, (Scanner.mk start stop r).flush = .ok [⟨t, start, stop⟩]) :
      IsLexeme cs t
  | done {cs : List Char} {r : Reading} {c : Char} {t : Token} (h : Opens cs r)
      (hnext : r.next? c = some (.done t)) : IsLexeme (cs ++ [c]) t
  | single {c : Char} {t : Token} (h : beginning c = .single t) : IsLexeme [c] t

/-- A text of lexemes and blanks from an offset on, and the tokens at the places of the lexemes. -/
inductive Lexemes : Nat → List Char → List Placed → Prop
  | nil {position : Nat} : Lexemes position [] []
  | blank {position : Nat} {c : Char} {cs : List Char} {ts : List Placed} (h : isSpace c = true)
      (hrest : Lexemes (position + c.utf8Size) cs ts) : Lexemes position (c :: cs) ts
  | lexeme {position : Nat} {l cs : List Char} {t : Token} {ts : List Placed} (h : IsLexeme l t)
      (hrest : Lexemes (position + byteLength l) cs ts) :
      Lexemes position (l ++ cs) (⟨t, position, position + byteLength l⟩ :: ts)

variable {l cs ds read : List Char} {c : Char} {r : Reading} {t : Token} {s s' : Scanner}
  {ts us : List Placed} {position : Nat}

theorem Opens.ne_blank (h : Opens cs r) : r ≠ .blank := by
  cases h with
  | first hbegin => exact (beginning_first hbegin).1
  | more _ hnext => exact (Reading.next?_more hnext).2.1

/-- A point after digits has been read after the digits. -/
theorem Opens.point {digits : List Char} (h : Opens cs (.point digits)) :
    ∃ ds, cs = ds ++ ['.'] ∧ Opens ds (.whole digits) := by
  cases h with
  | first hbegin => exact absurd (beginning_first hbegin).2 Nat.one_ne_zero
  | more hopens hnext =>
    obtain ⟨rfl, rfl⟩ := Reading.next?_point hnext
    exact ⟨_, rfl, hopens⟩

/-- Between lexemes, the characters of a reading lead to it. -/
theorem Opens.feed (h : Opens cs r) (position : Nat) :
    (Scanner.between position).feed cs = .ok ([], ⟨position, position + byteLength cs, r⟩) := by
  induction h with
  | first hbegin =>
    refine Scanner.feed_cons_eq_ok.mpr ⟨[], _, [], ?_, rfl, rfl⟩
    rw [Scanner.step_between, begin, hbegin]
    rfl
  | @more cs c r r' _ hnext ih =>
    have hstep := Scanner.step_of_more (s := ⟨position, position + byteLength cs, r⟩) hnext
    have hlast : (Scanner.mk position (position + byteLength cs) r).feed [c] =
        .ok ([], ⟨position, position + byteLength (cs ++ [c]), r'⟩) := by
      rw [byteLength_append, ← Nat.add_assoc]
      exact Scanner.feed_cons_eq_ok.mpr ⟨[], _, [], hstep, rfl, rfl⟩
    rw [Scanner.feed_append, ih]
    simp only [hlast, List.append_nil]

/-- A lexeme is one token wherever it stands. -/
theorem IsLexeme.run (h : IsLexeme cs t) (position : Nat) :
    (Scanner.between position).run cs = .ok [⟨t, position, position + byteLength cs⟩] := by
  cases h with
  | ended hopens hflush =>
    exact Scanner.run_eq_ok.mpr ⟨[], _, _, hopens.feed position, hflush _ _, rfl⟩
  | @done cs r c t hopens hnext =>
    have hstep : (Scanner.mk position (position + byteLength cs) r).step c =
        .ok ([⟨t, position, position + byteLength (cs ++ [c])⟩],
          .between (position + byteLength (cs ++ [c]))) := by
      rw [byteLength_append, ← Nat.add_assoc, Scanner.step, hnext]
      rfl
    refine Scanner.run_append_eq_ok.mpr ⟨[], _, _, hopens.feed position, ?_, rfl⟩
    exact Scanner.run_cons_eq_ok.mpr ⟨_, _, [], hstep, rfl, (List.append_nil _).symm⟩
  | @single c t hbegin =>
    have hstep : (Scanner.between position).step c =
        .ok ([⟨t, position, position + byteLength [c]⟩],
          .between (position + byteLength [c])) := by
      rw [Scanner.step_between, begin, hbegin]
      rfl
    exact Scanner.run_cons_eq_ok.mpr ⟨_, _, [], hstep, rfl, (List.append_nil _).symm⟩

theorem Lexemes.append (h : Lexemes position cs ts)
    (h' : Lexemes (position + byteLength cs) ds us) : Lexemes position (cs ++ ds) (ts ++ us) := by
  induction h with
  | nil => exact h'
  | blank hc _ ih =>
    rw [byteLength_cons, ← Nat.add_assoc] at h'
    exact .blank hc (ih h')
  | lexeme hl _ ih =>
    rw [byteLength_append, ← Nat.add_assoc] at h'
    rw [List.append_assoc]
    exact .lexeme hl (ih h')

theorem Lexemes.single (h : IsLexeme l t) (position : Nat) :
    Lexemes position l [⟨t, position, position + byteLength l⟩] := by
  have hall : Lexemes position (l ++ []) _ := .lexeme h .nil
  rwa [List.append_nil] at hall

/-! ### What a scanner has read -/

/-- Whether a scanner stands after these characters of a lexeme, or between lexemes after none. -/
structure Scanner.Holds (s : Scanner) (read : List Char) : Prop where
  position : s.position = s.start + byteLength read
  opens : (s.reading = .blank ∧ read = []) ∨ Opens read s.reading

theorem holds_between (position : Nat) : (Scanner.between position).Holds [] :=
  ⟨rfl, .inl ⟨rfl, rfl⟩⟩

/-- A lexeme that ends is its tokens. -/
theorem Scanner.Holds.flush (h : s.Holds read) (hflush : s.flush = .ok ts) :
    Lexemes s.start read ts := by
  obtain ⟨start, position, r⟩ := s
  obtain ⟨hposition, ⟨hblank, rfl⟩ | hopens⟩ := h
  · obtain rfl : r = .blank := hblank
    cases hflush
    exact .nil
  obtain rfl : position = start + byteLength read := hposition
  cases r with
  | blank => exact absurd rfl hopens.ne_blank
  | quoted q content escaped => cases escaped <;> cases hflush
  | point digits =>
    -- the digits and the point are a lexeme each
    cases hflush
    obtain ⟨ds, rfl, hwhole⟩ := hopens.point
    have hnumber : Lexemes start ds _ := .single (.ended hwhole fun _ _ => rfl) start
    have hdot : Lexemes (start + byteLength ds) ['.'] _ := .single (.single rfl) _
    rw [byteLength_append, ← Nat.add_assoc]
    exact hnumber.append hdot
  | minus => cases hflush
  | ampersand => cases hflush
  | bar => cases hflush
  | _ =>
    cases hflush
    exact .single (.ended hopens fun _ _ => rfl) start

/-- What the next state of a scanner leaves of the characters read so far: the ones that it no longer
holds are lexemes and blanks. -/
def Leaves (start : Nat) (read : List Char) (ts : List Placed) (s : Scanner) : Prop :=
  ∃ before after, read = before ++ after ∧ Lexemes start before ts ∧
    s.start = start + byteLength before ∧ s.Holds after

theorem isSpace_of_beginning (h : beginning c = .blank) : isSpace c = true := by
  unfold beginning at h
  split at h
  · assumption
  split at h
  · cases h
  split at h
  · cases h
  split at h <;> cases h

/-- Parentheses and dots are the characters that are tokens by themselves. -/
theorem eq_of_beginning_single (h : beginning c = .single t) :
    t = .opening ∨ t = .closing ∨ t = .dot := by
  unfold beginning at h
  split at h
  · cases h
  split at h
  · cases h
  split at h
  · cases h
  split at h <;> cases h <;> simp

theorem begin_leaves (h : begin position c = .ok (ts, s)) : Leaves position [c] ts s := by
  have hall : ∀ {ts}, Lexemes position [c] ts →
      Leaves position [c] ts (.between (position + c.utf8Size)) :=
    fun hlexemes => ⟨[c], [], rfl, hlexemes, rfl, holds_between _⟩
  rw [begin] at h
  cases hbegin : beginning c with
  | none => rw [hbegin] at h; cases h
  | blank =>
    rw [hbegin] at h
    cases h
    exact hall (.blank (isSpace_of_beginning hbegin) .nil)
  | single t =>
    rw [hbegin] at h
    cases h
    exact hall (.single (.single hbegin) position)
  | first r =>
    rw [hbegin] at h
    cases h
    exact ⟨[], [c], rfl, .nil, rfl, rfl, .inr (.first hbegin)⟩

theorem Scanner.Holds.step (h : s.Holds read) (hstep : s.step c = .ok (ts, s')) :
    Leaves s.start (read ++ [c]) ts s' := by
  have hsize : s.position + c.utf8Size = s.start + byteLength (read ++ [c]) := by
    rw [h.position, byteLength_append, Nat.add_assoc]
    rfl
  rcases step_cases hstep with ⟨r, hnext, rfl, rfl⟩ | ⟨t, hnext, rfl, rfl⟩ |
    ⟨-, ended, begun, hflush, hbegin, rfl⟩
  · obtain ⟨hblank, -⟩ | hopens := h.opens
    · exact absurd hblank (Reading.next?_more hnext).1
    · exact ⟨[], read ++ [c], rfl, .nil, rfl, hsize, .inr (.more hopens hnext)⟩
  · obtain ⟨hblank, -⟩ | hopens := h.opens
    · rw [hblank] at hnext
      cases hnext
    · rw [hsize]
      exact ⟨read ++ [c], [], (List.append_nil _).symm,
        .single (.done hopens hnext) s.start, rfl, holds_between _⟩
  · -- the lexeme ends before the character
    obtain ⟨before, after, hcut, hlexemes, hstart, hholds⟩ := begin_leaves hbegin
    rw [h.position] at hlexemes hstart
    refine ⟨read ++ before, after, ?_, (h.flush hflush).append hlexemes, ?_, hholds⟩
    · rw [hcut, List.append_assoc]
    · rw [hstart, byteLength_append, Nat.add_assoc]

/-- **A text is read as its lexemes**: what a scanner holds and the text after it are the lexemes of
the tokens that come of them. -/
theorem Scanner.Holds.run (h : s.Holds read) (hrun : s.run cs = .ok ts) :
    Lexemes s.start (read ++ cs) ts := by
  induction cs generalizing s read ts with
  | nil =>
    obtain ⟨us, s', vs, hfeed, hflush, rfl⟩ := run_eq_ok.mp hrun
    cases hfeed
    rw [List.append_nil]
    exact h.flush hflush
  | cons c cs ih =>
    obtain ⟨us, s', vs, hstep, hrest, rfl⟩ := run_cons_eq_ok.mp hrun
    obtain ⟨before, after, hcut, hlexemes, hstart, hholds⟩ := h.step hstep
    have hafter := ih hholds hrest
    rw [hstart] at hafter
    rw [List.append_cons, hcut, List.append_assoc]
    exact hlexemes.append hafter

/-! ### Lexemes in their text -/

/-- Every token is at the place of its lexeme. -/
theorem Lexemes.exists_lexeme (h : Lexemes position cs ts) {p : Placed} (hp : p ∈ ts) :
    ∃ before l after, cs = before ++ (l ++ after) ∧ p.start = position + byteLength before ∧
      p.stop = p.start + byteLength l ∧ IsLexeme l p.token := by
  induction h with
  | nil => cases hp
  | @blank position c cs ts _ _ ih =>
    obtain ⟨before, l, after, rfl, hstart, hrest⟩ := ih hp
    exact ⟨c :: before, l, after, rfl, by rw [hstart, byteLength_cons, Nat.add_assoc], hrest⟩
  | @lexeme position l cs t ts hl _ ih =>
    rcases List.mem_cons.mp hp with rfl | hp
    · exact ⟨[], l, cs, rfl, rfl, rfl, hl⟩
    · obtain ⟨before, l', after, rfl, hstart, hrest⟩ := ih hp
      refine ⟨l ++ before, l', after, (List.append_assoc _ _ _).symm, ?_, hrest⟩
      rw [hstart, byteLength_append, Nat.add_assoc]

/-- A character that is no blank belongs to a lexeme. -/
theorem Lexemes.covers (h : Lexemes position cs ts) {before after : List Char}
    (hcs : cs = before ++ c :: after) (hc : isSpace c = false) :
    ∃ p ∈ ts, p.start ≤ position + byteLength before ∧
      position + byteLength before + c.utf8Size ≤ p.stop := by
  induction h generalizing before with
  | nil => simp at hcs
  | @blank position d cs ts hd _ ih =>
    cases before with
    | nil =>
      cases hcs
      rw [hd] at hc
      cases hc
    | cons b before =>
      obtain ⟨rfl, hrest⟩ := List.cons.inj hcs
      obtain ⟨p, hp, hstart, hstop⟩ := ih hrest
      exact ⟨p, hp, by rw [byteLength_cons]; omega, by rw [byteLength_cons]; omega⟩
  | @lexeme position l cs t ts hl _ ih =>
    rcases List.append_eq_append_iff.mp hcs with ⟨more, rfl, hrest⟩ | ⟨more, rfl, hrest⟩
    · obtain ⟨p, hp, hstart, hstop⟩ := ih hrest
      exact ⟨p, List.mem_cons_of_mem _ hp, by rw [byteLength_append]; omega,
        by rw [byteLength_append]; omega⟩
    · cases more with
      | nil =>
        have hcs' : cs = [] ++ c :: after := hrest.symm
        obtain ⟨p, hp, hstart, hstop⟩ := ih hcs'
        exact ⟨p, List.mem_cons_of_mem _ hp, by simp at hstart ⊢; omega, by simp at hstop ⊢; omega⟩
      | cons d more =>
        obtain ⟨rfl, -⟩ := List.cons.inj hrest
        refine ⟨_, List.mem_cons_self, Nat.le_add_right _ _, ?_⟩
        simp only [byteLength_append, byteLength_cons]
        omega

/-! ### Texts with blanks between them -/

theorem scan_eq_ok : scan cs = .ok ts ↔ (Scanner.between 0).run cs = .ok ts := by
  rw [scan]
  cases (Scanner.between 0).run cs with
  | ok us => simp only [Except.ok.injEq]
  | error e => simp

theorem IsLexeme.scan (h : IsLexeme l t) : scan l = .ok [⟨t, 0, byteLength l⟩] := by
  rw [scan_eq_ok, h.run 0, Nat.zero_add]

/-- A blank ends the lexeme before it. -/
theorem Reading.step_blank {ts : List Token} (h : r.flush = some ts) :
    r.step ' ' = some (ts, .blank) := by
  have hnext : r.next? ' ' = none := by
    cases r with
    | quoted q content escaped => cases escaped <;> cases h
    | _ => rfl
  rw [step, hnext, h]
  simp [Reading.begin, show beginning ' ' = .blank from rfl]

/-- Two texts with a blank between them have the tokens of both. -/
theorem tokens?_append_blank {ts : List Token} (h : tokens? cs = some ts) (ds : List Char) :
    tokens? (cs ++ ' ' :: ds) = (tokens? ds).map (ts ++ ·) := by
  rw [tokens?_eq, Option.bind_eq_some_iff] at h
  obtain ⟨⟨us, r⟩, hfeed, hfinish⟩ := h
  obtain ⟨vs, hflush, rfl⟩ := Option.map_eq_some_iff.mp hfinish
  rw [tokens?_eq, tokens?_eq, Reading.feed_append, hfeed, Option.bind_some, Reading.feed,
    Reading.step_blank hflush, Option.bind_some]
  cases Reading.blank.feed ds with
  | none => rfl
  | some p => simp [Reading.finish, Function.comp_def]

theorem tokens?_of_scan (h : scan cs = .ok ts) : tokens? cs = some (ts.map Placed.token) := by
  rw [tokens?, h]
  rfl

/-- Lexemes joined by blanks are read as their tokens. -/
theorem tokens?_join {ls : List (List Char × Token)} (h : ∀ l ∈ ls, IsLexeme l.1 l.2) :
    tokens? (join ' ' (ls.map Prod.fst)) = some (ls.map Prod.snd) := by
  induction ls with
  | nil => rfl
  | cons l ls ih =>
    rw [List.forall_mem_cons] at h
    have hone : tokens? l.1 = some [l.2] := tokens?_of_scan h.1.scan
    cases ls with
    | nil => exact hone
    | cons m ls =>
      have hjoin : join ' ' ((l :: m :: ls).map Prod.fst) =
          l.1 ++ ' ' :: join ' ' ((m :: ls).map Prod.fst) := rfl
      rw [hjoin, tokens?_append_blank hone, ih h.2]
      rfl

/-! ### The tokens of a test -/

/-- Whether a character of a text begins at an offset, or the text ends there. -/
def IsBoundary (text : List Char) (offset : Nat) : Prop :=
  ∃ before after, text = before ++ after ∧ byteLength before = offset

/-- The characters that a token is read from. -/
def Placed.slice (p : Placed) (text : List Char) : List Char := sliceBytes p.start p.stop text

/-- Every token of a test is read from its slice of the text, which begins and ends with
characters. -/
theorem isLexeme_slice {text : List Char} (h : scan text = .ok ts) {p : Placed} (hp : p ∈ ts) :
    IsBoundary text p.start ∧ IsBoundary text p.stop ∧
      p.stop - p.start = byteLength (p.slice text) ∧ IsLexeme (p.slice text) p.token := by
  have hlexemes : Lexemes 0 text ts := (holds_between 0).run (scan_eq_ok.mp h)
  obtain ⟨before, l, after, rfl, hstart, hstop, hl⟩ := hlexemes.exists_lexeme hp
  rw [Nat.zero_add] at hstart
  rw [hstart] at hstop
  have hslice : p.slice (before ++ (l ++ after)) = l := by
    rw [Placed.slice, hstart, hstop, sliceBytes_append]
  rw [hslice, hstart, hstop, Nat.add_sub_cancel_left]
  exact ⟨⟨before, _, rfl, rfl⟩,
    ⟨before ++ l, after, (List.append_assoc _ _ _).symm, byteLength_append _ _⟩, rfl, hl⟩

/-- **Reading a test loses nothing.**  The tokens are not empty, follow each other without overlap,
begin and end with characters, and leave out blanks only.  Each is the one token of its slice of the
text, and the slices joined by blanks have the same tokens. -/
theorem scan_lossless {text : List Char} {ts : List Placed} (h : scan text = .ok ts) :
    InOrder 0 (byteLength text) ts ∧
    (∀ p ∈ ts, IsBoundary text p.start ∧ IsBoundary text p.stop) ∧
    (∀ before c after, text = before ++ c :: after → isSpace c = false →
      ∃ p ∈ ts, p.start ≤ byteLength before ∧ byteLength before + c.utf8Size ≤ p.stop) ∧
    (∀ p ∈ ts, scan (p.slice text) = .ok [⟨p.token, 0, p.stop - p.start⟩]) ∧
    ∃ us, scan (join ' ' (ts.map fun p => p.slice text)) = .ok us ∧
      us.map Placed.token = ts.map Placed.token := by
  have hrun := scan_eq_ok.mp h
  have horder := Scanner.run_inOrder (sound_between 0) hrun
  have hlexemes : Lexemes 0 text ts := (holds_between 0).run hrun
  refine ⟨by simpa [Scanner.between] using horder, fun p hp => ?_, ?_, fun p hp => ?_, ?_⟩
  · obtain ⟨hstart, hstop, -⟩ := isLexeme_slice h hp
    exact ⟨hstart, hstop⟩
  · intro before c after htext hc
    simpa using hlexemes.covers htext hc
  · obtain ⟨-, -, hlength, hl⟩ := isLexeme_slice h hp
    rw [hl.scan, hlength]
  · have hall : ∀ l ∈ ts.map fun p => (p.slice text, p.token), IsLexeme l.1 l.2 := by
      simpa using fun p hp => (isLexeme_slice h hp).2.2.2
    have hjoin := exists_scan_of_tokens? (tokens?_join hall)
    simp only [List.map_map, Function.comp_def] at hjoin
    exact hjoin

/-- A dash in a word, a point that no digit follows, and a literal with an escape and a letter of two
bytes. -/
theorem scan_lossless_of_crowded_test :
    let text := "a-1.2.b!=='é\\''".toList
    ∃ ts us, scan text = .ok ts ∧ ts.map Placed.token =
        [.ident "a-1", .dot, numberToken ['2'], .dot, .ident "b", .compare .notEqual,
          .literal (.string "é'")] ∧
      (∀ p ∈ ts, scan (p.slice text) = .ok [⟨p.token, 0, p.stop - p.start⟩]) ∧
      join ' ' (ts.map fun p => p.slice text) = "a-1 . 2 . b !== 'é\\''".toList ∧
      scan (join ' ' (ts.map fun p => p.slice text)) = .ok us ∧
      us.map Placed.token = ts.map Placed.token := by
  intro text
  have hscan : scan text = .ok
      [⟨.ident "a-1", 0, 3⟩, ⟨.dot, 3, 4⟩, ⟨numberToken ['2'], 4, 5⟩, ⟨.dot, 5, 6⟩,
        ⟨.ident "b", 6, 7⟩, ⟨.compare .notEqual, 7, 10⟩, ⟨.literal (.string "é'"), 10, 16⟩] := by
    rfl
  obtain ⟨-, -, -, halone, us, hjoin, htokens⟩ := scan_lossless hscan
  refine ⟨_, us, hscan, rfl, halone, ?_, hjoin, htokens⟩
  decide +kernel

end Transclude.Condition
