/-
Where reports point.

The position of an error in a document counts bytes, and a report counts characters.  It takes the
one for the other, so it points at the error exactly if there are only characters of one byte before.

* `placeBetween` — line and column of a place in a source, from the characters before it;
* `locate_between` — reports find the line and the column of a character by this count;
* `Names`, `Names.unique` — the place that a report names, which is one at most;
* `names_ofDocument_iff` — a report names the place of its offset, if the source is as long;
* `ofDocument_names_iff` — it names the place of the error exactly if all characters before it are of
  one byte; else it names the place of a later character, or none.

Design notes: two offsets with one place are the same, because the number of a line gives the offset
where it starts.  A carriage return and a line feed end a line together, so the end of a line depends
on the character after it.
-/
import Transclude.Diagnostic

namespace Transclude.Diagnostic

open Text

/-! ### Places -/

/-- A line and a column of a source, both from 1 on. -/
structure Place where
  line : Nat
  column : Nat
  deriving DecidableEq

/-- Whether a line ends with a character; a carriage return and a line feed end it together. -/
def endsLine (c : Char) (after : List Char) : Bool :=
  isLineBreak c && !(c = '\r' && after.head? = some '\n')

/-- The place after some characters from a place on, by what comes after them. -/
def placeFrom (p : Place) : List Char → List Char → Place
  | [], _ => p
  | c :: before, after =>
    if endsLine c (before ++ after) then placeFrom ⟨p.line + 1, 1⟩ before after
    else placeFrom ⟨p.line, p.column + 1⟩ before after

/-- The place of the first character of `after` in the source `before ++ after`. -/
def placeBetween (before after : List Char) : Place := placeFrom ⟨1, 1⟩ before after

example : placeBetween "a\r\né".toList "b".toList = ⟨2, 2⟩ := by decide

/-- The place of an offset on its line. -/
def Line.place (l : Line) (offset : Nat) : Place := ⟨l.number, offset - l.start + 1⟩

/-! ### Lines -/

/-- Lines with some characters in front. -/
def addToFirst (read : List Char) : List (List Char) → List (List Char)
  | [] => [read]
  | l :: ls => (read ++ l) :: ls

theorem addToFirst_addToFirst (a b : List Char) (ls : List (List Char)) :
    addToFirst a (addToFirst b ls) = addToFirst (a ++ b) ls := by
  cases ls with
  | nil => rfl
  | cons l ls => rw [addToFirst, addToFirst, addToFirst, List.append_assoc]

/-- A character is a line of its own if it ends one, and else belongs to the next line. -/
theorem lines_cons (c : Char) (cs : List Char) :
    lines (c :: cs) = if endsLine c cs then [c] :: lines cs else addToFirst [c] (lines cs) := by
  by_cases hpair : c = '\r' ∧ cs.head? = some '\n'
  · -- the line feed is a line of its own, to which the carriage return is added
    obtain ⟨rfl, hhead⟩ := hpair
    obtain ⟨ds, rfl⟩ : ∃ ds, cs = '\n' :: ds := by
      cases cs with
      | nil => cases hhead
      | cons d ds => exact ⟨ds, by rw [Option.some.inj hhead]⟩
    have hfeed : lines ('\n' :: ds) = ['\n'] :: lines ds := by
      rw [lines.eq_3 _ _ (by simp)]
      rfl
    rw [lines, hfeed]
    rfl
  · have hends : endsLine c cs = isLineBreak c := by
      rw [endsLine, ← Bool.decide_and, decide_eq_false hpair, Bool.not_false, Bool.and_true]
    rw [lines.eq_3 _ _ fun ds hc hcs => hpair ⟨hc, by rw [hcs]; rfl⟩, hends]
    cases lines cs <;> rfl

theorem exists_lines_cons (c : Char) (cs : List Char) :
    ∃ l ls, lines (c :: cs) = (c :: l) :: ls := by
  rw [lines_cons]
  split
  · exact ⟨[], lines cs, rfl⟩
  · cases lines cs with
    | nil => exact ⟨[], [], rfl⟩
    | cons l ls => exact ⟨l, ls, rfl⟩

theorem lines_ne_nil {cs : List Char} (h : cs ≠ []) : lines cs ≠ [] := by
  cases cs with
  | nil => exact absurd rfl h
  | cons c cs =>
    obtain ⟨l, ls, hlines⟩ := exists_lines_cons c cs
    rw [hlines]
    exact List.cons_ne_nil _ _

/-! ### The line of an offset -/

theorem locateFrom_of_lt {offset number start : Nat} {l : List Char} {ls : List (List Char)}
    (h : offset < start + l.length) :
    locateFrom offset number start (l :: ls) = some ⟨number, start, l⟩ := by
  cases ls with
  | nil => rfl
  | cons m ls => rw [locateFrom, if_pos h]

theorem locateFrom_of_le {offset number start : Nat} {l m : List Char} {ls : List (List Char)}
    (h : start + l.length ≤ offset) : locateFrom offset number start (l :: m :: ls) =
      locateFrom offset (number + 1) (start + l.length) (m :: ls) := by
  rw [locateFrom, if_neg (Nat.not_lt.mpr h)]

/-- From a line on of which some characters have been read, reports count as `placeFrom` does. -/
theorem locateFrom_addToFirst (before : List Char) (c : Char) (after read : List Char)
    (number start : Nat) :
    ∃ l, locateFrom (start + read.length + before.length) number start
        (addToFirst read (lines (before ++ c :: after))) = some l ∧
      l.place (start + read.length + before.length) =
        placeFrom ⟨number, read.length + 1⟩ before (c :: after) := by
  induction before generalizing read number start with
  | nil =>
    obtain ⟨l, ls, hlines⟩ := exists_lines_cons c after
    have hlt : start + read.length + 0 < start + (read ++ c :: l).length := by
      rw [List.length_append, List.length_cons]
      omega
    rw [List.nil_append, hlines]
    refine ⟨_, locateFrom_of_lt hlt, ?_⟩
    simp only [Line.place, placeFrom, List.length_nil, Nat.add_zero, Nat.add_sub_cancel_left]
  | cons b before ih =>
    have hnext : start + read.length + (b :: before).length =
        start + (read ++ [b]).length + before.length := by
      simp only [List.length_append, List.length_cons, List.length_nil]
      omega
    rw [List.cons_append, lines_cons, placeFrom, hnext]
    by_cases hends : endsLine b (before ++ c :: after) = true
    · -- the next line begins after the character
      have hskip := ih [] (number + 1) (start + (read ++ [b]).length)
      obtain ⟨l, ls, hlines⟩ := List.exists_cons_of_ne_nil
        (lines_ne_nil (show before ++ c :: after ≠ [] by simp))
      rw [hlines] at hskip
      rw [if_pos hends, if_pos hends, addToFirst, hlines, locateFrom_of_le (Nat.le_add_right _ _)]
      exact hskip
    · have hgo := ih (read ++ [b]) number start
      rw [if_neg hends, if_neg hends, addToFirst_addToFirst]
      rwa [List.length_append, List.length_singleton] at hgo ⊢

/-- Reports find the line and the column of a character. -/
theorem locate_between (before : List Char) (c : Char) (after : List Char) :
    ∃ l, locate (before ++ c :: after) before.length = some l ∧
      l.place before.length = placeBetween before (c :: after) := by
  have hfrom := locateFrom_addToFirst before c after [] 1 0
  rw [List.length_nil, Nat.zero_add, Nat.zero_add] at hfrom
  obtain ⟨l, ls, hlines⟩ := List.exists_cons_of_ne_nil
    (lines_ne_nil (show before ++ c :: after ≠ [] by simp))
  rw [hlines] at hfrom
  rw [locate, hlines]
  exact hfrom

/-- The number of a line gives the offset where it starts. -/
theorem locateFrom_start {offset number start : Nat} {ls : List (List Char)} {l : Line}
    (hstart : start ≤ offset) (h : locateFrom offset number start ls = some l) :
    l.start ≤ offset ∧ number ≤ l.number ∧
      l.start = start + (ls.take (l.number - number)).flatten.length := by
  induction ls generalizing number start with
  | nil => cases h
  | cons k ls ih =>
    by_cases hlast : offset < start + k.length ∨ ls = []
    · have hhere : locateFrom offset number start (k :: ls) = some ⟨number, start, k⟩ := by
        rcases hlast with hlt | rfl
        · exact locateFrom_of_lt hlt
        · rfl
      rw [hhere] at h
      cases h
      simp [hstart]
    · obtain ⟨hge, hne⟩ := not_or.mp hlast
      obtain ⟨m, ms, rfl⟩ := List.exists_cons_of_ne_nil hne
      rw [locateFrom_of_le (Nat.not_lt.mp hge)] at h
      obtain ⟨hle, hnumber, heq⟩ := ih (Nat.not_lt.mp hge) h
      have hcount : l.number - number = l.number - (number + 1) + 1 := by omega
      refine ⟨hle, by omega, ?_⟩
      rw [heq, hcount, List.take_succ_cons, List.flatten_cons, List.length_append, Nat.add_assoc]

/-- Two offsets of a source with one place are the same. -/
theorem eq_of_place_eq {source : List Char} {m n : Nat} {k l : Line}
    (hk : locate source m = some k) (hl : locate source n = some l)
    (h : k.place m = l.place n) : m = n := by
  obtain ⟨hkm, -, hkstart⟩ := locateFrom_start (Nat.zero_le m) hk
  obtain ⟨hln, -, hlstart⟩ := locateFrom_start (Nat.zero_le n) hl
  obtain ⟨hnumber, hcolumn⟩ := Place.mk.inj h
  rw [hnumber, ← hlstart] at hkstart
  omega

/-! ### The place that a report names -/

/-- The first row of a report. -/
def headline (title : String) : List Char := red "Error:".toList ++ ' ' :: (title.toList ++ ['\n'])

/-- A place in a file, as a report names it. -/
def placeText (filename : String) (p : Place) : List Char :=
  filename.toList ++ ':' :: ((toString p.line).toList ++ ':' :: (toString p.column).toList)

/-- The part of a report that names the place. -/
def location (filename : String) (p : Place) : List Char :=
  blanks ((toString p.line).toList.length + 2) ++ frame ['╭'] ++ frame ['─'] ++ frame ['['] ++
    placeText filename p ++ frame [']']

/-- Whether a report names a place as its location, under its headline. -/
def Names (report : String) (title filename : String) (p : Place) : Prop :=
  ∃ rest, report.toList = headline title ++ (location filename p ++ rest)

theorem toList_toString (n : Nat) : (toString n).toList = Nat.toDigits 10 n := String.toList_ofList

theorem toDigits_injective {m n : Nat} (h : Nat.toDigits 10 m = Nat.toDigits 10 n) : m = n := by
  have hm : Nat.ofDigitChars 10 (Nat.toDigits 10 m) 0 = m :=
    Nat.ofDigitChars_toDigits (by decide) (by decide)
  rw [← hm, h, Nat.ofDigitChars_toDigits (by decide) (by decide)]

/-- Up to the first character of a kind, two equal texts are the same. -/
theorem eq_of_append_cons_eq {x : Char} {a b c d : List Char} (ha : x ∉ a) (hb : x ∉ b)
    (h : a ++ x :: c = b ++ x :: d) : a = b ∧ c = d := by
  induction a generalizing b with
  | nil =>
    cases b with
    | nil => exact ⟨rfl, (List.cons.inj h).2⟩
    | cons y b => exact absurd (List.mem_cons.mpr (.inl (List.cons.inj h).1)) hb
  | cons y a ih =>
    cases b with
    | nil => exact absurd (List.mem_cons.mpr (.inl (List.cons.inj h).1.symm)) ha
    | cons z b =>
      rw [List.mem_cons, not_or] at ha hb
      obtain ⟨rfl, hrest⟩ := List.cons.inj h
      obtain ⟨rfl, htail⟩ := ih ha.2 hb.2 hrest
      exact ⟨rfl, htail⟩

/-- A report names one place at most. -/
theorem Names.unique {report title filename : String} {p q : Place}
    (hp : Names report title filename p) (hq : Names report title filename q) : p = q := by
  obtain ⟨rest, hrest⟩ := hp
  obtain ⟨others, hothers⟩ := hq
  have hdigits : ∀ {x : Char} (n : Nat), x.isDigit = false → x ∉ (toString n).toList := by
    intro x n hx hmem
    rw [toList_toString] at hmem
    rw [Nat.isDigit_of_mem_toDigits (by decide) (by decide) hmem] at hx
    cases hx
  have hblanks : ∀ n, escape ∉ blanks n := by
    intro n hmem
    cases List.eq_of_mem_replicate hmem
  have hlocation := List.append_cancel_left (hrest.symm.trans hothers)
  simp only [location, placeText, List.append_assoc, List.cons_append] at hlocation
  -- the blanks, the frame and the name of the file are followed by the numbers
  have hframe : (frame ['╭']).tail ++ _ = (frame ['╭']).tail ++ _ :=
    (eq_of_append_cons_eq (hblanks _) (hblanks _) hlocation).2
  have hnumbers := (List.cons.inj (List.append_cancel_left (List.append_cancel_left
    (List.append_cancel_left (List.append_cancel_left hframe))))).2
  obtain ⟨hline, hcolumns⟩ := eq_of_append_cons_eq (hdigits _ rfl) (hdigits _ rfl) hnumbers
  have hcolumn := (eq_of_append_cons_eq (x := escape) (hdigits _ rfl) (hdigits _ rfl) hcolumns).1
  rw [toList_toString, toList_toString] at hline hcolumn
  obtain ⟨line, column⟩ := p
  rw [Place.mk.injEq]
  exact ⟨toDigits_injective hline, toDigits_injective hcolumn⟩

/-! ### Reports of errors in documents -/

theorem names_excerpt (title filename label : String) (l : Line) (start stop : Nat) :
    Names (String.ofList (headline title ++ excerpt filename l start stop label)) title filename
      (l.place start) := by
  apply Exists.intro
  simp only [String.toList_ofList, excerpt, location, placeText, Line.place, List.append_assoc,
    List.cons_append]
  rfl

/-- A report of its headline only names no place. -/
theorem not_names_headline (title filename : String) (p : Place) :
    ¬Names (String.ofList (headline title)) title filename p := by
  rintro ⟨rest, hrest⟩
  rw [String.toList_ofList] at hrest
  have hlength := congrArg List.length hrest
  simp only [location, List.length_append] at hlength
  have hframe : 0 < (frame [']']).length := by decide
  omega

/-- A report names the place of its offset; it names none if the source is not as long. -/
theorem names_render_iff {source filename title label : String} {start : Nat} {p : Place} :
    Names (render source filename start (start + 1) title label) title filename p ↔
      start ≤ source.toList.length ∧
        ∃ l, locate source.toList start = some l ∧ l.place start = p := by
  have hfits : (start ≤ source.toList.length ∧
      (start < start + 1 → start + 1 - 1 ≤ source.toList.length)) ↔
        start ≤ source.toList.length := by simp
  rw [render]
  simp only [hfits]
  change Names (String.ofList (headline title ++ _)) title filename p ↔ _
  by_cases hlength : start ≤ source.toList.length
  · cases hl : locate source.toList start with
    | none =>
      have hnone := not_names_headline title filename p
      simpa [hlength] using hnone
    | some l =>
      have hnames := names_excerpt title filename label l start (start + 1)
      simp only [hlength, decide_true, if_true, true_and, Option.some.injEq, exists_eq_left']
      exact ⟨fun hp => hnames.unique hp, fun hp => hp ▸ hnames⟩
  · have hnone := not_names_headline title filename p
    simpa [hlength] using hnone

theorem names_ofDocument_iff {before : List Char} {c : Char} {after : List Char}
    {filename message : String} {p : Place} :
    Names (ofDocument (String.ofList (before ++ c :: after)) filename (byteLength before) message)
        message filename p ↔
      byteLength before ≤ (before ++ c :: after).length ∧
        ∃ l, locate (before ++ c :: after) (byteLength before) = some l ∧
          l.place (byteLength before) = p := by
  have hsize := c.utf8Size_pos
  have hstart : min (byteLength before) (byteLength (before ++ c :: after)) = byteLength before := by
    rw [byteLength_append]
    omega
  have hstop : min (byteLength before + 1) (byteLength (before ++ c :: after)) =
      byteLength before + 1 := by
    rw [byteLength_append, byteLength_cons]
    omega
  rw [ofDocument, String.toList_ofList, hstart, hstop, names_render_iff, String.toList_ofList]

/-- **A report points at the error exactly if only characters of one byte come before it.**  Else it
names the place of the character with as many characters before it as there are bytes before the
error, and no place if the source is not as long. -/
theorem ofDocument_names_iff (before : List Char) (c : Char) (after : List Char)
    (filename message : String) :
    let report :=
      ofDocument (String.ofList (before ++ c :: after)) filename (byteLength before) message
    (Names report message filename (placeBetween before (c :: after)) ↔
      ∀ d ∈ before, d.utf8Size = 1) ∧
    (∀ before' c' after', before ++ c :: after = before' ++ c' :: after' →
      before'.length = byteLength before →
        Names report message filename (placeBetween before' (c' :: after'))) ∧
    ((before ++ c :: after).length < byteLength before → ∀ p, ¬Names report message filename p) := by
  intro report
  refine ⟨?_, ?_, ?_⟩
  · rw [names_ofDocument_iff, ← byteLength_eq_length_iff]
    obtain ⟨k, hk, hplace⟩ := locate_between before c after
    constructor
    · rintro ⟨-, l, hl, hp⟩
      exact eq_of_place_eq hl hk (hp.trans hplace.symm)
    · intro hlength
      rw [hlength]
      exact ⟨by simp, k, hk, hplace⟩
  · intro before' c' after' hsource hlength
    obtain ⟨k, hk, hplace⟩ := locate_between before' c' after'
    rw [names_ofDocument_iff, hsource, ← hlength]
    exact ⟨by simp, k, hk, hplace⟩
  · intro hlt p hp
    exact absurd (names_ofDocument_iff.mp hp).1 (Nat.not_le.mpr hlt)

/-- After a letter of two bytes a report points one character too far; in a source of letters of one
byte it does not, also on a later line. -/
theorem ofDocument_names_iff_of_accent :
    let accented := ofDocument "é<b>" "f.xml" 2 "m"
    let plain := ofDocument "a\r\n<é" "f.xml" 3 "m"
    Names accented "m" "f.xml" ⟨1, 3⟩ ∧ ¬Names accented "m" "f.xml" ⟨1, 2⟩ ∧
      Names plain "m" "f.xml" ⟨2, 1⟩ := by
  intro accented plain
  obtain ⟨hexact, hlater, -⟩ := ofDocument_names_iff ['é'] '<' ['b', '>'] "f.xml" "m"
  have hsizes : ∀ d ∈ ['a', '\r', '\n'], d.utf8Size = 1 := by
    simp only [List.forall_mem_cons]
    exact ⟨rfl, rfl, rfl, List.forall_mem_nil _⟩
  have hplain := (ofDocument_names_iff ['a', '\r', '\n'] '<' ['é'] "f.xml" "m").1.mpr hsizes
  refine ⟨hlater ['é', '<'] 'b' ['>'] rfl rfl, fun hnames => ?_, hplain⟩
  exact absurd (hexact.mp hnames 'é' List.mem_cons_self) (by decide)

/-- In `é<b>` the report of an error at `<` names the place of `b`. -/
theorem report_points_past_error :
    ¬∀ (before : List Char) (c : Char) (after : List Char) (filename message : String),
      Names (ofDocument (String.ofList (before ++ c :: after)) filename (byteLength before) message)
        message filename (placeBetween before (c :: after)) := by
  intro h
  obtain ⟨-, l, hl, hplace⟩ := names_ofDocument_iff.mp (h ['é'] '<' ['b', '>'] "f.xml" "m")
  cases hl
  exact absurd hplace (by decide)

end Transclude.Diagnostic
