/-
The form of placeholders, and a text cut at them.

* `IsPlaceholder` — the form: an identifier between optional blanks in doubled braces;
* `placeholder?_eq_some_iff` — a text begins with a placeholder exactly when it begins with this
  form;
* `text_induction` — a text is empty, or begins with a placeholder, or with another character;
* `pieces_of_append` — an initial part of the pieces is the pieces of an initial part of the text.
-/
import Transclude.Interpolation

namespace Transclude.Interpolation

open Text

/-! ### The form of placeholders -/

/-- The form of a placeholder with an identifier: any characters but braces and blanks, with blanks
on either side, between doubled braces. -/
def IsPlaceholder (written ident : List Char) : Prop :=
  ∃ before after, written = '{' :: '{' :: (before ++ (ident ++ (after ++ ['}', '}']))) ∧
    (∀ c ∈ before, isBlank c = true) ∧
    (∀ c ∈ ident, c ≠ '{' ∧ c ≠ '}' ∧ isBlank c = false) ∧
    ∀ c ∈ after, isBlank c = true

theorem isIdentChar_iff {c : Char} :
    isIdentChar c = true ↔ c ≠ '{' ∧ c ≠ '}' ∧ isBlank c = false := by
  simp [isIdentChar, and_assoc]

theorem isIdentChar_of_isBlank {c : Char} (h : isBlank c = true) : isIdentChar c = false := by
  simp [isIdentChar, h]

/-- Nothing is skipped where the first character is not to be skipped. -/
theorem dropWhile_append_stop {p : Char → Bool} {a : List Char} {c : Char} {cs : List Char}
    (ha : ∀ d ∈ a, p d = true) (hc : p c = false) : (a ++ c :: cs).dropWhile p = c :: cs := by
  rw [List.dropWhile_append_of_pos ha, List.dropWhile_cons_of_neg (by simp [hc])]

theorem takeWhile_append_stop {p : Char → Bool} {a : List Char} {c : Char} {cs : List Char}
    (ha : ∀ d ∈ a, p d = true) (hc : p c = false) : (a ++ c :: cs).takeWhile p = a := by
  rw [List.takeWhile_append_of_pos ha, List.takeWhile_cons_of_neg (by simp [hc]), List.append_nil]

theorem placeholder?_of_isPlaceholder {written ident : List Char} (h : IsPlaceholder written ident)
    (rest : List Char) : placeholder? (written ++ rest) = some (ident, rest) := by
  obtain ⟨before, after, rfl, hb, hi, ha⟩ := h
  have hident : ∀ c ∈ ident, isIdentChar c = true := fun c hc => isIdentChar_iff.mpr (hi c hc)
  have hclose : ('}' :: '}' :: rest).dropWhile isBlank = '}' :: '}' :: rest := rfl
  have hafter : (after ++ '}' :: '}' :: rest).dropWhile isBlank = '}' :: '}' :: rest :=
    dropWhile_append_stop ha rfl
  have htext : '{' :: '{' :: (before ++ (ident ++ (after ++ ['}', '}']))) ++ rest =
      '{' :: '{' :: (before ++ (ident ++ (after ++ '}' :: '}' :: rest))) := by simp
  rw [htext]
  cases ident with
  | nil =>
    have hbody : (before ++ ([] ++ (after ++ '}' :: '}' :: rest))).dropWhile isBlank =
        '}' :: '}' :: rest := by
      rw [List.nil_append, List.dropWhile_append_of_pos hb, hafter]
    simp only [placeholder?, hbody]
    rfl
  | cons c cs =>
    have hc : isBlank c = false := (hi c List.mem_cons_self).2.2
    have hbody : (before ++ ((c :: cs) ++ (after ++ '}' :: '}' :: rest))).dropWhile isBlank =
        (c :: cs) ++ (after ++ '}' :: '}' :: rest) := dropWhile_append_stop hb hc
    -- the identifier ends at a blank, or at the first closing brace
    obtain ⟨d, ds, hd, hdi⟩ : ∃ d ds, after ++ '}' :: '}' :: rest = d :: ds ∧
        isIdentChar d = false := by
      cases after with
      | nil => exact ⟨'}', _, rfl, rfl⟩
      | cons d ds => exact ⟨d, _, rfl, isIdentChar_of_isBlank (ha d List.mem_cons_self)⟩
    have htake : ((c :: cs) ++ (after ++ '}' :: '}' :: rest)).takeWhile isIdentChar = c :: cs := by
      rw [hd, takeWhile_append_stop hident hdi]
    have hdrop : ((c :: cs) ++ (after ++ '}' :: '}' :: rest)).dropWhile isIdentChar =
        after ++ '}' :: '}' :: rest := by
      rw [hd, dropWhile_append_stop hident hdi]
    simp only [placeholder?, hbody, htake, hdrop, hafter]

theorem exists_of_placeholder? {cs ident rest : List Char}
    (h : placeholder? cs = some (ident, rest)) :
    ∃ written, IsPlaceholder written ident ∧ cs = written ++ rest := by
  have hall : ∀ (p : Char → Bool) (l : List Char), ∀ c ∈ l.takeWhile p, p c = true := by
    intro p l c hc
    exact List.all_eq_true.mp List.all_takeWhile c hc
  unfold placeholder? at h
  split at h
  · rename_i cs
    simp only at h
    split at h
    · rename_i rest' hclose
      simp only [Option.some.injEq, Prod.mk.injEq] at h
      obtain ⟨rfl, rfl⟩ := h
      generalize hbody : cs.dropWhile isBlank = body at hclose ⊢
      refine ⟨_, ⟨cs.takeWhile isBlank, (body.dropWhile isIdentChar).takeWhile isBlank, rfl,
        hall _ _, fun c hc => isIdentChar_iff.mp (hall _ _ c hc), hall _ _⟩, ?_⟩
      have htail : (body.dropWhile isIdentChar).takeWhile isBlank ++ '}' :: '}' :: rest' =
          body.dropWhile isIdentChar := by
        rw [← hclose, List.takeWhile_append_dropWhile]
      have hcs : cs.takeWhile isBlank ++ (body.takeWhile isIdentChar ++
          ((body.dropWhile isIdentChar).takeWhile isBlank ++ '}' :: '}' :: rest')) = cs := by
        rw [htail, List.takeWhile_append_dropWhile, ← hbody, List.takeWhile_append_dropWhile]
      simpa using hcs.symm
    · cases h
  · cases h

/-- A text begins with a placeholder exactly when it begins with the form of one. -/
theorem placeholder?_eq_some_iff {cs ident rest : List Char} :
    placeholder? cs = some (ident, rest) ↔
      ∃ written, IsPlaceholder written ident ∧ cs = written ++ rest := by
  constructor
  · exact exists_of_placeholder?
  · rintro ⟨written, hw, rfl⟩
    exact placeholder?_of_isPlaceholder hw rest

/-! ### A text cut at its placeholders -/

theorem piecesFrom_eq_drop (n : Nat) (cs : List Char) : piecesFrom n cs = pieces (cs.drop n) := by
  induction cs generalizing n with
  | nil => cases n <;> rfl
  | cons c cs ih =>
    cases n with
    | zero => rfl
    | succ n => rw [piecesFrom, ih, List.drop_succ_cons]

theorem pieces_placeholder {written ident : List Char} (h : IsPlaceholder written ident)
    (rest : List Char) : pieces (written ++ rest) = .placeholder written ident :: pieces rest := by
  have hp := placeholder?_of_isPlaceholder h rest
  obtain ⟨before, after, hw, -⟩ := h
  have hlen : (written ++ rest).length - rest.length = written.length := by simp
  cases hc : written with
  | nil => rw [hc] at hw; cases hw
  | cons c cs =>
    rw [hc] at hp hlen
    rw [pieces, List.cons_append, piecesFrom, ← List.cons_append, hp]
    simp only [hlen, List.take_left', piecesFrom_eq_drop]
    simp

theorem pieces_char {c : Char} {cs : List Char} (h : placeholder? (c :: cs) = none) :
    pieces (c :: cs) = .char c :: pieces cs := by
  rw [pieces, piecesFrom, h]
  rfl

/-- A text is empty, begins with a placeholder, or begins with a character that begins none. -/
theorem text_induction {motive : List Char → Prop} (empty : motive [])
    (placeholder : ∀ written ident rest, IsPlaceholder written ident → motive rest →
      motive (written ++ rest))
    (char : ∀ c cs, placeholder? (c :: cs) = none → motive cs → motive (c :: cs))
    (text : List Char) : motive text := by
  induction hn : text.length using Nat.strongRecOn generalizing text with
  | _ n ih =>
    cases text with
    | nil => exact empty
    | cons c cs =>
      cases hp : placeholder? (c :: cs) with
      | none => exact char c cs hp (ih cs.length (by simp [← hn]) cs rfl)
      | some r =>
        obtain ⟨written, hw, ht⟩ := placeholder?_eq_some_iff.mp hp
        have hpos : 0 < written.length := by
          obtain ⟨before, after, rfl, -⟩ := hw
          simp
        rw [ht] at hn ⊢
        exact placeholder written r.1 r.2 hw (ih r.2.length (by simp [← hn, hpos]) r.2 rfl)

/-- A piece as it is written in the text. -/
def Piece.written : Piece → List Char
  | char c => [c]
  | placeholder written _ => written

theorem flatMap_written_pieces (text : List Char) : (pieces text).flatMap Piece.written = text := by
  induction text using text_induction with
  | empty => rfl
  | placeholder written ident rest h ih =>
    rw [pieces_placeholder h, List.flatMap_cons, ih]
    rfl
  | char c cs h ih =>
    rw [pieces_char h, List.flatMap_cons, ih]
    rfl

/-- An initial part of the pieces of a text is the pieces of an initial part of the text. -/
theorem pieces_of_append {text : List Char} {ps qs : List Piece} (h : pieces text = ps ++ qs) :
    pieces (ps.flatMap Piece.written) = ps := by
  induction text using text_induction generalizing ps with
  | empty =>
    obtain ⟨rfl, -⟩ := List.append_eq_nil_iff.mp h.symm
    rfl
  | placeholder written ident rest hw ih =>
    rw [pieces_placeholder hw] at h
    cases ps with
    | nil => rfl
    | cons p ps =>
      rw [List.cons_append, List.cons.injEq] at h
      obtain ⟨rfl, h⟩ := h
      rw [List.flatMap_cons, Piece.written, pieces_placeholder hw, ih h]
  | char c cs hc ih =>
    have hcs := flatMap_written_pieces cs
    rw [pieces_char hc] at h
    cases ps with
    | nil => rfl
    | cons p ps =>
      rw [List.cons_append, List.cons.injEq] at h
      obtain ⟨rfl, h⟩ := h
      rw [h, List.flatMap_append] at hcs
      -- a placeholder in the initial part would be one in the text
      have hn : placeholder? (c :: ps.flatMap Piece.written) = none := by
        refine Option.eq_none_iff_forall_ne_some.mpr fun r hr => ?_
        obtain ⟨written, hw, ht⟩ := placeholder?_eq_some_iff.mp hr
        have hfull := placeholder?_of_isPlaceholder hw (r.2 ++ qs.flatMap Piece.written)
        rw [← List.append_assoc, ← ht, List.cons_append, hcs, hc] at hfull
        cases hfull
      rw [List.flatMap_cons, Piece.written, List.singleton_append, pieces_char hn, ih h]

end Transclude.Interpolation
