/-
The shape of a test with strings in it.

The strings that are substituted into a test should only change the contents of its string tokens,
never which tokens it has.

* `Token.Alike` — tokens of one shape: the same token, or two strings;
* `alike_of_guarded` — in a guarded test, other strings give tokens of the same shape.

Design notes: the items of a test are read for two contexts side by side.  The two readings differ
in the contents of a literal at most, and no rule of the scanner looks at these.
-/
import Transclude.Proofs.Substitution
import Mathlib.Data.List.Forall2

namespace Transclude.Condition

/-! ### Tokens and lexemes of one shape -/

/-- Tokens of one shape: the same token, or two strings. -/
inductive Token.Alike : Token → Token → Prop
  | same (t : Token) : Alike t t
  | strings (s t : String) : Alike (.literal (.string s)) (.literal (.string t))

/-- Lexemes of one shape: the same, or quoted literals that agree in all but their contents. -/
inductive Reading.Alike : Reading → Reading → Prop
  | same (r : Reading) : Alike r r
  | quoted (q : Char) (content content' : List Char) (escaped : Bool) :
    Alike (.quoted q content escaped) (.quoted q content' escaped)

/-- What two readings have come to has one shape. -/
structure AlikeOutcomes (p q : List Token × Reading) : Prop where
  tokens : List.Forall₂ Token.Alike p.1 q.1
  reading : p.2.Alike q.2

theorem forall₂_alike_refl (ts : List Token) : List.Forall₂ Token.Alike ts ts :=
  List.forall₂_same.mpr fun t _ => .same t

theorem AlikeOutcomes.refl (p : List Token × Reading) : AlikeOutcomes p p :=
  ⟨forall₂_alike_refl p.1, .same p.2⟩

theorem Reading.Alike.quoting_eq {r s : Reading} (h : r.Alike s) : r.quoting = s.quoting := by
  cases h <;> rfl

/-- A relation of two outcomes goes on through what follows them. -/
theorem rel_bind {α β γ δ : Type} {R : α → β → Prop} {S : γ → δ → Prop} {x : Option α}
    {y : Option β} {f : α → Option γ} {g : β → Option δ} (h : Option.Rel R x y)
    (hfg : ∀ a b, R a b → Option.Rel S (f a) (g b)) : Option.Rel S (x.bind f) (y.bind g) := by
  cases h with
  | none => exact .none
  | some hab => exact hfg _ _ hab

theorem rel_map {α β γ δ : Type} {R : α → β → Prop} {S : γ → δ → Prop} {x : Option α}
    {y : Option β} {f : α → γ} {g : β → δ} (h : Option.Rel R x y)
    (hfg : ∀ a b, R a b → S (f a) (g b)) : Option.Rel S (x.map f) (y.map g) := by
  cases h with
  | none => exact .none
  | some hab => exact .some (hfg _ _ hab)

theorem exists_of_rel {α β : Type} {R : α → β → Prop} {x : Option α} {b : β}
    (h : Option.Rel R x (some b)) : ∃ a, x = some a ∧ R a b := by
  cases h with
  | some hab => exact ⟨_, rfl, hab⟩

theorem rel_refl {α : Type} {R : α → α → Prop} (h : ∀ a, R a a) (x : Option α) :
    Option.Rel R x x := by
  cases x with
  | none => exact .none
  | some a => exact .some (h a)

theorem Reading.Alike.flush {r s : Reading} (h : r.Alike s) :
    Option.Rel (List.Forall₂ Token.Alike) r.flush s.flush := by
  cases h with
  | same => exact rel_refl forall₂_alike_refl r.flush
  | quoted q content content' escaped => cases escaped <;> exact .none

/-- A character does the same to lexemes of one shape. -/
theorem Reading.Alike.step {r s : Reading} (h : r.Alike s) (c : Char) :
    Option.Rel AlikeOutcomes (r.step c) (s.step c) := by
  cases h with
  | same => exact rel_refl AlikeOutcomes.refl (r.step c)
  | quoted q content content' escaped =>
    cases escaped with
    | true =>
      by_cases hn : c = '\n'
      · simp only [Reading.step, next?, if_pos hn]
        exact .none
      · simp only [Reading.step, next?, if_neg hn]
        exact .some ⟨.nil, .quoted q _ _ false⟩
    | false =>
      by_cases hb : c = '\\'
      · simp only [Reading.step, next?, if_pos hb]
        exact .some ⟨.nil, .quoted q _ _ true⟩
      by_cases hq : c = q
      · simp only [Reading.step, next?, if_neg hb, if_pos hq]
        exact .some ⟨.cons (.strings _ _) .nil, .same .blank⟩
      · simp only [Reading.step, next?, if_neg hb, if_neg hq]
        exact .some ⟨.nil, .quoted q _ _ false⟩

/-- What is read after outcomes of one shape leaves them of one shape. -/
theorem AlikeOutcomes.extend {p p' q q' : List Token × Reading} (h : AlikeOutcomes p p')
    (hq : AlikeOutcomes q q') : AlikeOutcomes (p.1 ++ q.1, q.2) (p'.1 ++ q'.1, q'.2) :=
  ⟨List.rel_append h.tokens hq.tokens, hq.reading⟩

theorem AlikeOutcomes.finish {p q : List Token × Reading} (h : AlikeOutcomes p q) :
    Option.Rel (List.Forall₂ Token.Alike) (Reading.finish p) (Reading.finish q) := by
  exact rel_map h.reading.flush fun _ _ ht => List.rel_append h.tokens ht

end Transclude.Condition

namespace Transclude.Interpolation

open Condition

/-! ### Items of one shape -/

/-- Items of one shape: the same character of the author, or two strings. -/
inductive Item.Alike : Item → Item → Prop
  | own (c : Char) : Alike (.own c) (.own c)
  | strings (s t : String) : Alike (.value (.string s)) (.value (.string t))

theorem Item.Alike.fits_eq {i j : Item} (h : i.Alike j) {r s : Reading} (hr : r.Alike s) :
    i.fits r = j.fits s := by
  cases h with
  | own c => rfl
  | strings s t => rw [fits, fits, hr.quoting_eq]

/-- Items of one shape do the same to lexemes of one shape. -/
theorem Item.Alike.read {i j : Item} (h : i.Alike j) {r s : Reading} (hr : r.Alike s) :
    Option.Rel AlikeOutcomes (i.read r) (j.read s) := by
  cases h with
  | own c => exact hr.step c
  | strings a b =>
    cases hr with
    | quoted q content content' escaped => exact .some ⟨.nil, .quoted q _ _ escaped⟩
    | same =>
      cases ho : r.quoting.opened with
      | none =>
        rw [Item.read_value_outside ho, Item.read_value_outside ho]
        cases r.flush with
        | none => exact .none
        | some ts =>
          exact .some ⟨List.rel_append (forall₂_alike_refl ts) (.cons (.strings a b) .nil),
            .same .blank⟩
      | some q =>
        cases r with
        | quoted q content escaped => exact .some ⟨.nil, .quoted q _ _ escaped⟩
        | _ => cases ho

theorem alike_readItems {its jts : List Item} (h : List.Forall₂ Item.Alike its jts)
    {r s : Reading} (hr : r.Alike s) :
    Option.Rel AlikeOutcomes (readItems r its) (readItems s jts) := by
  induction h generalizing r s with
  | nil => exact .some ⟨.nil, hr⟩
  | cons hi _ ih =>
    rw [readItems, readItems]
    refine rel_bind (hi.read hr) ?_
    intro p p' hp
    exact rel_map (ih hp.reading) fun _ _ hq => hp.extend hq

theorem guarded_of_alike {its jts : List Item} (h : List.Forall₂ Item.Alike its jts)
    {r s : Reading} (hr : r.Alike s) (hg : guarded r its = true) : guarded s jts = true := by
  induction h generalizing r s with
  | nil => rfl
  | @cons i j _ _ hi _ ih =>
    rw [guarded, Bool.and_eq_true] at hg ⊢
    obtain ⟨hf, hg⟩ := hg
    refine ⟨hi.fits_eq hr ▸ hf, ?_⟩
    cases hj : j.read s with
    | none => rfl
    | some p' =>
      obtain ⟨p, hp, hpp⟩ := exists_of_rel (hj ▸ hi.read hr)
      rw [hp] at hg
      exact ih hpp.reading hg

/-- Whether two contexts resolve the same of some placeholders, all of them to strings. -/
def SameStrings (ps : List Piece) (v w : Value) : Prop :=
  ∀ written ident, Piece.placeholder written ident ∈ ps →
    (v.lookup? ident = none ∧ w.lookup? ident = none) ∨
      ∃ s t, v.lookup? ident = some (.string s) ∧ w.lookup? ident = some (.string t)

theorem sameStrings_nil (v w : Value) : SameStrings [] v w := fun _ _ hm => by cases hm

theorem sameStrings_char {c : Char} {ps : List Piece} {v w : Value} :
    SameStrings (.char c :: ps) v w ↔ SameStrings ps v w := by
  constructor
  · intro h written ident hm
    exact h written ident (List.mem_cons_of_mem _ hm)
  · intro h written ident hm
    rcases List.mem_cons.mp hm with he | hm
    · cases he
    · exact h written ident hm

theorem sameStrings_placeholder {written ident : List Char} {ps : List Piece} {v w : Value} :
    SameStrings (.placeholder written ident :: ps) v w ↔
      ((v.lookup? ident = none ∧ w.lookup? ident = none) ∨
        ∃ s t, v.lookup? ident = some (.string s) ∧ w.lookup? ident = some (.string t)) ∧
      SameStrings ps v w := by
  constructor
  · intro h
    refine ⟨h written ident List.mem_cons_self, ?_⟩
    intro written' ident' hm
    exact h written' ident' (List.mem_cons_of_mem _ hm)
  · rintro ⟨hfirst, h⟩ written' ident' hm
    rcases List.mem_cons.mp hm with he | hm
    · cases he
      exact hfirst
    · exact h written' ident' hm

theorem SameStrings.symm {ps : List Piece} {v w : Value} (h : SameStrings ps v w) :
    SameStrings ps w v := by
  intro written ident hm
  rcases h written ident hm with ⟨hv, hw⟩ | ⟨s, t, hv, hw⟩
  · exact .inl ⟨hw, hv⟩
  · exact .inr ⟨t, s, hw, hv⟩

/-- A context that resolves the same placeholders to strings resolves them to strings. -/
theorem SameStrings.right {ps : List Piece} {v w : Value} (h : SameStrings ps v w) :
    SameStrings ps w w := by
  intro written ident hm
  rcases h written ident hm with ⟨-, hw⟩ | ⟨-, t, -, hw⟩
  · exact .inl ⟨hw, hw⟩
  · exact .inr ⟨t, t, hw, hw⟩

theorem SameStrings.mono {ps qs : List Piece} {v w : Value} (h : SameStrings ps v w)
    (hsub : ∀ p ∈ qs, p ∈ ps) : SameStrings qs v w :=
  fun written ident hm => h written ident (hsub _ hm)

theorem forall₂_own (cs : List Char) :
    List.Forall₂ Item.Alike (cs.map Item.own) (cs.map Item.own) := by
  refine List.forall₂_same.mpr ?_
  intro i hi
  obtain ⟨c, -, rfl⟩ := List.mem_map.mp hi
  exact .own c

theorem alike_items {ps : List Piece} {v w : Value} (h : SameStrings ps v w) :
    List.Forall₂ Item.Alike (ps.flatMap (Piece.items v)) (ps.flatMap (Piece.items w)) := by
  induction ps with
  | nil => exact .nil
  | cons p ps ih =>
    rw [List.flatMap_cons, List.flatMap_cons]
    cases p with
    | char c => exact .cons (.own c) (ih (sameStrings_char.mp h))
    | placeholder written ident =>
      obtain ⟨hfirst, hrest⟩ := sameStrings_placeholder.mp h
      refine List.rel_append ?_ (ih hrest)
      rw [Piece.items, Piece.items]
      rcases hfirst with ⟨hv, hw⟩ | ⟨s, t, hv, hw⟩
      · -- a placeholder that names nothing stays as the author wrote it
        rw [hv, hw]
        exact forall₂_own written
      · rw [hv, hw]
        exact .cons (.strings s t) .nil

theorem isQuoted_of_alike {its jts : List Item} (h : List.Forall₂ Item.Alike its jts) {v : Value}
    (hv : Item.value v ∈ its) : IsQuoted v := by
  induction h with
  | nil => cases hv
  | cons hi _ ih =>
    rcases List.mem_cons.mp hv with hm | hm
    · subst hm
      cases hi
      exact .inl rfl
    · exact ih hm

/-- In a guarded test, other strings give tokens of the same shape, or none at all. -/
theorem alike_of_guarded {text : List Char} {v w : Value} (h : SameStrings (pieces text) v w)
    (hg : guarded .blank (items text v) = true) :
    Option.Rel (List.Forall₂ Token.Alike) (tokens? (interpolateTestChars text v))
      (tokens? (interpolateTestChars text w)) := by
  have ha : List.Forall₂ Item.Alike (items text v) (items text w) := alike_items h
  have hb : List.Forall₂ Item.Alike (items text w) (items text v) := alike_items h.symm
  rw [tokens?_interpolateTestChars hg fun _ hv => isQuoted_of_alike ha hv,
    tokens?_interpolateTestChars (guarded_of_alike ha (.same .blank) hg)
      fun _ hv => isQuoted_of_alike hb hv]
  exact rel_bind (alike_readItems ha (.same .blank)) fun _ _ hp => hp.finish

end Transclude.Interpolation
