/-
Placeholders replaced all at once.

Interpolation looks for placeholders from left to right and goes on after each one that it finds.
Nothing depends on this order: the places where the form of a placeholder stands in a text never
overlap, so all of them are found, and each is replaced or kept by itself.

* `OccursAt` — a placeholder stands between two positions of a text;
* `OccursAt.eq_or_apart` — two placeholders of a text are the same, or one ends before the other
  begins;
* `Becomes` — what one position of a text comes to when all placeholders that name something are
  replaced at once;
* `ComesTo` — what a text comes to, position by position;
* `interpolate_at_once` — every position becomes exactly one thing, and interpolation is what the
  text comes to.

Design notes: `Becomes` is about one position, and knows neither a direction nor pieces.  Two
placeholders cannot overlap because a pair of opening braces stands nowhere in a placeholder but at
its start (`OccursAt.ne_brace`).
-/
import Transclude.Proofs.Placeholder

namespace Transclude.Interpolation

variable {text cs : List Char} {ident ident' : List Char} {start stop start' stop' : Nat}

/-! ### Where placeholders stand -/

/-- A placeholder with this identifier stands between two positions of a text. -/
def OccursAt (text : List Char) (start stop : Nat) (ident : List Char) : Prop :=
  ∃ before written after, text = before ++ (written ++ after) ∧ before.length = start ∧
    start + written.length = stop ∧ IsPlaceholder written ident

/-- After its two opening braces a placeholder has no other. -/
theorem IsPlaceholder.exists_cons {written : List Char} (h : IsPlaceholder written ident) :
    ∃ cs, written = '{' :: '{' :: cs ∧ cs ≠ [] ∧ '{' ∉ cs := by
  obtain ⟨before, after, rfl, hb, hi, ha⟩ := h
  refine ⟨_, rfl, by simp, ?_⟩
  simp only [List.mem_append, not_or]
  exact ⟨fun h => absurd (hb _ h) (by decide), fun h => absurd (hi _ h) (by decide),
    fun h => absurd (ha _ h) (by decide), by decide⟩

theorem OccursAt.opening (h : OccursAt text start stop ident) :
    text[start]? = some '{' ∧ text[start + 1]? = some '{' ∧ start + 2 < stop := by
  obtain ⟨before, written, after, rfl, rfl, rfl, hw⟩ := h
  obtain ⟨cs, rfl, hne, -⟩ := hw.exists_cons
  have hpos := List.length_pos_iff.mpr hne
  refine ⟨by simp, by simp, ?_⟩
  simp only [List.length_cons]
  omega

theorem OccursAt.ne_brace (h : OccursAt text start stop ident) {k : Nat} (hk : start + 2 ≤ k)
    (hstop : k < stop) : text[k]? ≠ some '{' := by
  obtain ⟨before, written, after, rfl, rfl, rfl, hw⟩ := h
  obtain ⟨cs, rfl, -, hbrace⟩ := hw.exists_cons
  obtain ⟨m, rfl⟩ := Nat.exists_eq_add_of_le hk
  have hm : m < cs.length := by
    simp only [List.length_cons] at hstop
    omega
  have hget : (before ++ ('{' :: '{' :: cs ++ after))[before.length + 2 + m]? = some cs[m] := by
    rw [Nat.add_assoc, List.getElem?_append_right (Nat.le_add_right _ _), Nat.add_sub_cancel_left,
      Nat.add_comm 2 m]
    simp [List.getElem?_append_left hm]
  rw [hget]
  intro heq
  exact hbrace (Option.some.inj heq ▸ List.getElem_mem hm)

/-- No placeholder begins inside another. -/
theorem OccursAt.not_inside (h : OccursAt text start stop ident)
    (h' : OccursAt text start' stop' ident') : ¬(start < start' ∧ start' < stop) := by
  rintro ⟨hlt, hstop⟩
  obtain ⟨hfirst, hsecond, -⟩ := h'.opening
  rcases Nat.lt_or_ge start' (start + 2) with hnear | hfar
  · -- the second brace of one would be the first of the other, and something follows it
    obtain rfl : start' = start + 1 := by omega
    exact h.ne_brace (Nat.le_refl _) h.opening.2.2 hsecond
  · exact h.ne_brace hfar hstop hfirst

theorem OccursAt.eq_of_start (h : OccursAt text start stop ident)
    (h' : OccursAt text start stop' ident') : stop = stop' ∧ ident = ident' := by
  obtain ⟨before, written, after, rfl, rfl, rfl, hw⟩ := h
  obtain ⟨before', written', after', htext, hstart, rfl, hw'⟩ := h'
  have hrest : written ++ after = written' ++ after' := (List.append_inj htext hstart.symm).2
  have hfound := placeholder?_of_isPlaceholder hw after
  rw [hrest, placeholder?_of_isPlaceholder hw', Option.some.injEq, Prod.mk.injEq] at hfound
  obtain ⟨rfl, rfl⟩ := hfound
  exact ⟨by rw [List.append_cancel_right hrest], rfl⟩

/-- Two placeholders of a text are the same, or one ends before the other begins. -/
theorem OccursAt.eq_or_apart (h : OccursAt text start stop ident)
    (h' : OccursAt text start' stop' ident') :
    (start, stop, ident) = (start', stop', ident') ∨ stop ≤ start' ∨ stop' ≤ start := by
  rcases Nat.lt_trichotomy start start' with hlt | rfl | hlt
  · exact .inr (.inl (Nat.le_of_not_lt fun hstop => h.not_inside h' ⟨hlt, hstop⟩))
  · obtain ⟨rfl, rfl⟩ := h.eq_of_start h'
    exact .inl rfl
  · exact .inr (.inr (Nat.le_of_not_lt fun hstop => h'.not_inside h ⟨hlt, hstop⟩))

/-! ### A text cut in two -/

theorem OccursAt.append_left (h : OccursAt cs start stop ident) (a : List Char) :
    OccursAt (a ++ cs) (a.length + start) (a.length + stop) ident := by
  obtain ⟨before, written, after, rfl, rfl, rfl, hw⟩ := h
  exact ⟨a ++ before, written, after, by simp, by simp, by omega, hw⟩

theorem OccursAt.of_append {a : List Char} (h : OccursAt (a ++ cs) start stop ident)
    (ha : a.length ≤ start) :
    ∃ i j, start = a.length + i ∧ stop = a.length + j ∧ OccursAt cs i j ident := by
  obtain ⟨before, written, after, htext, rfl, rfl, hw⟩ := h
  obtain ⟨before', rfl, hcs⟩ : ∃ before', before = a ++ before' ∧
      cs = before' ++ (written ++ after) := by
    rcases List.append_eq_append_iff.mp htext with ⟨b, rfl, hcs⟩ | ⟨b, rfl, hcs⟩
    · exact ⟨b, rfl, hcs⟩
    · have hb : b = [] := by
        rw [List.length_append] at ha
        exact List.eq_nil_of_length_eq_zero (by omega)
      subst hb
      exact ⟨[], by simp, by simpa using hcs.symm⟩
  refine ⟨before'.length, before'.length + written.length, by simp, ?_, before', written, after,
    hcs, rfl, rfl, hw⟩
  rw [List.length_append, Nat.add_assoc]

/-! ### Replacing all at once -/

/-- What a position of a text becomes when all placeholders that name something are replaced at
once: where such a placeholder begins, the text of what it names; at its other positions nothing;
outside of all of them the character of the text. -/
inductive Becomes (text : List Char) (context : Value) : Nat → List Char → Prop
  | first {start stop : Nat} {ident : List Char} {v : Value} :
      OccursAt text start stop ident → context.lookup? ident = some v →
        Becomes text context start v.text.toList
  | other {start stop k : Nat} {ident : List Char} {v : Value} :
      OccursAt text start stop ident → context.lookup? ident = some v → start < k → k < stop →
        Becomes text context k []
  | own {k : Nat} (hk : k < text.length) :
      (∀ start stop ident, OccursAt text start stop ident → (context.lookup? ident).isSome →
        ¬(start ≤ k ∧ k < stop)) → Becomes text context k [text[k]]

variable {context v : Value}

theorem Becomes.unique {k : Nat} {out out' : List Char} (h : Becomes text context k out)
    (h' : Becomes text context k out') : out = out' := by
  -- a placeholder at the position is the only one there
  have hone : ∀ {start stop start' stop' ident ident'}, OccursAt text start stop ident →
      OccursAt text start' stop' ident' → start ≤ k → k < stop → start' ≤ k → k < stop' →
        start = start' ∧ ident = ident' := by
    intro start stop start' stop' ident ident' ho ho' hk hstop hk' hstop'
    rcases ho.eq_or_apart ho' with heq | hapart
    · simp only [Prod.mk.injEq] at heq
      exact ⟨heq.1, heq.2.2⟩
    · omega
  have hlt : ∀ {start stop ident}, OccursAt text start stop ident → start < stop := fun ho =>
    Nat.lt_of_le_of_lt (Nat.le_add_right _ 2) ho.opening.2.2
  cases h with
  | first ho hv => cases h' with
    | first ho' hv' =>
      obtain ⟨-, rfl⟩ := hone ho ho' (Nat.le_refl _) (hlt ho) (Nat.le_refl _) (hlt ho')
      rw [hv, Option.some.injEq] at hv'
      rw [hv']
    | other ho' hv' hk' hstop' =>
      obtain ⟨rfl, -⟩ := hone ho ho' (Nat.le_refl _) (hlt ho) (Nat.le_of_lt hk') hstop'
      exact absurd hk' (Nat.lt_irrefl _)
    | own hk' hout => exact absurd ⟨Nat.le_refl _, hlt ho⟩ (hout _ _ _ ho (by simp [hv]))
  | other ho hv hk hstop => cases h' with
    | first ho' hv' =>
      obtain ⟨rfl, -⟩ := hone ho ho' (Nat.le_of_lt hk) hstop (Nat.le_refl _) (hlt ho')
      exact absurd hk (Nat.lt_irrefl _)
    | other => rfl
    | own hk' hout => exact absurd ⟨Nat.le_of_lt hk, hstop⟩ (hout _ _ _ ho (by simp [hv]))
  | own hk hout => cases h' with
    | first ho hv => exact absurd ⟨Nat.le_refl _, hlt ho⟩ (hout _ _ _ ho (by simp [hv]))
    | other ho hv hk' hstop =>
      exact absurd ⟨Nat.le_of_lt hk', hstop⟩ (hout _ _ _ ho (by simp [hv]))
    | own => rfl

/-- What a position becomes does not depend on what is before it, if no placeholder stands across
the cut. -/
theorem Becomes.append_left {a out : List Char} {k : Nat} (h : Becomes cs context k out)
    (hcut : ∀ start stop ident, OccursAt (a ++ cs) start stop ident → start < a.length →
      stop ≤ a.length) : Becomes (a ++ cs) context (a.length + k) out := by
  cases h with
  | first ho hv => exact .first (ho.append_left a) hv
  | other ho hv hk hstop =>
    exact .other (ho.append_left a) hv (Nat.add_lt_add_left hk _) (Nat.add_lt_add_left hstop _)
  | own hk hout =>
    have hk' : a.length + k < (a ++ cs).length := by
      rw [List.length_append]
      omega
    have hget : (a ++ cs)[a.length + k] = cs[k] := by simp
    rw [← hget]
    refine .own hk' fun start stop ident ho hv hin => ?_
    rcases Nat.lt_or_ge start a.length with hlt | hge
    · have hstop := hcut start stop ident ho hlt
      omega
    · obtain ⟨i, j, rfl, rfl, ho'⟩ := ho.of_append hge
      exact hout i j ident ho' hv (by omega)

/-- A text comes to what its positions become. -/
def ComesTo (text : List Char) (context : Value) (result : List Char) : Prop :=
  ∃ parts : List (List Char), parts.length = text.length ∧
    (∀ k part, parts[k]? = some part → Becomes text context k part) ∧ result = parts.flatten

/-- A text cut where no placeholder stands comes to what its two parts come to. -/
theorem ComesTo.append {a head result : List Char} {parts : List (List Char)}
    (hhead : parts.flatten = head) (hlength : parts.length = a.length)
    (hparts : ∀ k part, parts[k]? = some part → Becomes (a ++ cs) context k part)
    (hcut : ∀ start stop ident, OccursAt (a ++ cs) start stop ident → start < a.length →
      stop ≤ a.length) (h : ComesTo cs context result) :
    ComesTo (a ++ cs) context (head ++ result) := by
  obtain ⟨parts', hlength', hparts', rfl⟩ := h
  refine ⟨parts ++ parts', by simp [hlength, hlength'], fun k part hk => ?_,
    by rw [List.flatten_append, hhead]⟩
  rcases Nat.lt_or_ge k parts.length with hlt | hge
  · rw [List.getElem?_append_left hlt] at hk
    exact hparts k part hk
  · rw [List.getElem?_append_right hge] at hk
    obtain ⟨m, rfl⟩ := Nat.exists_eq_add_of_le hge
    rw [Nat.add_sub_cancel_left] at hk
    rw [hlength]
    exact (hparts' m part hk).append_left hcut

/-- The characters before the first placeholder that names something stay. -/
theorem ComesTo.append_own {a result : List Char}
    (hcut : ∀ start stop ident, OccursAt (a ++ cs) start stop ident → start < a.length →
      stop ≤ a.length ∧ context.lookup? ident = none) (h : ComesTo cs context result) :
    ComesTo (a ++ cs) context (a ++ result) := by
  have hhead : (a.map fun c => [c]).flatten = a := by
    rw [← List.flatMap_def, List.flatMap_singleton']
  refine h.append hhead (List.length_map _) (fun k part hk => ?_)
    fun start stop ident ho hlt => (hcut start stop ident ho hlt).1
  rw [List.getElem?_map, Option.map_eq_some_iff] at hk
  obtain ⟨c, hc, rfl⟩ := hk
  obtain ⟨hlt, rfl⟩ := List.getElem?_eq_some_iff.mp hc
  have hk : k < (a ++ cs).length := by
    rw [List.length_append]
    omega
  have hget : (a ++ cs)[k] = a[k] := List.getElem_append_left hlt
  rw [← hget]
  refine .own hk fun start stop ident ho hv hin => ?_
  have hnone := (hcut start stop ident ho (Nat.lt_of_le_of_lt hin.1 hlt)).2
  rw [hnone] at hv
  cases hv

theorem interpolateChars_placeholder {written : List Char} (hw : IsPlaceholder written ident)
    (rest : List Char) (context : Value) :
    interpolateChars (written ++ rest) context =
      ((context.lookup? ident).elim written fun v => v.text.toList) ++
        interpolateChars rest context := by
  rw [interpolateChars, items, pieces_placeholder hw, List.flatMap_cons, List.flatMap_append,
    Piece.items]
  cases context.lookup? ident with
  | none => simp [List.flatMap_map, Item.text, interpolateChars, items]
  | some v => simp [Item.text, interpolateChars, items]

theorem interpolateChars_char {c : Char} (hc : placeholder? (c :: cs) = none) (context : Value) :
    interpolateChars (c :: cs) context = c :: interpolateChars cs context := by
  rw [interpolateChars, items, pieces_char hc]
  rfl

/-- A text comes to what interpolation makes of it. -/
theorem comesTo_interpolateChars (text : List Char) (context : Value) :
    ComesTo text context (interpolateChars text context) := by
  induction text using text_induction with
  | empty => exact ⟨[], rfl, by simp, rfl⟩
  | placeholder written ident rest hw ih =>
    have hhere : OccursAt (written ++ rest) 0 written.length ident :=
      ⟨[], written, rest, rfl, rfl, Nat.zero_add _, hw⟩
    have hpos : 0 < written.length := by
      obtain ⟨cs, rfl, -⟩ := hw.exists_cons
      simp
    -- the placeholder itself is the only one that begins in it
    have honly : ∀ start stop i, OccursAt (written ++ rest) start stop i →
        start < written.length → (start, stop, i) = (0, written.length, ident) := by
      intro start stop i ho hlt
      rcases ho.eq_or_apart hhere with heq | hapart
      · exact heq
      · have := ho.opening.2.2
        omega
    have hcut : ∀ start stop i, OccursAt (written ++ rest) start stop i →
        start < written.length → stop ≤ written.length := by
      intro start stop i ho hlt
      have heq := honly start stop i ho hlt
      simp only [Prod.mk.injEq] at heq
      omega
    rw [interpolateChars_placeholder hw]
    cases hv : context.lookup? ident with
    | some v =>
      have hhead : (v.text.toList :: List.replicate (written.length - 1) []).flatten =
          v.text.toList := by simp
      refine ih.append hhead (by simp; omega) (fun k part hk => ?_) hcut
      cases k with
      | zero =>
        obtain rfl := Option.some.inj hk
        exact .first hhere hv
      | succ k =>
        rw [List.getElem?_cons_succ, List.getElem?_replicate] at hk
        split at hk
        · obtain rfl := Option.some.inj hk
          exact .other hhere hv (Nat.succ_pos k) (by omega)
        · cases hk
    | none =>
      refine ih.append_own fun start stop i ho hlt => ⟨hcut start stop i ho hlt, ?_⟩
      have heq := honly start stop i ho hlt
      simp only [Prod.mk.injEq] at heq
      rw [heq.2.2, hv]
  | char c cs hc ih =>
    rw [interpolateChars_char hc]
    show ComesTo ([c] ++ cs) context ([c] ++ interpolateChars cs context)
    refine ih.append_own fun start stop i ho hlt => ?_
    -- a placeholder at the first character would have been found
    obtain ⟨before, written, after, htext, rfl, -, hw⟩ := ho
    obtain rfl : before = [] := List.eq_nil_of_length_eq_zero (by simpa using hlt)
    rw [List.nil_append] at htext
    rw [← List.singleton_append, htext, placeholder?_of_isPlaceholder hw] at hc
    cases hc

/-- **Interpolation replaces all placeholders at once.**  Two placeholders of a text are the same or
apart; every position of the text becomes one thing, whatever the other positions become; and
interpolation puts these together in the order of the text. -/
theorem interpolate_at_once (text : String) (context : Value) :
    (∀ start stop ident start' stop' ident', OccursAt text.toList start stop ident →
      OccursAt text.toList start' stop' ident' →
        (start, stop, ident) = (start', stop', ident') ∨ stop ≤ start' ∨ stop' ≤ start) ∧
    (∀ k, k < text.toList.length → ∃ part, Becomes text.toList context k part ∧
      ∀ part', Becomes text.toList context k part' → part' = part) ∧
    ComesTo text.toList context (interpolate text context).toList := by
  refine ⟨fun _ _ _ _ _ _ h h' => h.eq_or_apart h', fun k hk => ?_, ?_⟩
  · obtain ⟨parts, hlength, hparts, -⟩ := comesTo_interpolateChars text.toList context
    obtain ⟨part, hpart⟩ : ∃ part, parts[k]? = some part :=
      ⟨_, List.getElem?_eq_getElem (hlength ▸ hk)⟩
    exact ⟨part, hparts k part hpart, fun part' h => h.unique (hparts k part hpart)⟩
  · rw [interpolate, String.toList_ofList]
    exact comesTo_interpolateChars text.toList context

/-- A brace before a placeholder, a placeholder in a value, and one that names nothing. -/
theorem interpolate_at_once_of_brace_before :
    let text := "\x7b{{a}}{{ b }}{{c}}"
    let context : Value := .object [("a", .string "{{c}}"), ("c", .string "\x7d")]
    (∀ start stop ident, OccursAt text.toList start stop ident →
      (start, stop, ident) = (1, 6, ['a']) ∨ stop ≤ 1 ∨ 6 ≤ start) ∧
    (∀ part, Becomes text.toList context 1 part ↔ part = "{{c}}".toList) ∧
    ComesTo text.toList context "\x7b{{c}}{{ b }}\x7d".toList := by
  intro text context
  obtain ⟨hapart, hone, hresult⟩ := interpolate_at_once text context
  -- the first brace of the three belongs to no placeholder
  have hhere : OccursAt text.toList 1 6 ['a'] :=
    ⟨['{'], "{{a}}".toList, "{{ b }}{{c}}".toList, by decide, rfl, rfl, [], [], by decide,
      List.forall_mem_nil _, List.forall_mem_singleton.mpr (by decide), List.forall_mem_nil _⟩
  have hvalue : context.lookup? ['a'] = some (.string "{{c}}") := rfl
  have hbecomes : Becomes text.toList context 1 "{{c}}".toList := .first hhere hvalue
  have hinterpolated : interpolate text context = "\x7b{{c}}{{ b }}\x7d" := by decide
  rw [hinterpolated] at hresult
  refine ⟨fun start stop ident h => hapart _ _ _ _ _ _ h hhere, fun part => ⟨fun h => ?_, ?_⟩,
    hresult⟩
  · obtain ⟨_, _, hunique⟩ := hone 1 (by decide)
    rw [hunique part h, hunique _ hbecomes]
  · rintro rfl
    exact hbecomes

end Transclude.Interpolation
