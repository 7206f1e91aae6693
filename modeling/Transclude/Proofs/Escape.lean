/-
Escaped texts and start tags, read back.

* `unescape_flatMap` — escaping each character is undone by unescaping the whole;
* `startTag_html` — a written start tag has the name and the attributes it was written with.

Design notes: texts and attribute values escape different characters.  What undoing needs of either
is `Undone`: after the characters written for one, the reader has that one and is between entities.
-/
import Transclude.Markup.Event
import Transclude.Output.Html

namespace Transclude.Markup

open Output

/-! ### Entities -/

/-- Whether the reader of entities takes what is written for each character as that character. -/
def Undone (escape : Char → List Char) : Prop :=
  ∀ c length position rest, ∃ position',
    unescapeFrom length .plain position (escape c ++ rest) =
      (unescapeFrom length .plain position' rest).map (c :: ·)

theorem undone_escapeTextChar : Undone escapeTextChar := by
  intro c length position rest
  rw [escapeTextChar]
  by_cases hamp : c = '&'
  · subst hamp
    exact ⟨_, rfl⟩
  by_cases hlt : c = '<'
  · subst hlt
    exact ⟨_, rfl⟩
  by_cases hgt : c = '>'
  · subst hgt
    exact ⟨_, rfl⟩
  rw [if_neg hamp, if_neg hlt, if_neg hgt, List.singleton_append, unescapeFrom, if_neg hamp]
  exact ⟨_, rfl⟩

theorem undone_escapeValueChar : Undone escapeValueChar := by
  intro c length position rest
  rw [escapeValueChar]
  by_cases hquot : c = '"'
  · subst hquot
    exact ⟨_, rfl⟩
  · rw [if_neg hquot]
    exact undone_escapeTextChar c length position rest

theorem unescapeFrom_flatMap {escape : Char → List Char} (h : Undone escape) (cs : List Char)
    (length position : Nat) :
    unescapeFrom length .plain position (cs.flatMap escape) = .ok cs := by
  induction cs generalizing position with
  | nil => rfl
  | cons c cs ih =>
    obtain ⟨position', hc⟩ := h c length position (cs.flatMap escape)
    rw [List.flatMap_cons, hc, ih]
    rfl

/-- Unescaping undoes escaping. -/
theorem unescape_flatMap {escape : Char → List Char} (h : Undone escape) (cs : List Char) :
    unescape (cs.flatMap escape) = .ok cs :=
  unescapeFrom_flatMap h cs _ 0

/-- What is written for a character of a text: no `<`, and a quotation mark for itself only. -/
theorem of_mem_escapeTextChar {c d : Char} (h : d ∈ escapeTextChar c) :
    d ≠ '<' ∧ (d = '"' → c = '"') := by
  have hentity : ∀ cs : List Char, cs.all (fun d => d != '<' && d != '"') = true → d ∈ cs →
      d ≠ '<' ∧ (d = '"' → c = '"') := by
    intro cs hcs hd
    have hne := List.all_eq_true.mp hcs d hd
    rw [Bool.and_eq_true, bne_iff_ne, bne_iff_ne] at hne
    exact ⟨hne.1, fun he => absurd he hne.2⟩
  rw [escapeTextChar] at h
  by_cases hamp : c = '&'
  · rw [if_pos hamp] at h
    exact hentity _ rfl h
  by_cases hlt : c = '<'
  · rw [if_neg hamp, if_pos hlt] at h
    exact hentity _ rfl h
  by_cases hgt : c = '>'
  · rw [if_neg hamp, if_neg hlt, if_pos hgt] at h
    exact hentity _ rfl h
  rw [if_neg hamp, if_neg hlt, if_neg hgt, List.mem_singleton] at h
  exact ⟨fun he => hlt (h ▸ he), fun he => h ▸ he⟩

theorem lt_not_mem_escapeText (s : String) : '<' ∉ escapeText s := by
  intro h
  obtain ⟨c, -, hc⟩ := List.mem_flatMap.mp h
  exact (of_mem_escapeTextChar hc).1 rfl

theorem quote_not_mem_escapeValue (cs : List Char) : '"' ∉ cs.flatMap escapeValueChar := by
  intro h
  obtain ⟨c, -, hc⟩ := List.mem_flatMap.mp h
  rw [escapeValueChar] at hc
  by_cases hquot : c = '"'
  · rw [if_pos hquot] at hc
    revert hc
    decide
  · rw [if_neg hquot] at hc
    exact hquot ((of_mem_escapeTextChar hc).2 rfl)

/-! ### Names -/

/-- A letter of a name; all characters beyond ASCII count as letters. -/
def isLetter (c : Char) : Bool := c.isAlpha || 128 ≤ c.toNat

/-- A character of a name after the first. -/
def isNameChar (c : Char) : Bool :=
  isLetter c || c.isDigit || c = '-' || c = '_' || c = '.' || c = ':'

/-- Whether a text is a name of markup. -/
def isName : List Char → Bool
  | [] => false
  | c :: cs => isLetter c && cs.all isNameChar

theorem isNameChar_of_isLetter {c : Char} (h : isLetter c = true) : isNameChar c = true := by
  simp [isNameChar, h]

theorem isNameChar_of_isName {cs : List Char} (h : isName cs = true) :
    ∀ c ∈ cs, isNameChar c = true := by
  cases cs with
  | nil => cases h
  | cons d ds =>
    rw [isName, Bool.and_eq_true, List.all_eq_true] at h
    intro c hc
    rcases List.mem_cons.mp hc with rfl | hc
    · exact isNameChar_of_isLetter h.1
    · exact h.2 c hc

theorem ne_of_isNameChar {c d : Char} (hc : isNameChar c = true) (hd : isNameChar d = false) :
    c ≠ d := by
  rintro rfl
  rw [hc] at hd
  cases hd

theorem not_isSpace_of_isNameChar {c : Char} (h : isNameChar c = true) : isSpace c = false := by
  have hblank : c ≠ ' ' := ne_of_isNameChar h rfl
  have htab : c ≠ '\t' := ne_of_isNameChar h rfl
  have hline : c ≠ '\n' := ne_of_isNameChar h rfl
  have hreturn : c ≠ '\r' := ne_of_isNameChar h rfl
  simp [isSpace, hblank, htab, hline, hreturn]

theorem not_endsKey_of_isNameChar {c : Char} (h : isNameChar c = true) : endsKey c = false := by
  have heq : c ≠ '=' := ne_of_isNameChar h rfl
  simp [endsKey, heq, not_isSpace_of_isNameChar h]

/-! ### Attributes -/

/-- A skip ends at the first character that it does not take. -/
theorem Place.skip_append {p : Char → Bool} (taken : List Char) (c : Char) (rest : List Char)
    (position : Nat) (ht : ∀ d ∈ taken, p d = true) (hc : p c = false) :
    Place.skip p ⟨position, taken ++ c :: rest⟩ =
      (taken, ⟨position + Text.byteLength taken, c :: rest⟩) := by
  simp [skip, List.takeWhile_append_of_pos ht, List.dropWhile_append_of_pos ht, hc]

theorem Place.skipSpace_cons {c : Char} (rest : List Char) (position : Nat)
    (hc : isSpace c = false) : Place.skipSpace ⟨position, c :: rest⟩ = ⟨position, c :: rest⟩ := by
  rw [skipSpace]
  exact congrArg Prod.snd (Place.skip_append [] c rest position (by simp) hc)

/-- A quoted and escaped value is read back. -/
theorem attributeValue_html (position : Nat) (v rest : List Char) :
    ∃ position', attributeValue ⟨position, '"' :: (v.flatMap escapeValueChar ++ '"' :: rest)⟩ =
      .ok (v, ⟨position', rest⟩) := by
  have hv : ∀ c ∈ v.flatMap escapeValueChar, (c != '"') = true := by
    intro c hc
    have hne : c ≠ '"' := fun he => quote_not_mem_escapeValue v (he ▸ hc)
    simpa using hne
  have hskip := Place.skip_append (v.flatMap escapeValueChar) '"' rest (position + '"'.utf8Size)
    hv rfl
  refine ⟨position + '"'.utf8Size + Text.byteLength (v.flatMap escapeValueChar) + '"'.utf8Size, ?_⟩
  simp only [attributeValue, Place.next, true_or, if_true, hskip,
    unescape_flatMap undone_escapeValueChar]

/-- A written attribute is read back, if its name was not there before. -/
theorem attributesFrom_cons {key : String} (hn : isName key.toList = true) (value : String)
    {keys : List (List Char × Nat)} (hk : ∀ k ∈ keys, k.1 ≠ key.toList) (fuel position : Nat)
    (rest : List Char) :
    ∃ place position',
      attributesFrom (fuel + 1) keys ⟨position, attributeHtml (key, value) ++ rest⟩ =
        (attributesFrom fuel ((key.toList, place) :: keys) ⟨position', rest⟩).map
          ((key, value) :: ·) := by
  have hchars := isNameChar_of_isName hn
  cases hkey : key.toList with
  | nil => rw [hkey] at hn; cases hn
  | cons c more =>
    rw [hkey] at hchars
    obtain ⟨after, hvalue⟩ := attributeValue_html
      (position + 1 + c.utf8Size + Text.byteLength more + '='.utf8Size) value.toList rest
    have hc : isSpace c = false := not_isSpace_of_isNameChar (hchars c List.mem_cons_self)
    have hmore : ∀ d ∈ more, (!endsKey d) = true := fun d hd => by
      simp [not_endsKey_of_isNameChar (hchars d (List.mem_cons_of_mem c hd))]
    have hspace := Place.skip_append [' '] c (more ++ '=' :: '"' ::
      (value.toList.flatMap escapeValueChar ++ '"' :: rest)) position (by simp [isSpace]) hc
    have hskip := Place.skip_append more '=' ('"' :: (value.toList.flatMap escapeValueChar ++
      '"' :: rest)) (position + 1 + c.utf8Size) hmore rfl
    have hfind : keys.find? (fun k => k.1 == key.toList) = none := by
      rw [List.find?_eq_none]
      intro k hmem
      simpa using hk k hmem
    have hwritten : attributeHtml (key, value) ++ rest =
        [' '] ++ c :: (more ++ '=' :: '"' ::
          (value.toList.flatMap escapeValueChar ++ '"' :: rest)) := by
      simp [attributeHtml, hkey]
    refine ⟨position + 1, after, ?_⟩
    rw [hwritten, attributesFrom, Place.skipSpace, hspace]
    have heq : isSpace '=' = false := rfl
    have hquot : isSpace '"' = false := rfl
    have hplace : position + Text.byteLength [' '] = position + 1 := rfl
    simp only [hplace, Place.next, hskip, Place.skipSpace_cons _ _ heq, ← hkey, hfind,
      Place.skipSpace_cons _ _ hquot, hvalue, String.ofList_toList]
    cases attributesFrom fuel ((key.toList, position + 1) :: keys) ⟨after, rest⟩ <;> rfl

/-- Written attributes are read back, if their names are names and are distinct. -/
theorem attributesFrom_html {attrs : List (String × String)}
    (hn : ∀ a ∈ attrs, isName a.1.toList = true) (hd : (attrs.map Prod.fst).Nodup)
    {keys : List (List Char × Nat)} (hk : ∀ a ∈ attrs, ∀ k ∈ keys, k.1 ≠ a.1.toList) {fuel : Nat}
    (hf : attrs.length < fuel) (position : Nat) :
    attributesFrom fuel keys ⟨position, attrs.flatMap attributeHtml⟩ = .ok attrs := by
  induction attrs generalizing keys fuel position with
  | nil =>
    cases fuel with
    | zero => cases hf
    | succ fuel => rfl
  | cons a attrs ih =>
    cases fuel with
    | zero => cases hf
    | succ fuel =>
      rw [List.map_cons, List.nodup_cons] at hd
      obtain ⟨place, position', hcons⟩ := attributesFrom_cons (hn a List.mem_cons_self) a.2
        (hk a List.mem_cons_self) fuel position (attrs.flatMap attributeHtml)
      have hkeys : ∀ b ∈ attrs, ∀ k ∈ (a.1.toList, place) :: keys, k.1 ≠ b.1.toList := by
        intro b hb k hmem
        rcases List.mem_cons.mp hmem with rfl | hmem
        · -- the name just read is none of those to come
          intro he
          have hname : a.1 = b.1 := String.toList_inj.mp he
          exact hd.1 (hname ▸ List.mem_map_of_mem hb)
        · exact hk b (List.mem_cons_of_mem a hb) k hmem
      have hrest := ih (fun b hb => hn b (List.mem_cons_of_mem a hb)) hd.2 hkeys
        (Nat.lt_of_succ_lt_succ hf) position'
      rw [List.flatMap_cons, hcons, hrest]
      rfl

theorem length_le_flatMap_html (attrs : List (String × String)) :
    attrs.length ≤ (attrs.flatMap attributeHtml).length := by
  induction attrs with
  | nil => exact Nat.le_refl 0
  | cons a attrs ih =>
    rw [List.flatMap_cons, List.length_append, List.length_cons, attributeHtml, List.length_cons]
    omega

/-- What a start tag holds between its brackets. -/
def tagHtml (tag : String) (attrs : List (String × String)) : List Char :=
  tag.toList ++ attrs.flatMap attributeHtml

/-- A written start tag has its name and its attributes. -/
theorem startTag_html {tag : String} (ht : isName tag.toList = true)
    {attrs : List (String × String)} (hn : ∀ a ∈ attrs, isName a.1.toList = true)
    (hd : (attrs.map Prod.fst).Nodup) (s : Scanner) :
    s.startTag (tagHtml tag attrs) = .ok (tag.toList, attrs) := by
  have hname : ∀ c ∈ tag.toList, (!isSpace c) = true := fun c hc => by
    simp [not_isSpace_of_isNameChar (isNameChar_of_isName ht c hc)]
  -- the name ends where the attributes begin with a blank, or with the tag
  have hspace : (attrs.flatMap attributeHtml).takeWhile (fun c => !isSpace c) = [] ∧
      (attrs.flatMap attributeHtml).dropWhile (fun c => !isSpace c) =
        attrs.flatMap attributeHtml := by
    cases attrs with
    | nil => exact ⟨rfl, rfl⟩
    | cons a attrs => exact ⟨rfl, rfl⟩
  have hread := @attributesFrom_html attrs hn hd [] (fun _ _ k hk => by cases hk) _
    (Nat.lt_succ_of_le (length_le_flatMap_html attrs)) (Text.byteLength tag.toList)
  rw [Scanner.startTag, tagHtml]
  simp only [List.takeWhile_append_of_pos hname, List.dropWhile_append_of_pos hname, hspace.1,
    hspace.2, List.append_nil, attributes, hread]

end Transclude.Markup
