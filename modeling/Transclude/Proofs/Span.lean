/-
The spans of tokens.

* `InOrder` — tokens one after the other between two offsets, none of them empty;
* `Scanner.run_inOrder` — the tokens of a text are in order;
* `Scanner.run_first` — the lexeme at hand is where the next token begins, and as long at least;
* `JoinedAt` — two parts of a text with a lexeme across the cut;
* `Scanner.run_cut` — the tokens of a text that is not joined at a cut are those of its two parts.

Design notes: a scanner stands in a lexeme that has begun before, or between lexemes
(`Scanner.Sound`); this is what its steps preserve.  Only a point after digits may turn out not to
belong to the lexeme that it was read in (`Reading.slack`), so that it takes up to two characters
after a cut to see whether the text is joined there.
-/
import Transclude.Condition.Scan

namespace Transclude.Condition

open Text

/-! ### Tokens in order -/

/-- Tokens that are not empty and follow each other between two offsets. -/
def InOrder (low high : Nat) : List Placed → Prop
  | [] => low ≤ high
  | t :: ts => low ≤ t.start ∧ t.start < t.stop ∧ InOrder t.stop high ts

variable {low mid high : Nat} {ts us : List Placed}

theorem InOrder.le (h : InOrder low high ts) : low ≤ high := by
  induction ts generalizing low with
  | nil => exact h
  | cons t ts ih =>
    obtain ⟨hlow, hlt, hrest⟩ := h
    have := ih hrest
    omega

theorem InOrder.append (h : InOrder low mid ts) (h' : InOrder mid high us) :
    InOrder low high (ts ++ us) := by
  induction ts generalizing low with
  | nil =>
    cases us with
    | nil => exact Nat.le_trans h h'
    | cons u us => exact ⟨Nat.le_trans h h'.1, h'.2⟩
  | cons t ts ih => exact ⟨h.1, h.2.1, ih h.2.2⟩

theorem InOrder.mem (h : InOrder low high ts) {t : Placed} (ht : t ∈ ts) :
    low ≤ t.start ∧ t.start < t.stop ∧ t.stop ≤ high := by
  induction ts generalizing low with
  | nil => cases ht
  | cons u ts ih =>
    obtain ⟨hlow, hlt, hrest⟩ := h
    rcases List.mem_cons.mp ht with rfl | ht
    · exact ⟨hlow, hlt, hrest.le⟩
    · have := ih hrest ht
      omega

/-! ### What a step can do -/

/-- The bytes of a lexeme that may turn out not to belong to it: those of a point after digits. -/
def Reading.slack : Reading → Nat
  | .point _ => 1
  | _ => 0

/-- A scanner between lexemes, or in one that has begun before. -/
def Scanner.Sound (s : Scanner) : Prop :=
  (s.reading = .blank ∧ s.start = s.position) ∨
    (s.reading ≠ .blank ∧ s.start + s.reading.slack < s.position)

variable {s s' : Scanner} {c : Char} {cs : List Char}

theorem sound_between (position : Nat) : (Scanner.between position).Sound := .inl ⟨rfl, rfl⟩

/-- Between lexemes, a character is the first of one. -/
theorem Scanner.step_between (position : Nat) (c : Char) :
    (between position).step c = begin position c := by
  have hnext : (between position).reading.next? c = none := rfl
  have hflush : (between position).flush = .ok [] := rfl
  simp only [step, hnext, hflush]
  rw [show (between position).position = position from rfl]
  cases begin position c <;> rfl

theorem Scanner.step_of_more {r : Reading} (h : s.reading.next? c = some (.more r)) :
    s.step c = .ok ([], ⟨s.start, s.position + c.utf8Size, r⟩) := by
  rw [step, h]

/-- A character goes on the lexeme at hand, ends it, or comes after it. -/
theorem Scanner.step_cases (h : s.step c = .ok (ts, s')) :
    (∃ r, s.reading.next? c = some (.more r) ∧ ts = [] ∧
      s' = ⟨s.start, s.position + c.utf8Size, r⟩) ∨
    (∃ t, s.reading.next? c = some (.done t) ∧
      ts = [⟨t, s.start, s.position + c.utf8Size⟩] ∧ s' = .between (s.position + c.utf8Size)) ∨
    (s.reading.next? c = none ∧ ∃ ended begun, s.flush = .ok ended ∧
      begin s.position c = .ok (begun, s') ∧ ts = ended ++ begun) := by
  rw [step] at h
  cases hm : s.reading.next? c with
  | some m =>
    rw [hm] at h
    cases m with
    | more r => cases h; exact .inl ⟨r, rfl, rfl, rfl⟩
    | done t => cases h; exact .inr (.inl ⟨t, rfl, rfl, rfl⟩)
    | broken => cases h
  | none =>
    simp only [hm] at h
    cases hf : s.flush with
    | error e => rw [hf] at h; cases h
    | ok ended =>
      simp only [hf] at h
      cases hb : begin s.position c with
      | error e => rw [hb] at h; cases h
      | ok p =>
        rw [hb] at h
        cases h
        exact .inr (.inr ⟨rfl, ended, p.1, rfl, rfl, rfl⟩)

theorem begin_cases {position : Nat} (h : begin position c = .ok (ts, s)) :
    (ts = [] ∧ s = .between (position + c.utf8Size)) ∨
    (∃ t, ts = [⟨t, position, position + c.utf8Size⟩] ∧
      s = .between (position + c.utf8Size)) ∨
    (∃ r, beginning c = .first r ∧ ts = [] ∧ s = ⟨position, position + c.utf8Size, r⟩) := by
  rw [begin] at h
  cases hb : beginning c with
  | blank => rw [hb] at h; cases h; exact .inl ⟨rfl, rfl⟩
  | single t => rw [hb] at h; cases h; exact .inr (.inl ⟨t, rfl, rfl⟩)
  | first r => rw [hb] at h; cases h; exact .inr (.inr ⟨r, rfl, rfl, rfl⟩)
  | none => rw [hb] at h; cases h

/-- A first character begins a lexeme, and belongs to it. -/
theorem beginning_first {r : Reading} (h : beginning c = .first r) : r ≠ .blank ∧ r.slack = 0 := by
  unfold beginning at h
  split at h
  · cases h
  split at h
  · cases h; exact ⟨by simp, rfl⟩
  split at h
  · cases h; exact ⟨by simp, rfl⟩
  split at h <;> first | (cases h; exact ⟨by simp, rfl⟩) | cases h

/-- A lexeme that goes on is one still. -/
theorem Reading.next?_more {r r' : Reading} (h : r.next? c = some (.more r')) :
    r ≠ .blank ∧ r' ≠ .blank ∧ r'.slack ≤ 1 := by
  have hslack : r'.slack ≤ 1 := by cases r' <;> simp [slack]
  refine ⟨?_, ?_, hslack⟩
  · rintro rfl
    cases h
  · rintro rfl
    cases r with
    | quoted q content escaped => cases escaped <;> grind [next?]
    | _ => grind [next?]

/-! ### The tokens of a run are in order -/

theorem Scanner.flush_inOrder (hs : s.Sound) (h : s.flush = .ok ts) :
    InOrder s.start s.position ts := by
  obtain ⟨start, position, r⟩ := s
  rcases hs with ⟨rfl, heq⟩ | ⟨hne, hlt⟩
  · cases h
    exact Nat.le_of_eq heq
  · cases r with
    | quoted q content escaped => cases escaped <;> cases h
    | blank => exact absurd rfl hne
    | point read =>
      cases h
      simp only [Reading.slack] at hlt
      exact ⟨Nat.le_refl _, by simp only; omega, Nat.le_refl _, by simp only; omega, Nat.le_refl _⟩
    | _ => cases h <;> exact ⟨Nat.le_refl _, hlt, Nat.le_refl _⟩

theorem begin_inOrder {position : Nat} (h : begin position c = .ok (ts, s)) :
    InOrder position s.start ts ∧ s.Sound ∧ s.position = position + c.utf8Size := by
  have hsize := c.utf8Size_pos
  rcases begin_cases h with ⟨rfl, rfl⟩ | ⟨t, rfl, rfl⟩ | ⟨r, hr, rfl, rfl⟩
  · exact ⟨Nat.le_add_right _ _, sound_between _, rfl⟩
  · exact ⟨⟨Nat.le_refl _, by simp only; omega, Nat.le_refl _⟩, sound_between _, rfl⟩
  · obtain ⟨hne, hslack⟩ := beginning_first hr
    exact ⟨Nat.le_refl _, .inr ⟨hne, by simp only [hslack]; omega⟩, rfl⟩

theorem Scanner.step_inOrder (hs : s.Sound) (h : s.step c = .ok (ts, s')) :
    InOrder s.start s'.start ts ∧ s'.Sound ∧ s'.position = s.position + c.utf8Size := by
  have hsize := c.utf8Size_pos
  rcases step_cases h with ⟨r, hr, rfl, rfl⟩ | ⟨t, ht, rfl, rfl⟩ | ⟨-, ended, begun, hf, hb, rfl⟩
  · obtain ⟨hne, hne', hslack⟩ := Reading.next?_more hr
    obtain ⟨hblank, -⟩ | ⟨-, hlt⟩ := hs
    · exact absurd hblank hne
    · exact ⟨Nat.le_refl _, .inr ⟨hne', by simp only; omega⟩, rfl⟩
  · have hlt : s.start < s.position + c.utf8Size := by
      rcases hs with ⟨-, heq⟩ | ⟨-, hlt⟩ <;> omega
    exact ⟨⟨Nat.le_refl _, hlt, Nat.le_refl _⟩, sound_between _, rfl⟩
  · obtain ⟨hbegun, hsound, hposition⟩ := begin_inOrder hb
    exact ⟨(flush_inOrder hs hf).append hbegun, hsound, hposition⟩

theorem Scanner.feed_cons_eq_ok :
    s.feed (c :: cs) = .ok (ts, s') ↔ ∃ us s₁ vs, s.step c = .ok (us, s₁) ∧
      s₁.feed cs = .ok (vs, s') ∧ ts = us ++ vs := by
  rw [feed]
  cases s.step c with
  | error e => simp
  | ok p =>
    obtain ⟨us, s₁⟩ := p
    cases hf : s₁.feed cs with
    | error e => simp [hf]
    | ok q =>
      constructor
      · intro h
        simp only [hf] at h
        cases h
        exact ⟨us, s₁, q.1, rfl, hf, rfl⟩
      · rintro ⟨us', s₁', vs, heq, hvs, rfl⟩
        cases heq
        rw [hf] at hvs
        cases hvs
        simp only [hf]

theorem Scanner.feed_inOrder (hs : s.Sound) (h : s.feed cs = .ok (ts, s')) :
    InOrder s.start s'.start ts ∧ s'.Sound ∧ s'.position = s.position + byteLength cs := by
  induction cs generalizing s ts with
  | nil => cases h; exact ⟨Nat.le_refl _, hs, rfl⟩
  | cons c cs ih =>
    obtain ⟨us, s₁, vs, hstep, hfeed, rfl⟩ := feed_cons_eq_ok.mp h
    obtain ⟨hus, hs₁, hposition₁⟩ := step_inOrder hs hstep
    obtain ⟨hvs, hs', hposition⟩ := ih hs₁ hfeed
    refine ⟨hus.append hvs, hs', ?_⟩
    rw [hposition, hposition₁, byteLength_cons, Nat.add_assoc]

theorem Scanner.run_eq_ok : s.run cs = .ok ts ↔ ∃ us s' vs, s.feed cs = .ok (us, s') ∧
    s'.flush = .ok vs ∧ ts = us ++ vs := by
  rw [run]
  cases s.feed cs with
  | error e => simp
  | ok p =>
    obtain ⟨us, s'⟩ := p
    cases hf : s'.flush with
    | error e => simp [hf]
    | ok vs =>
      constructor
      · intro h
        simp only [hf] at h
        cases h
        exact ⟨us, s', vs, rfl, hf, rfl⟩
      · rintro ⟨us', s₁, vs', heq, hvs, rfl⟩
        cases heq
        rw [hf] at hvs
        cases hvs
        simp only [hf]

theorem Scanner.run_cons_eq_ok : s.run (c :: cs) = .ok ts ↔ ∃ us s' vs,
    s.step c = .ok (us, s') ∧ s'.run cs = .ok vs ∧ ts = us ++ vs := by
  constructor
  · intro h
    obtain ⟨us, s', vs, hfeed, hflush, rfl⟩ := run_eq_ok.mp h
    obtain ⟨us₁, s₁, us₂, hstep, hrest, rfl⟩ := feed_cons_eq_ok.mp hfeed
    exact ⟨us₁, s₁, us₂ ++ vs, hstep, run_eq_ok.mpr ⟨us₂, s', vs, hrest, hflush, rfl⟩,
      List.append_assoc _ _ _⟩
  · rintro ⟨us, s₁, vs, hstep, hrun, rfl⟩
    obtain ⟨vs₁, s', vs₂, hrest, hflush, rfl⟩ := run_eq_ok.mp hrun
    exact run_eq_ok.mpr ⟨us ++ vs₁, s', vs₂, feed_cons_eq_ok.mpr ⟨us, s₁, vs₁, hstep, hrest, rfl⟩,
      hflush, (List.append_assoc _ _ _).symm⟩

theorem Scanner.run_append_eq_ok {a b : List Char} : s.run (a ++ b) = .ok ts ↔ ∃ us s' vs,
    s.feed a = .ok (us, s') ∧ s'.run b = .ok vs ∧ ts = us ++ vs := by
  induction a generalizing s ts with
  | nil =>
    constructor
    · exact fun h => ⟨[], s, ts, rfl, h, rfl⟩
    · rintro ⟨us, s', vs, hfeed, hrun, rfl⟩
      cases hfeed
      exact hrun
  | cons c a ih =>
    rw [List.cons_append, run_cons_eq_ok]
    constructor
    · rintro ⟨us, s₁, vs, hstep, hrun, rfl⟩
      obtain ⟨us', s', vs', hfeed, hrest, rfl⟩ := ih.mp hrun
      exact ⟨us ++ us', s', vs', feed_cons_eq_ok.mpr ⟨us, s₁, us', hstep, hfeed, rfl⟩, hrest,
        (List.append_assoc _ _ _).symm⟩
    · rintro ⟨us, s', vs, hfeed, hrun, rfl⟩
      obtain ⟨us₁, s₁, us₂, hstep, hrest, rfl⟩ := feed_cons_eq_ok.mp hfeed
      exact ⟨us₁, s₁, us₂ ++ vs, hstep, ih.mpr ⟨us₂, s', vs, hrest, hrun, rfl⟩,
        List.append_assoc _ _ _⟩

/-- The tokens of a text are in order. -/
theorem Scanner.run_inOrder (hs : s.Sound) (h : s.run cs = .ok ts) :
    InOrder s.start (s.position + byteLength cs) ts := by
  obtain ⟨us, s', vs, hfeed, hflush, rfl⟩ := run_eq_ok.mp h
  obtain ⟨hus, hs', hposition⟩ := feed_inOrder hs hfeed
  exact hus.append (hposition ▸ flush_inOrder hs' hflush)

/-! ### Lexemes across a cut -/

/-- The lexeme at hand is where the next token begins, and as long at least. -/
theorem Scanner.run_first (hne : s.reading ≠ .blank) (h : s.run cs = .ok ts) :
    ∃ t us, ts = t :: us ∧ t.start = s.start ∧ s.position ≤ t.stop + s.reading.slack := by
  -- the first token of a lexeme that ends here
  have hends : ∀ {s : Scanner} {us}, s.reading ≠ .blank → s.flush = .ok us →
      ∃ t vs, us = t :: vs ∧ t.start = s.start ∧ s.position ≤ t.stop + s.reading.slack := by
    intro s us hne h
    obtain ⟨start, position, r⟩ := s
    cases r with
    | quoted q content escaped => cases escaped <;> cases h
    | blank => exact absurd rfl hne
    | point read =>
      cases h
      exact ⟨_, _, rfl, rfl, by simp only [Reading.slack]; omega⟩
    | _ => cases h <;> exact ⟨_, _, rfl, rfl, Nat.le_refl _⟩
  induction cs generalizing s ts with
  | nil =>
    obtain ⟨us, s', vs, hfeed, hflush, rfl⟩ := run_eq_ok.mp h
    cases hfeed
    exact hends hne hflush
  | cons c cs ih =>
    have hsize := c.utf8Size_pos
    obtain ⟨us, s', vs, hstep, hrun, rfl⟩ := run_cons_eq_ok.mp h
    rcases step_cases hstep with ⟨r, hr, rfl, rfl⟩ | ⟨t, ht, rfl, rfl⟩ |
      ⟨-, ended, begun, hf, hb, rfl⟩
    · obtain ⟨-, hne', hslack⟩ := Reading.next?_more hr
      obtain ⟨t, us, rfl, hstart, hstop⟩ := ih hne' hrun
      exact ⟨t, us, rfl, hstart, by simp only at hstop; omega⟩
    · exact ⟨_, _, rfl, rfl, by simp only; omega⟩
    · obtain ⟨t, us, rfl, hstart, hstop⟩ := hends hne hf
      exact ⟨t, _, rfl, hstart, hstop⟩

/-- Whether a lexeme goes on with a text: a point after digits only does if a digit follows. -/
def Reading.goesOn (r : Reading) : List Char → Bool
  | [] => false
  | c :: cs =>
    match r.next? c with
    | some (.more (.point _)) => cs.head?.any Char.isDigit
    | some _ => true
    | none => false

theorem Reading.goesOn_blank (cs : List Char) : Reading.blank.goesOn cs = false := by
  cases cs <;> rfl

/-- Whether two parts of a text are joined: the lexeme that the first one ends in goes on with the
second. -/
def JoinedAt (before after : List Char) : Prop :=
  ∃ ts s, (Scanner.between 0).feed before = .ok (ts, s) ∧ s.reading.goesOn after = true

theorem joinedAt_iff {before after : List Char}
    (h : (Scanner.between 0).feed before = .ok (ts, s)) :
    JoinedAt before after ↔ s.reading.goesOn after = true := by
  constructor
  · rintro ⟨ts', s', h', hgoes⟩
    rw [h] at h'
    cases h'
    exact hgoes
  · exact fun hgoes => ⟨ts, s, h, hgoes⟩

theorem Reading.next?_point {r : Reading} {read : List Char}
    (h : r.next? c = some (.more (.point read))) : r = .whole read ∧ c = '.' := by
  cases r with
  | quoted q content escaped => cases escaped <;> grind [next?]
  | _ => grind [next?]

/-- If the lexeme at hand goes on, the next token reaches over this place. -/
theorem Scanner.run_of_goesOn (hgoes : s.reading.goesOn cs = true) (h : s.run cs = .ok ts) :
    ∃ t ∈ ts, t.start = s.start ∧ s.position < t.stop := by
  cases cs with
  | nil => cases hgoes
  | cons c cs =>
    have hsize := c.utf8Size_pos
    obtain ⟨us, s', vs, hstep, hrun, rfl⟩ := run_cons_eq_ok.mp h
    rcases step_cases hstep with ⟨r, hr, rfl, rfl⟩ | ⟨t, ht, rfl, rfl⟩ | ⟨hnone, -⟩
    · by_cases hpoint : r.slack = 0
      · obtain ⟨-, hne, -⟩ := Reading.next?_more hr
        obtain ⟨t, us, rfl, hstart, hstop⟩ := run_first hne hrun
        exact ⟨t, List.mem_cons_self, hstart, by simp only [hpoint] at hstop; omega⟩
      · -- a point, and the digit after it shows that it belongs to the lexeme
        obtain ⟨read, rfl⟩ : ∃ read, r = .point read := by
          cases r <;> first | exact ⟨_, rfl⟩ | exact absurd rfl hpoint
        rw [Reading.goesOn, hr] at hgoes
        cases cs with
        | nil => cases hgoes
        | cons d ds =>
          have hd : d.isDigit = true := hgoes
          have hnext : (Reading.point read).next? d =
              some (.more (.fraction (d :: '.' :: read))) := by
            rw [Reading.next?, if_pos hd]
          obtain ⟨us, s', vs, hstep, hrun, rfl⟩ := run_cons_eq_ok.mp hrun
          rw [step_of_more hnext] at hstep
          cases hstep
          obtain ⟨t, us, rfl, hstart, hstop⟩ := run_first (by simp) hrun
          refine ⟨t, List.mem_cons_self, hstart, ?_⟩
          simp only [Reading.slack] at hstop
          omega
    · exact ⟨_, List.mem_cons_self, rfl, by simp only; omega⟩
    · rw [Reading.goesOn, hnone] at hgoes
      cases hgoes

/-! ### Texts cut between lexemes -/

/-- A character that does not belong to the lexeme at hand is read as between lexemes. -/
theorem Scanner.step_of_ended (hnone : s.reading.next? c = none) (h : s.step c = .ok (ts, s')) :
    ∃ us vs, s.flush = .ok us ∧ (between s.position).step c = .ok (vs, s') ∧ ts = us ++ vs := by
  rcases step_cases h with ⟨r, hr, -⟩ | ⟨t, ht, -⟩ | ⟨-, us, vs, hf, hb, rfl⟩
  · rw [hnone] at hr
    cases hr
  · rw [hnone] at ht
    cases ht
  · exact ⟨us, vs, hf, (step_between s.position c).trans hb, rfl⟩

theorem Scanner.run_of_ended (hnone : ∀ c ∈ cs.head?, s.reading.next? c = none)
    (h : s.run cs = .ok ts) :
    ∃ us vs, s.flush = .ok us ∧ (between s.position).run cs = .ok vs ∧ ts = us ++ vs := by
  cases cs with
  | nil =>
    obtain ⟨us, s', vs, hfeed, hflush, rfl⟩ := run_eq_ok.mp h
    cases hfeed
    exact ⟨vs, [], hflush, rfl, by simp⟩
  | cons c cs =>
    obtain ⟨ts₁, s₁, ts₂, hstep, hrun, rfl⟩ := run_cons_eq_ok.mp h
    obtain ⟨us, vs, hflush, hbetween, rfl⟩ := step_of_ended (hnone c rfl) hstep
    exact ⟨us, vs ++ ts₂, hflush, run_cons_eq_ok.mpr ⟨vs, s₁, ts₂, hbetween, hrun, rfl⟩,
      List.append_assoc _ _ _⟩

/-- If the lexeme at hand does not go on, the rest of the text is read on its own. -/
theorem Scanner.run_cut (hgoes : s.reading.goesOn cs = false) (h : s.run cs = .ok ts) :
    ∃ us vs, s.flush = .ok us ∧ (between s.position).run cs = .ok vs ∧ ts = us ++ vs := by
  cases cs with
  | nil => exact run_of_ended (by simp) h
  | cons c cs =>
    cases hnext : s.reading.next? c with
    | none => exact run_of_ended (by simpa using hnext) h
    | some m =>
      -- a point that no digit follows: it is read with the digits, but is a token of its own
      obtain ⟨read, rfl⟩ : ∃ read, m = .more (.point read) := by
        simp only [Reading.goesOn, hnext] at hgoes
        split at hgoes <;> simp_all
      obtain ⟨hwhole, rfl⟩ := Reading.next?_point hnext
      obtain ⟨ts₁, s₁, ts₂, hstep, hrun, rfl⟩ := run_cons_eq_ok.mp h
      rw [step_of_more hnext] at hstep
      cases hstep
      have hdigit : ∀ d ∈ cs.head?, (Reading.point read).next? d = none := by
        rw [Reading.goesOn, hnext] at hgoes
        intro d hd
        rw [Option.mem_def] at hd
        rw [Reading.next?, if_neg (by simpa [hd] using hgoes)]
      obtain ⟨us, vs, hflush, hrest, rfl⟩ := run_of_ended hdigit hrun
      cases hflush
      refine ⟨_, ⟨.dot, s.position, s.position + 1⟩ :: vs, by rw [flush, hwhole], ?_, rfl⟩
      exact run_cons_eq_ok.mpr ⟨[⟨.dot, s.position, s.position + 1⟩], _, vs, rfl, hrest, rfl⟩

end Transclude.Condition
