/-
The reader of tests accepts exactly the grammar.

* `read?_of_derives` — the tokens of a derivation are read from the place of an operand to its end;
* `Parser.read_step?` — one token keeps account of all tokens that the levels have read;
* `ofTokens_iff_derives` — a list of tokens makes the tree that it derives, or it derives none and
  is a syntax error.

Design notes: what a state has read is a concatenation, one part for each level and one for the
operand at hand (`Parser.Read`).  A level that takes an operand turns its part and the operand into
a derivation, which is all that the connectives and the closing parenthesis need.
-/
import Transclude.Condition.Evaluate
import Transclude.Proofs.Grammar

namespace Transclude.Condition

/-- The operand that is complete, if one is. -/
def Waiting.operand? : Waiting → Option Condition
  | operand => none
  | segment _ => none
  | path segments => some (.path segments)
  | complete a => some a

theorem negate_not (n : Nat) (c : Condition) : negate n (.not c) = negate (n + 1) c := by
  induction n with
  | zero => rfl
  | succ n ih => rw [negate, ih]; rfl

namespace Parser

/-- The state after some tokens, if they can all stand where they do. -/
def read? (p : Parser) : List Token → Option Parser
  | [] => some p
  | t :: ts => (p.step? t).bind fun q => q.read? ts

theorem read?_append (p : Parser) (ts us : List Token) :
    p.read? (ts ++ us) = (p.read? ts).bind fun q => q.read? us := by
  induction ts generalizing p with
  | nil => rfl
  | cons t ts ih =>
    rw [List.cons_append, read?, read?, Option.bind_assoc]
    exact congrArg _ (funext fun q => ih q)

theorem run_eq_ok {p : Parser} {ts : List Token} {c : Condition} :
    p.run ts = .ok c ↔ ∃ q, p.read? ts = some q ∧ q.finish? = some c := by
  induction ts generalizing p with
  | nil =>
    rw [run, read?]
    cases h : p.finish? with
    | none => simp [h]
    | some c' => simp [h]
  | cons t ts ih =>
    rw [run, read?]
    cases p.step? t with
    | none => simp
    | some q => exact ih

theorem step?_of_operand? {level : Level} {outer : List Level} {w : Waiting} {a : Condition}
    {t : Token} (h : w.operand? = some a) (ht : t ≠ .dot) :
    (⟨level, outer, w⟩ : Parser).step? t = (⟨level, outer, .operand⟩ : Parser).continue? a t := by
  cases w with
  | operand => cases h
  | segment segments => cases h
  | path segments =>
    obtain rfl := Option.some.inj h
    cases t with
    | dot => exact absurd rfl ht
    | compare op => cases hl : level.left <;> simp [step?, continue?, hl]
    | _ => rfl
  | complete operand =>
    obtain rfl := Option.some.inj h
    cases t with
    | compare op => cases hl : level.left <;> simp [step?, continue?, hl]
    | _ => rfl

/-- A token after a complete operand goes on with it. -/
theorem read?_operator {p q : Parser} {level : Level} {outer : List Level} {w : Waiting}
    {a : Condition} {ts us : List Token} {t : Token} (hr : p.read? ts = some ⟨level, outer, w⟩)
    (ha : w.operand? = some a) (ht : t ≠ .dot)
    (hq : (⟨level, outer, .operand⟩ : Parser).continue? a t = some q) :
    p.read? (ts ++ t :: us) = q.read? us := by
  rw [read?_append, hr, Option.bind_some, read?, step?_of_operand? ha ht, hq]
  rfl

theorem finish?_eq_some {level : Level} {outer : List Level} {w : Waiting} {c : Condition} :
    (⟨level, outer, w⟩ : Parser).finish? = some c ↔
      outer = [] ∧ ∃ a, w.operand? = some a ∧ level.disjunction a = c := by
  cases outer <;> cases w <;> simp [finish?, Waiting.operand?]

end Parser

/-! ### Completeness -/

/-- Where in a level a part of a test can begin. -/
def Nonterminal.Begins : Nonterminal → Level → Prop
  | disjunction, level => level = {}
  | conjunction, level => level.conjuncts = none ∧ level.negations = 0 ∧ level.left = none
  | negation, level => level.left = none
  | comparison, level => level.left = none
  | atom, _ => True

/-- What the part `c` of a test leaves behind of the level it began in, before its last operand. -/
def Nonterminal.Ends : Nonterminal → Level → Level → Condition → Condition → Prop
  | disjunction, _, level', a, c => level'.disjunction a = c
  | conjunction, level, level', a, c =>
    level'.disjuncts = level.disjuncts ∧ level'.conjunction a = c
  | negation, level, level', a, c =>
    level'.disjuncts = level.disjuncts ∧ level'.conjuncts = level.conjuncts ∧
      level'.comparison a = negate level.negations c
  | comparison, level, level', a, c =>
    level'.disjuncts = level.disjuncts ∧ level'.conjuncts = level.conjuncts ∧
      level'.comparison a = negate level.negations c
  | atom, level, level', a, c => level' = level ∧ a = c

theorem read?_of_derivesPath {ts : List Token} {segments : List String}
    (h : DerivesPath ts segments) (level : Level) (outer : List Level) :
    (⟨level, outer, .operand⟩ : Parser).read? ts = some ⟨level, outer, .path segments⟩ := by
  induction h with
  | segment name => rfl
  | dotted h name ih => rw [Parser.read?_append, ih]; rfl

/-- **The tokens of a derivation can be read wherever an operand is missing**, and leave a complete
operand that closes the derived tree. -/
theorem read?_of_derives {n : Nonterminal} {ts : List Token} {c : Condition} (h : Derives n ts c) :
    ∀ (level : Level) (outer : List Level), n.Begins level → ∃ level' w a,
      (⟨level, outer, .operand⟩ : Parser).read? ts = some ⟨level', outer, w⟩ ∧
        w.operand? = some a ∧ n.Ends level level' a c := by
  induction h with
  | conjunction h ih =>
    -- nothing is in front, so the level closes to the conjunction itself
    rintro level outer rfl
    obtain ⟨level', w, a, hr, ha, hd, hc⟩ := ih {} outer ⟨rfl, rfl, rfl⟩
    refine ⟨level', w, a, hr, ha, ?_⟩
    rw [Nonterminal.Ends, Level.disjunction, hd, hc]
  | @or ts us l r hl hr ihl ihr =>
    -- the operator takes what the left operand leaves, and begins a level with it as its disjuncts
    rintro level outer rfl
    obtain ⟨level₁, w₁, a₁, hr₁, ha₁, he₁⟩ := ihl {} outer rfl
    obtain ⟨level₂, w₂, a₂, hr₂, ha₂, hd₂, he₂⟩ :=
      ihr { disjuncts := some l } outer ⟨rfl, rfl, rfl⟩
    refine ⟨level₂, w₂, a₂, ?_, ha₂, ?_⟩
    · refine (Parser.read?_operator hr₁ ha₁ (by simp) ?_).trans hr₂
      rw [Parser.continue?, he₁]
    · rw [Nonterminal.Ends, Level.disjunction, hd₂, he₂]
  | negation h ih =>
    rintro level outer ⟨hconj, hneg, hleft⟩
    obtain ⟨level', w, a, hr, ha, hd, hc, he⟩ := ih level outer hleft
    refine ⟨level', w, a, hr, ha, hd, ?_⟩
    rw [Level.conjunction, hc, hconj, he, hneg, negate]
  | @and ts us l r hl hr ihl ihr =>
    intro level outer hb
    obtain ⟨level₁, w₁, a₁, hr₁, ha₁, hd₁, he₁⟩ := ihl level outer hb
    obtain ⟨level₂, w₂, a₂, hr₂, ha₂, hd₂, hc₂, he₂⟩ :=
      ihr { disjuncts := level.disjuncts, conjuncts := some l } outer rfl
    refine ⟨level₂, w₂, a₂, ?_, ha₂, hd₂, ?_⟩
    · refine (Parser.read?_operator hr₁ ha₁ (by simp) ?_).trans hr₂
      rw [Parser.continue?, he₁, hd₁]
    · rw [Level.conjunction, hc₂, he₂, negate]
  | comparison h ih => exact ih
  | not h ih =>
    intro level outer hb
    obtain ⟨level', w, a, hr, ha, hd, hc, he⟩ :=
      ih { level with negations := level.negations + 1 } outer hb
    refine ⟨level', w, a, ?_, ha, hd, hc, ?_⟩
    · have hleft : level.left = none := hb
      rw [Parser.read?, Parser.step?, hleft]
      exact hr
    · rw [negate_not, he]
  | atom h ih =>
    intro level outer hb
    obtain ⟨level', w, a, hr, ha, rfl, rfl⟩ := ih level outer trivial
    refine ⟨level', w, a, hr, ha, rfl, rfl, ?_⟩
    have hleft : level'.left = none := hb
    rw [Level.comparison, hleft]
  | @compare ts us l r op hl hr ihl ihr =>
    intro level outer hb
    obtain ⟨level₁, w₁, a₁, hr₁, ha₁, rfl, rfl⟩ := ihl level outer trivial
    obtain ⟨level₂, w₂, a₂, hr₂, ha₂, rfl, rfl⟩ :=
      ihr { level₁ with left := some (a₁, op) } outer trivial
    have hleft : level₁.left = none := hb
    refine ⟨{ level₁ with left := some (a₁, op) }, w₂, a₂, ?_, ha₂, rfl, rfl, rfl⟩
    refine (Parser.read?_operator hr₁ ha₁ (by simp) ?_).trans hr₂
    rw [Parser.continue?, hleft]
  | literal l =>
    intro level outer _
    exact ⟨level, .complete (.literal l), .literal l, rfl, rfl, rfl, rfl⟩
  | @path ts segments h =>
    intro level outer _
    exact ⟨level, .path segments, .path segments, read?_of_derivesPath h level outer, rfl, rfl, rfl⟩
  | @parentheses ts c h ih =>
    -- inside the parentheses a fresh level is read, and this one waits among the outer ones
    intro level outer _
    obtain ⟨level', w, a, hr, ha, he⟩ := ih {} (level :: outer) rfl
    refine ⟨level, .complete c, c, ?_, rfl, rfl, rfl⟩
    rw [Parser.read?, Parser.step?, Option.bind_some]
    refine Parser.read?_operator hr ha (by simp) ?_
    rw [Parser.continue?, he]

/-! ### Soundness -/

/-- The tokens of the operands so far, with the connective after them. -/
inductive Before (n : Nonterminal) (t : Token) : Option Condition → List Token → Prop
  | absent : Before n t none []
  | written {ts : List Token} {c : Condition} (h : Derives n ts c) : Before n t (some c) (ts ++ [t])

/-- The tokens of the left side of a comparison, with the operator after it. -/
inductive BeforeRight : Option (Condition × Comparison) → List Token → Prop
  | absent : BeforeRight none []
  | written {ts : List Token} {c : Condition} (op : Comparison) (h : Derives .atom ts c) :
    BeforeRight (some (c, op)) (ts ++ [.compare op])

/-- The tokens that a level has read. -/
inductive Level.Read (level : Level) : List Token → Prop
  | parts {ds cs ls : List Token} (hd : Before .disjunction .or level.disjuncts ds)
    (hc : Before .conjunction .and level.conjuncts cs) (hl : BeforeRight level.left ls) :
    Level.Read level (ds ++ (cs ++ (List.replicate level.negations .not ++ ls)))

/-- The tokens that the levels around an operand have read, with their opening parentheses. -/
inductive OuterRead : List Level → List Token → Prop
  | nil : OuterRead [] []
  | cons {level : Level} {outer : List Level} {ts us : List Token} (h : level.Read ts)
    (ho : OuterRead outer us) : OuterRead (level :: outer) (us ++ ts ++ [.opening])

/-- The tokens of the operand at hand. -/
inductive Waiting.Read : Waiting → List Token → Prop
  | operand : Read .operand []
  | segment {ts : List Token} {segments : List String} (h : DerivesPath ts segments) :
    Read (.segment segments) (ts ++ [.dot])
  | path {ts : List Token} {segments : List String} (h : DerivesPath ts segments) :
    Read (.path segments) ts
  | complete {ts : List Token} {a : Condition} (h : Derives .atom ts a) : Read (.complete a) ts

/-- The tokens that a state has read. -/
inductive Parser.Read (p : Parser) : List Token → Prop
  | parts {us vs ws : List Token} (ho : OuterRead p.outer us) (hl : p.level.Read vs)
    (hw : p.waiting.Read ws) : Parser.Read p (us ++ vs ++ ws)

theorem Level.read_start : Level.Read {} [] := @Level.Read.parts {} [] [] [] .absent .absent .absent

theorem derives_negate {ts : List Token} {c : Condition} (h : Derives .negation ts c) (n : Nat) :
    Derives .negation (List.replicate n .not ++ ts) (negate n c) := by
  induction n with
  | zero => exact h
  | succ n ih => exact .not ih

theorem BeforeRight.eq_nil {ls : List Token} (h : BeforeRight none ls) : ls = [] := by
  cases h
  rfl

theorem BeforeRight.comparison {level : Level} {ls ws : List Token} {a : Condition}
    (hl : BeforeRight level.left ls) (ha : Derives .atom ws a) :
    Derives .negation (List.replicate level.negations .not ++ ls ++ ws) (level.comparison a) := by
  rw [List.append_assoc, Level.comparison]
  refine derives_negate (.comparison ?_) level.negations
  cases hleft : level.left with
  | none =>
    obtain rfl := BeforeRight.eq_nil (hleft ▸ hl)
    exact .atom ha
  | some left =>
    rw [hleft] at hl
    cases hl with
    | written op h =>
      rw [List.append_assoc]
      exact .compare op h ha

/-- Operands so far, if there are any, and one more. -/
theorem Before.derives {n m : Nonterminal} {t : Token} {f : Condition → Condition → Condition}
    (hlone : ∀ {ts : List Token} {c : Condition}, Derives m ts c → Derives n ts c)
    (hjoin : ∀ {ts us : List Token} {l r : Condition}, Derives n ts l → Derives m us r →
      Derives n (ts ++ t :: us) (f l r))
    {o : Option Condition} {ts us : List Token} {c : Condition} (ho : Before n t o ts)
    (hc : Derives m us c) :
    Derives n (ts ++ us) (o.elim c fun l => f l c) := by
  cases ho with
  | absent => exact hlone hc
  | written h =>
    rw [List.append_assoc]
    exact hjoin h hc

theorem Before.conjunction {level : Level} {cs ts : List Token} {a : Condition}
    (hc : Before .conjunction .and level.conjuncts cs)
    (ha : Derives .negation ts (level.comparison a)) :
    Derives .conjunction (cs ++ ts) (level.conjunction a) := by
  have h := hc.derives .negation .and ha
  rw [Level.conjunction]
  cases hconj : level.conjuncts with
  | none => rwa [hconj] at h
  | some l => rwa [hconj] at h

theorem Before.disjunction {level : Level} {ds ts : List Token} {a : Condition}
    (hd : Before .disjunction .or level.disjuncts ds)
    (ha : Derives .conjunction ts (level.conjunction a)) :
    Derives .disjunction (ds ++ ts) (level.disjunction a) := by
  have h := hd.derives .conjunction .or ha
  rw [Level.disjunction]
  cases hdisj : level.disjuncts with
  | none => rwa [hdisj] at h
  | some l => rwa [hdisj] at h

/-- A level and a complete operand derive a test. -/
theorem Level.Read.disjunction {level : Level} {vs ws : List Token} {a : Condition}
    (hl : level.Read vs) (ha : Derives .atom ws a) :
    Derives .disjunction (vs ++ ws) (level.disjunction a) := by
  cases hl with
  | parts hd hc hl =>
    have h := hd.disjunction (hc.conjunction (hl.comparison ha))
    simpa only [List.append_assoc] using h

/-- What follows an operand keeps account of the tokens. -/
theorem Parser.read_continue? {level : Level} {outer : List Level} {us vs ws : List Token}
    {w : Waiting} {a : Condition} {t : Token} {q : Parser} (ho : OuterRead outer us)
    (hl : level.Read vs) (ha : Derives .atom ws a)
    (h : (⟨level, outer, w⟩ : Parser).continue? a t = some q) : q.Read (us ++ vs ++ ws ++ [t]) := by
  cases t with
  | compare op =>
    cases hleft : level.left with
    | some left => simp [continue?, hleft] at h
    | none =>
      obtain rfl : _ = q := by simpa [continue?, hleft] using h
      cases hl with
      | @parts ds cs ls hd hc hl =>
        obtain rfl := BeforeRight.eq_nil (hleft ▸ hl)
        have hnew : Level.Read { level with left := some (a, op) }
            (ds ++ (cs ++ (List.replicate level.negations .not ++ (ws ++ [.compare op])))) :=
          .parts hd hc (.written op ha)
        simpa using Parser.Read.parts (p := ⟨_, outer, .operand⟩) ho hnew .operand
  | and =>
    obtain rfl := Option.some.inj h
    cases hl with
    | parts hd hc hl =>
      have hconj := hc.conjunction (hl.comparison ha)
      have hnew : Level.Read
          { disjuncts := level.disjuncts, conjuncts := some (level.conjunction a) } _ :=
        .parts hd (.written hconj) .absent
      simpa using Parser.Read.parts (p := ⟨_, outer, .operand⟩) ho hnew .operand
  | or =>
    obtain rfl := Option.some.inj h
    have hnew : Level.Read { disjuncts := some (level.disjunction a) } _ :=
      .parts (.written (hl.disjunction ha)) .absent .absent
    simpa using Parser.Read.parts (p := ⟨_, outer, .operand⟩) ho hnew .operand
  | closing =>
    cases ho with
    | nil => cases h
    | cons hlevel houter =>
      obtain rfl := Option.some.inj h
      have hclosed : Derives .atom _ (level.disjunction a) := .parentheses (hl.disjunction ha)
      simpa using Parser.Read.parts (p := ⟨_, _, .complete _⟩) houter hlevel (.complete hclosed)
  | _ => cases h

/-- One more token keeps account of the tokens. -/
theorem Parser.read_step? {p q : Parser} {ts : List Token} {t : Token} (h : p.Read ts)
    (hs : p.step? t = some q) : q.Read (ts ++ [t]) := by
  obtain ⟨level, outer, waiting⟩ := p
  cases h with
  | parts ho hl hw =>
    cases hw with
    | operand =>
      cases t with
      | literal l =>
        obtain rfl := Option.some.inj hs
        simpa using Parser.Read.parts (p := ⟨_, _, .complete _⟩) ho hl (.complete (.literal l))
      | ident name =>
        obtain rfl := Option.some.inj hs
        simpa using Parser.Read.parts (p := ⟨_, _, .path _⟩) ho hl (.path (.segment name))
      | opening =>
        obtain rfl := Option.some.inj hs
        simpa using
          Parser.Read.parts (p := ⟨_, _, .operand⟩) (.cons hl ho) Level.read_start .operand
      | not =>
        cases hleft : level.left with
        | some left => simp [step?, hleft] at hs
        | none =>
          obtain rfl : _ = q := by simpa [step?, hleft] using hs
          cases hl with
          | @parts ds cs ls hd hc hl =>
            -- without a left side the negations end what the level has read
            obtain rfl := BeforeRight.eq_nil (hleft ▸ hl)
            have hnew := @Level.Read.parts { level with negations := level.negations + 1 }
              ds cs [] hd hc hl
            rw [List.replicate_succ'] at hnew
            simpa [hleft] using Parser.Read.parts
              (p := ⟨{ level with negations := level.negations + 1 }, outer, .operand⟩)
              ho hnew .operand
      | _ => cases hs
    | segment h =>
      cases t with
      | ident name =>
        obtain rfl := Option.some.inj hs
        simpa using Parser.Read.parts (p := ⟨_, _, .path _⟩) ho hl (.path (h.dotted name))
      | _ => cases hs
    | @path ws segments h =>
      cases t with
      | dot =>
        obtain rfl := Option.some.inj hs
        simpa using Parser.Read.parts (p := ⟨_, _, .segment _⟩) ho hl (.segment h)
      | _ => exact Parser.read_continue? (w := .path segments) ho hl (.path h) hs
    | complete h => exact Parser.read_continue? ho hl h hs

/-- A run keeps account of the tokens. -/
theorem Parser.read_read? {p q : Parser} {ts us : List Token} (h : p.Read ts)
    (hr : p.read? us = some q) : q.Read (ts ++ us) := by
  induction us generalizing p ts with
  | nil =>
    obtain rfl := Option.some.inj hr
    simpa using h
  | cons u us ih =>
    obtain ⟨p', hs, hr⟩ := Option.bind_eq_some_iff.mp hr
    simpa using ih (Parser.read_step? h hs) hr

theorem Waiting.Read.derives {w : Waiting} {ws : List Token} {a : Condition} (h : w.Read ws)
    (ha : w.operand? = some a) : Derives .atom ws a := by
  cases h with
  | operand => cases ha
  | segment h => cases ha
  | path h => obtain rfl := Option.some.inj ha; exact .path h
  | complete h => obtain rfl := Option.some.inj ha; exact h

/-- A state that is at the end of a test has read a derivation of it. -/
theorem Parser.Read.derives {p : Parser} {ts : List Token} {c : Condition} (h : p.Read ts)
    (hf : p.finish? = some c) : Derives .disjunction ts c := by
  obtain ⟨level, outer, waiting⟩ := p
  obtain ⟨rfl, a, ha, rfl⟩ := Parser.finish?_eq_some.mp hf
  cases h with
  | parts ho hl hw =>
    cases ho with
    | nil => exact hl.disjunction (hw.derives ha)

/-! ### The language of tests -/

theorem ofTokens_eq_ok {ts : List Token} {c : Condition} :
    ofTokens ts = .ok c ↔ Derives .disjunction ts c := by
  rw [ofTokens, Parser.run_eq_ok]
  constructor
  · rintro ⟨q, hr, hf⟩
    have hstart : Parser.start.Read [] :=
      @Parser.Read.parts .start [] [] [] .nil Level.read_start .operand
    exact (Parser.read_read? hstart hr).derives hf
  · intro h
    obtain ⟨level, w, a, hr, ha, he⟩ := read?_of_derives h {} [] rfl
    exact ⟨⟨level, [], w⟩, hr, Parser.finish?_eq_some.mpr ⟨rfl, a, ha, he⟩⟩

theorem exists_derives_iff {ts : List Token} :
    (∃ c, Derives .disjunction ts c) ↔ ¬∃ stuck, ofTokens ts = .error stuck := by
  cases h : ofTokens ts with
  | ok c => simpa using ⟨c, ofTokens_eq_ok.mp h⟩
  | error stuck =>
    constructor
    · rintro ⟨c, hc⟩
      rw [ofTokens_eq_ok.mpr hc] at h
      cases h
    · intro hn
      exact absurd ⟨stuck, rfl⟩ hn

/-- **The reader accepts exactly the grammar.**  A list of tokens makes the one tree that it
derives; if it derives none, it is an error, and a text with these tokens is a syntax error.  Trees
that can be written at all are read back from their tokens. -/
theorem ofTokens_iff_derives :
    (∀ ts c, ofTokens ts = .ok c ↔ Derives .disjunction ts c) ∧
      (∀ ts c c', Derives .disjunction ts c → Derives .disjunction ts c' → c = c') ∧
      (∀ ts, (∃ stuck, ofTokens ts = .error stuck) ↔ ¬∃ c, Derives .disjunction ts c) ∧
      (∀ text placed context, scan text = .ok placed →
        (¬∃ c, Derives .disjunction (placed.map Placed.token) c) →
          ∃ e, evaluateText text context = .error (.malformed e)) ∧
      (∀ c : Condition, ofTokens c.tokens = .ok c ↔ c.named = true) := by
  refine ⟨fun ts c => ofTokens_eq_ok, ?_, ?_, ?_, ?_⟩
  · -- two trees of one list are both what the reader makes of it
    intro ts c c' h h'
    have heq : Except.ok c = Except.ok c' :=
      (ofTokens_eq_ok.mpr h).symm.trans (ofTokens_eq_ok.mpr h')
    exact Except.ok.inj heq
  · intro ts
    rw [exists_derives_iff, Classical.not_not]
  · intro text placed context hscan hn
    rw [exists_derives_iff, Classical.not_not] at hn
    obtain ⟨stuck, hstuck⟩ := hn
    refine ⟨stuckError (Text.byteLength text) placed stuck, ?_⟩
    rw [evaluateText, parse, hscan]
    simp only [hstuck]
  · intro c
    constructor
    · intro h
      exact (ofTokens_eq_ok.mp h).named
    · intro h
      exact ofTokens_eq_ok.mpr (derives_tokens h)

/-- `a || b && !c = 'd'` has one tree, and `a = b = c` has none. -/
theorem derives_or_and_not :
    Derives .disjunction
      [.ident "a", .or, .ident "b", .and, .not, .ident "c", .compare .equal, .literal (.string "d")]
      (.or (.path ["a"]) (.and (.path ["b"])
        (.not (.compare .equal (.path ["c"]) (.literal (.string "d")))))) ∧
    ¬∃ c, Derives .disjunction
      [.ident "a", .compare .equal, .ident "b", .compare .equal, .ident "c"] c := by
  refine ⟨(ofTokens_iff_derives.1 _ _).mp rfl, ?_⟩
  exact (ofTokens_iff_derives.2.2.1 _).mp ⟨_, rfl⟩

end Transclude.Condition
