import TokiPona.Proofs.Dialects
import TokiPona.Proofs.Guards
import TokiPona.Proofs.Layout

namespace TokiPona

namespace Reading

def ArePair (P : Particle → Particle → Prop) (s t : Token) : Prop := ∃ p q, s.is p = true ∧ t.is q = true ∧ P p q

def HasPair (P : Particle → Particle → Prop) (tokens : List Token) : Prop :=
  ∃ before s t after, tokens = before ++ s :: t :: after ∧ ArePair P s t

/-- The leftmost two particles of the given kind that stand side by side. -/
def IsFirstPair (P : Particle → Particle → Prop) (tokens : List Token) (p q : Particle) : Prop :=
  ∃ before s t after, tokens = before ++ s :: t :: after ∧ s.is p = true ∧ t.is q = true ∧ P p q ∧
    ¬ HasPair P (before ++ [s])

def IsDouble (p q : Particle) : Prop := p.isStructural = true ∧ q = p

def IsAfterO (p q : Particle) : Prop := p = .o ∧ q.isStructural = true

/-- Two structural particles, other than a `li pi` that the dialect allows. -/
def IsClash (dialect : Dialect) (p q : Particle) : Prop :=
  p.isStructural = true ∧ q.isStructural = true ∧ ¬ (p = .li ∧ q = .pi ∧ dialect.liPi = true)

section

variable {P : Particle → Particle → Prop} {rest : List Token} {s t : Token} {p q : Particle}

theorem not_hasPair_singleton (P : Particle → Particle → Prop) (s : Token) : ¬ HasPair P [s] := by
  rintro ⟨before, s', t', after, htokens, -⟩
  have hlength := congrArg List.length htokens
  simp only [List.length_append, List.length_cons, List.length_nil] at hlength
  omega

theorem hasPair_cons_cons : HasPair P (s :: t :: rest) ↔ ArePair P s t ∨ HasPair P (t :: rest) := by
  constructor
  · rintro ⟨before, s', t', after, htokens, hpair⟩
    cases before with
    | nil =>
      obtain ⟨rfl, rfl, rfl⟩ : s = s' ∧ t = t' ∧ rest = after := by simpa using htokens
      exact .inl hpair
    | cons u before => exact .inr ⟨before, s', t', after, (List.cons.inj htokens).2, hpair⟩
  · rintro (hpair | ⟨before, s', t', after, htokens, hpair⟩)
    · exact ⟨[], s, t, rest, rfl, hpair⟩
    · exact ⟨s :: before, s', t', after, congrArg (s :: ·) htokens, hpair⟩

theorem isFirstPair_cons_cons : IsFirstPair P (s :: t :: rest) p q ↔
    (s.is p = true ∧ t.is q = true ∧ P p q) ∨ (¬ ArePair P s t ∧ IsFirstPair P (t :: rest) p q) := by
  -- the tokens up to a later pair open with the pair in front
  have hfront {before : List Token} {s' t' : Token} {after : List Token} (h : t :: rest = before ++ s' :: t' :: after) :
      ∃ others, before ++ [s'] = t :: others := by
    cases before with
    | nil => exact ⟨[], by simp [(List.cons.inj h).1]⟩
    | cons u before => exact ⟨before ++ [s'], by simp [(List.cons.inj h).1]⟩
  constructor
  · rintro ⟨before, s', t', after, htokens, hs, ht, hpq, hfirst⟩
    cases before with
    | nil =>
      obtain ⟨rfl, rfl, rfl⟩ : s = s' ∧ t = t' ∧ rest = after := by simpa using htokens
      exact .inl ⟨hs, ht, hpq⟩
    | cons u before =>
      obtain ⟨rfl, hrest⟩ := List.cons.inj htokens
      obtain ⟨others, hothers⟩ := hfront hrest
      rw [List.cons_append, hothers, hasPair_cons_cons, not_or, ← hothers] at hfirst
      exact .inr ⟨hfirst.1, before, s', t', after, hrest, hs, ht, hpq, hfirst.2⟩
  · rintro (⟨hs, ht, hpq⟩ | ⟨hpair, before, s', t', after, htokens, hs, ht, hpq, hfirst⟩)
    · exact ⟨[], s, t, rest, rfl, hs, ht, hpq, not_hasPair_singleton P s⟩
    · refine ⟨s :: before, s', t', after, congrArg (s :: ·) htokens, hs, ht, hpq, ?_⟩
      obtain ⟨others, hothers⟩ := hfront htokens
      rw [List.cons_append, hothers, hasPair_cons_cons, not_or, ← hothers]
      exact ⟨hpair, hfirst⟩

theorem IsFirstPair.holds {tokens : List Token} (h : IsFirstPair P tokens p q) : P p q := by
  obtain ⟨-, -, -, -, -, -, -, hpq, -⟩ := h
  exact hpq

theorem findSome?_neighbours {α : Type} {f : Token × Token → Option α} (P : Particle → Particle → Prop)
    (name : Particle → Particle → α)
    (hf : ∀ s t a, f (s, t) = some a ↔ ∃ p q, s.is p = true ∧ t.is q = true ∧ P p q ∧ a = name p q)
    {tokens : List Token} {a : α} :
    (neighbours tokens).findSome? f = some a ↔ ∃ p q, IsFirstPair P tokens p q ∧ a = name p q := by
  have hshort {tokens : List Token} (hlength : tokens.length < 2) (p q : Particle) : ¬ IsFirstPair P tokens p q := by
    rintro ⟨before, s, t, after, rfl, -⟩
    simp only [List.length_append, List.length_cons] at hlength
    omega
  induction tokens with
  | nil => simp [neighbours, hshort]
  | cons s tokens ih =>
    cases tokens with
    | nil => simp [neighbours, hshort]
    | cons t rest =>
      have hcons : neighbours (s :: t :: rest) = (s, t) :: neighbours (t :: rest) := rfl
      simp only [hcons, List.findSome?_cons, isFirstPair_cons_cons]
      by_cases hpair : ArePair P s t
      · obtain ⟨p, q, hs, ht, hpq⟩ := hpair
        have hfound : f (s, t) = some (name p q) := (hf s t _).2 ⟨p, q, hs, ht, hpq, rfl⟩
        have hpair : ArePair P s t := ⟨p, q, hs, ht, hpq⟩
        simp only [hpair, not_true_eq_false, false_and, or_false, and_assoc, ← hf, hfound]
      · have hnone : f (s, t) = none := by
          rw [Option.eq_none_iff_forall_ne_some]
          intro b hb
          obtain ⟨p, q, hs, ht, hpq, -⟩ := (hf s t b).1 hb
          exact hpair ⟨p, q, hs, ht, hpq⟩
        have hfront (p q : Particle) : ¬ (s.is p = true ∧ t.is q = true ∧ P p q) := fun h ↦ hpair ⟨p, q, h⟩
        simp only [hnone, hfront, hpair, not_false_eq_true, true_and, false_or, ih]

theorem hasPair_iff {tokens : List Token} : HasPair P tokens ↔ ∃ p q, IsFirstPair P tokens p q := by
  constructor
  · induction tokens with
    | nil => simp [HasPair]
    | cons s tokens ih =>
      cases tokens with
      | nil => exact fun h ↦ absurd h (not_hasPair_singleton P s)
      | cons t rest =>
        intro h
        simp only [isFirstPair_cons_cons]
        by_cases hpair : ArePair P s t
        · obtain ⟨p, q, hfront⟩ := hpair
          exact ⟨p, q, .inl hfront⟩
        · obtain ⟨p, q, hfirst⟩ := ih ((hasPair_cons_cons.1 h).resolve_left hpair)
          exact ⟨p, q, .inr ⟨hpair, hfirst⟩⟩
  · rintro ⟨p, q, before, s, t, after, htokens, hs, ht, hpq, -⟩
    exact ⟨before, s, t, after, htokens, p, q, hs, ht, hpq⟩

end

theorem structural?_eq_some {t : Token} {p : Particle} :
    structural? t = some p ↔ t.is p = true ∧ p.isStructural = true := by
  constructor
  · intro h
    exact ⟨is_of_structural? h, (Option.filter_eq_some_iff.1 h).2⟩
  · rintro ⟨hp, hs⟩
    simp only [Token.is, Bool.and_eq_true, decide_eq_true_eq] at hp
    simp [structural?, Token.particle?, hp, hs]

section

variable {tokens : List Token} {p q : Particle}

theorem doubled?_eq_some : doubled? tokens = some p ↔ IsFirstPair IsDouble tokens p p := by
  rw [doubled?, findSome?_neighbours IsDouble (fun p _ ↦ p)]
  · constructor
    · rintro ⟨p, q, hfirst, rfl⟩
      obtain ⟨-, rfl⟩ := hfirst.holds
      exact hfirst
    · intro hfirst
      exact ⟨p, p, hfirst, rfl⟩
  · intro s t p
    simp only [Option.bind_eq_bind, Option.bind_eq_some_iff, structural?_eq_some, Option.ite_none_right_eq_some]
    constructor
    · rintro ⟨p, ⟨hs, hstructural⟩, q, ⟨ht, -⟩, rfl, hp⟩
      exact ⟨p, p, hs, ht, ⟨hstructural, rfl⟩, (Option.some.inj hp).symm⟩
    · rintro ⟨p, q, hs, ht, ⟨hstructural, rfl⟩, rfl⟩
      exact ⟨_, ⟨hs, hstructural⟩, _, ⟨ht, hstructural⟩, rfl, rfl⟩

theorem afterO?_eq_some : afterO? tokens = some q ↔ IsFirstPair IsAfterO tokens .o q := by
  rw [afterO?, findSome?_neighbours IsAfterO (fun _ q ↦ q)]
  · constructor
    · rintro ⟨p, q, hfirst, rfl⟩
      obtain ⟨rfl, -⟩ := hfirst.holds
      exact hfirst
    · intro hfirst
      exact ⟨.o, q, hfirst, rfl⟩
  · intro s t q
    rw [Option.ite_none_right_eq_some, structural?_eq_some]
    constructor
    · rintro ⟨hs, ht, hstructural⟩
      exact ⟨.o, q, hs, ht, ⟨rfl, hstructural⟩, rfl⟩
    · rintro ⟨p, q, hs, ht, ⟨rfl, hstructural⟩, rfl⟩
      exact ⟨hs, ht, hstructural⟩

theorem clash?_eq_some {dialect : Dialect} :
    clash? dialect tokens = some (p, q) ↔ IsFirstPair (IsClash dialect) tokens p q := by
  rw [clash?, findSome?_neighbours (IsClash dialect) Prod.mk]
  · constructor
    · rintro ⟨p', q', hfirst, heq⟩
      obtain ⟨rfl, rfl⟩ := Prod.mk.inj heq
      exact hfirst
    · intro hfirst
      exact ⟨p, q, hfirst, rfl⟩
  · intro s t pair
    simp only [Option.bind_eq_bind, Option.bind_eq_some_iff, structural?_eq_some, Option.ite_none_left_eq_some,
      Bool.and_eq_true, decide_eq_true_eq, and_assoc]
    constructor
    · rintro ⟨p, hs, hp, q, ht, hq, hallowed, hpair⟩
      exact ⟨p, q, hs, ht, ⟨hp, hq, hallowed⟩, (Option.some.inj hpair).symm⟩
    · rintro ⟨p, q, hs, ht, ⟨hp, hq, hallowed⟩, rfl⟩
      exact ⟨p, hs, hp, q, ht, hq, hallowed, rfl⟩

theorem doubled?_eq_none : doubled? tokens = none ↔ ¬ HasPair IsDouble tokens := by
  rw [hasPair_iff, Option.eq_none_iff_forall_ne_some]
  constructor
  · rintro h ⟨p, q, hfirst⟩
    obtain ⟨-, rfl⟩ := hfirst.holds
    exact h q (doubled?_eq_some.2 hfirst)
  · intro h p hp
    exact h ⟨p, p, doubled?_eq_some.1 hp⟩

theorem afterO?_eq_none : afterO? tokens = none ↔ ¬ HasPair IsAfterO tokens := by
  rw [hasPair_iff, Option.eq_none_iff_forall_ne_some]
  constructor
  · rintro h ⟨p, q, hfirst⟩
    obtain ⟨rfl, -⟩ := hfirst.holds
    exact h q (afterO?_eq_some.2 hfirst)
  · intro h q hq
    exact h ⟨.o, q, afterO?_eq_some.1 hq⟩

end

end Reading

open Reading

/-- The last word or preposition of a text is a `li`. -/
def EndsInLi (text : String) : Prop := ∃ t ∈ ((tokenize text).filter Token.isWord).getLast?, t.is .li = true

theorem getLast?_any_isLi {text : String} :
    ((tokenize text).filter Token.isWord).getLast?.any (·.is .li) = true ↔ EndsInLi text := by
  rw [EndsInLi]
  cases ((tokenize text).filter Token.isWord).getLast? <;> simp

instance (text : String) : Decidable (EndsInLi text) := decidable_of_iff _ getLast?_any_isLi

theorem Token.scan_of_isBlank {cs : List Char} (h : ∀ c ∈ cs, Text.isBlank c = true) (pos : Nat) : scan pos cs = [] := by
  induction cs generalizing pos with
  | nil => exact scan_nil pos
  | cons c rest ih =>
    obtain ⟨hc, hrest⟩ := List.forall_mem_cons.1 h
    have hmark : ¬ (isMark c = true ∨ isQuoteMark c = true) := by
      intro hmark
      simp [(of_isMark hmark).2.1] at hc
    rw [not_or] at hmark
    simp [scan_cons, isWordChar, hc, hmark, ih hrest]

namespace Grammar

variable {g : Grammar} {text shown : String}

theorem parse_of_endsInLi (h : EndsInLi text) : g.parse text shown = .error (.trailingLi shown) := by
  unfold Grammar.parse Grammar.read
  dsimp only
  rw [if_pos (getLast?_any_isLi.2 h)]
  rfl

theorem parse_of_adjacencyError? (hli : ¬ EndsInLi text) (hcomment : ¬ IsComment text) {e : ParseError}
    (h : adjacencyError? g.dialect text (tokenize text) = some e) : g.parse text shown = .error e := by
  have hblank : ¬ text.toList.all Text.isBlank = true := by
    intro hall
    have hnil : tokenize text = [] := Token.scan_of_isBlank (List.all_eq_true.1 hall) 0
    simp [hnil, adjacencyError?, doubled?, afterO?, clash?, neighbours] at h
  have hplain : ¬ "///".toList.isPrefixOf text.toList = true := fun hslashes ↦
    hcomment (List.isPrefixOf_iff_prefix.1 hslashes)
  unfold Grammar.parse Grammar.read
  dsimp only
  rw [if_neg (getLast?_any_isLi.not.2 hli), if_neg hblank, if_neg hplain, h]
  rfl

theorem adjacencyError?_of_parse {p : Particle} {fragment : String}
    (h : g.parse text shown = .error (.doubleParticle p fragment)) :
    adjacencyError? g.dialect text (tokenize text) = some (.doubleParticle p fragment) := by
  have hread := g.ensures_read text shown .empty
  rw [(agrees_read g text shown .empty (Memory.isSound_empty _)).1, h] at hread
  exact hread.doubled p fragment rfl

theorem adjacencyError?_eq_doubleParticle {dialect : Dialect} {p : Particle} {fragment : String} :
    adjacencyError? dialect text (tokenize text) = some (.doubleParticle p fragment) ↔
      fragment = text ∧ IsFirstPair IsDouble (tokenize text) p p := by
  rw [← doubled?_eq_some]
  cases hdoubled : doubled? (tokenize text) with
  | some q => simp [adjacencyError?, hdoubled, and_comm, eq_comm]
  | none => simp [adjacencyError?, hdoubled]

/-- Which complaint is made about the particles of a text. A `li` at the end comes before all else. A text that is no
comment is then told about the leftmost particle that is said twice, and about no other; without one, about the leftmost
particle after an `o`; and without that, about the leftmost other pair that does not go together. -/
theorem parse_complains (g : Grammar) (text shown : String) :
    (EndsInLi text → g.parse text shown = .error (.trailingLi shown)) ∧
      (¬ EndsInLi text → ¬ IsComment text →
        ((∃ p fragment, g.parse text shown = .error (.doubleParticle p fragment)) ↔
            HasPair IsDouble (tokenize text)) ∧
          (∀ p fragment, g.parse text shown = .error (.doubleParticle p fragment) ↔
            fragment = text ∧ IsFirstPair IsDouble (tokenize text) p p) ∧
          (¬ HasPair IsDouble (tokenize text) →
            (HasPair IsAfterO (tokenize text) → ∃ q, IsFirstPair IsAfterO (tokenize text) .o q ∧
              g.parse text shown = .error (.illegalPair .o q text)) ∧
            (¬ HasPair IsAfterO (tokenize text) → HasPair (IsClash g.dialect) (tokenize text) →
              ∃ p q, IsFirstPair (IsClash g.dialect) (tokenize text) p q ∧
                g.parse text shown = .error (.illegalPair p q text)))) := by
  refine ⟨parse_of_endsInLi, fun hli hcomment ↦ ?_⟩
  have hdouble (p : Particle) (fragment : String) : g.parse text shown = .error (.doubleParticle p fragment) ↔
      fragment = text ∧ IsFirstPair IsDouble (tokenize text) p p := by
    rw [← adjacencyError?_eq_doubleParticle]
    exact ⟨adjacencyError?_of_parse, parse_of_adjacencyError? hli hcomment⟩
  refine ⟨?_, hdouble, fun hnone ↦ ⟨fun hafter ↦ ?_, fun hnoO hclash ↦ ?_⟩⟩
  · rw [hasPair_iff]
    constructor
    · rintro ⟨p, fragment, h⟩
      exact ⟨p, p, ((hdouble p fragment).1 h).2⟩
    · rintro ⟨p, q, hfirst⟩
      obtain ⟨-, rfl⟩ := hfirst.holds
      exact ⟨_, text, (hdouble _ text).2 ⟨rfl, hfirst⟩⟩
  · obtain ⟨p, q, hfirst⟩ := hasPair_iff.1 hafter
    obtain ⟨rfl, -⟩ := hfirst.holds
    refine ⟨q, hfirst, parse_of_adjacencyError? hli hcomment ?_⟩
    simp [adjacencyError?, doubled?_eq_none.2 hnone, afterO?_eq_some.2 hfirst]
  · obtain ⟨p, q, hfirst⟩ := hasPair_iff.1 hclash
    refine ⟨p, q, hfirst, parse_of_adjacencyError? hli hcomment ?_⟩
    simp [adjacencyError?, doubled?_eq_none.2 hnone, afterO?_eq_none.2 hnoO, clash?_eq_some.2 hfirst]

/-- Everything is wrong at once with the first text; each text after it lacks what the one before was told about. -/
theorem parse_complains_in_turn :
    let g : Grammar := ⟨Dictionary.standard.lexicon, {}⟩
    g.parse "/// o e la la pi li," "x" = .error (.trailingLi "x") ∧
      g.parse "o e la la pi pi ike." "x" = .error (.doubleParticle .la "o e la la pi pi ike.") ∧
      g.parse "e la, o e, pi" "x" = .error (.illegalPair .o .e "e la, o e, pi") ∧
      g.parse "li pi la e" "x" = .error (.illegalPair .pi .la "li pi la e") := by
  intro g
  obtain ⟨hli, -⟩ := parse_complains g "/// o e la la pi li," "x"
  obtain ⟨-, hdouble⟩ := parse_complains g "o e la la pi pi ike." "x"
  obtain ⟨-, hafter⟩ := parse_complains g "e la, o e, pi" "x"
  obtain ⟨-, hclash⟩ := parse_complains g "li pi la e" "x"
  refine ⟨hli (by decide +kernel), ?_, ?_, ?_⟩
  · obtain ⟨-, hdouble, -⟩ := hdouble (by decide +kernel) (by decide +kernel)
    exact (hdouble .la _).2 ⟨rfl, doubled?_eq_some.1 (by decide +kernel)⟩
  · obtain ⟨-, -, hafter⟩ := hafter (by decide +kernel) (by decide +kernel)
    have hfirst : IsFirstPair IsAfterO (tokenize "e la, o e, pi") .o .e := afterO?_eq_some.1 (by decide +kernel)
    obtain ⟨q, hq, hparse⟩ := (hafter (doubled?_eq_none.1 (by decide +kernel))).1 (hasPair_iff.2 ⟨.o, .e, hfirst⟩)
    obtain rfl : .e = q := Option.some.inj ((afterO?_eq_some.2 hfirst).symm.trans (afterO?_eq_some.2 hq))
    exact hparse
  · obtain ⟨-, -, hclash⟩ := hclash (by decide +kernel) (by decide +kernel)
    have hfirst : IsFirstPair (IsClash {}) (tokenize "li pi la e") .pi .la := clash?_eq_some.1 (by decide +kernel)
    obtain ⟨p, q, hpq, hparse⟩ := (hclash (doubled?_eq_none.1 (by decide +kernel))).2
      (afterO?_eq_none.1 (by decide +kernel)) (hasPair_iff.2 ⟨.pi, .la, hfirst⟩)
    obtain ⟨rfl, rfl⟩ : .pi = p ∧ .la = q := by
      simpa using (clash?_eq_some.2 hfirst).symm.trans (clash?_eq_some.2 hpq)
    exact hparse

end Grammar

end TokiPona
