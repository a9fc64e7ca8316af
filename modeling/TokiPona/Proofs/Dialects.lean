import TokiPona.Dictionary.Standard
import TokiPona.Grammar
import TokiPona.Proofs.Reader

namespace TokiPona

namespace Reading

variable {tokens : List Token}

theorem findSome?_eq_or {α β : Type} {f g : α → Option β} {b : β} {xs : List α}
    (h : ∀ x ∈ xs, f x = g x ∨ f x = some b) : xs.findSome? f = xs.findSome? g ∨ xs.findSome? f = some b := by
  induction xs with
  | nil => exact .inl rfl
  | cons x xs ih =>
    rw [List.findSome?_cons, List.findSome?_cons]
    rcases h x (by simp) with hx | hx
    · rw [hx]
      cases g x with
      | none => exact ih (fun y hy ↦ h y (by simp [hy]))
      | some c => exact .inl rfl
    · rw [hx]
      exact .inr rfl

/-- A `li` stands directly before a `pi`. -/
def LiBeforePi (tokens : List Token) : Prop := ∃ pair ∈ neighbours tokens, pair.1.is .li = true ∧ pair.2.is .pi = true

theorem is_of_structural? {t : Token} {p : Particle} (h : structural? t = some p) : t.is p = true := by
  obtain ⟨text, kind, start⟩ := t
  obtain ⟨hp, -⟩ := Option.filter_eq_some_iff.1 h
  cases kind with
  | word => simp [Token.is, Particle.word_of_ofWord? hp]
  | preposition => simp [Token.particle?] at hp
  | punctuation c => simp [Token.particle?] at hp
  | quote c => simp [Token.particle?] at hp

theorem liBeforePi_of_clash? {dialect : Dialect} (h : clash? dialect tokens = some (.li, .pi)) : LiBeforePi tokens := by
  obtain ⟨⟨s, t⟩, hpair, hclash⟩ := List.exists_of_findSome?_eq_some h
  refine ⟨(s, t), hpair, ?_⟩
  cases hs : structural? s with
  | none => simp [hs] at hclash
  | some p =>
    cases ht : structural? t with
    | none => simp [hs, ht] at hclash
    | some q =>
      obtain ⟨-, rfl, rfl⟩ : _ ∧ p = .li ∧ q = .pi := by simpa [hs, ht] using hclash
      exact ⟨is_of_structural? hs, is_of_structural? ht⟩

theorem clash?_strict (tokens : List Token) :
    clash? .strict tokens = clash? {} tokens ∨ clash? .strict tokens = some (.li, .pi) := by
  apply findSome?_eq_or
  rintro ⟨s, t⟩ -
  dsimp only
  cases structural? s with
  | none => exact .inl rfl
  | some p =>
    cases structural? t with
    | none => exact .inl rfl
    | some q =>
      by_cases hpq : p = .li ∧ q = .pi
      · obtain ⟨rfl, rfl⟩ := hpq
        exact .inr rfl
      · left
        simp [hpq, Dialect.strict]

theorem adjacencyError?_strict (text : String) (tokens : List Token) :
    adjacencyError? .strict text tokens = adjacencyError? {} text tokens ∨
      adjacencyError? .strict text tokens = some (.illegalPair .li .pi text) ∧ LiBeforePi tokens := by
  unfold adjacencyError?
  cases doubled? tokens with
  | some p => exact .inl rfl
  | none =>
    cases afterO? tokens with
    | some p => exact .inl rfl
    | none =>
      rcases clash?_strict tokens with h | h
      · rw [h]
        exact .inl rfl
      · rw [h]
        exact .inr ⟨rfl, liBeforePi_of_clash? h⟩

end Reading

namespace Grammar

open Reading

/-- Readers of any kind, with or without a memory, do the same in both dialects or refuse the text for its `li pi`
before they read any of it. -/
theorem read_strict {m : Type → Type} [Monad m] [MonadExceptOf ParseError m] [Recall m] (lex : Lexicon)
    (text shown : String) :
    (read ⟨lex, .strict⟩ text shown : m Sentence) = read ⟨lex, {}⟩ text shown ∨
      (read ⟨lex, .strict⟩ text shown : m Sentence) = throw (.illegalPair .li .pi text) ∧
        LiBeforePi (tokenize text) := by
  unfold read
  dsimp only
  split
  · exact .inl rfl
  split
  · exact .inl rfl
  split
  · exact .inl rfl
  rcases adjacencyError?_strict text (tokenize text) with h | ⟨h, hpair⟩
  · rw [h]
    exact .inl rfl
  · rw [h]
    exact .inr ⟨rfl, hpair⟩

/-- The strict dialect restricts the default one and changes nothing else: a text is read alike in both, error and all,
or the strict one refuses it for a `li pi` that stands in it. What it accepts the default accepts with the same tree,
and a memory is left alike or untouched. -/
theorem parse_strict (lex : Lexicon) (text shown : String) :
    (parse ⟨lex, .strict⟩ text shown = parse ⟨lex, {}⟩ text shown ∨
      parse ⟨lex, .strict⟩ text shown = .error (.illegalPair .li .pi text) ∧ LiBeforePi (tokenize text)) ∧
    (∀ s, parse ⟨lex, .strict⟩ text shown = .ok s → parse ⟨lex, {}⟩ text shown = .ok s) ∧
    ∀ memory, parseWith ⟨lex, .strict⟩ text shown memory = parseWith ⟨lex, {}⟩ text shown memory ∨
      parseWith ⟨lex, .strict⟩ text shown memory = (.error (.illegalPair .li .pi text), memory) := by
  have hparse := read_strict (m := Except ParseError) lex text shown
  refine ⟨hparse, fun s hs ↦ ?_, fun memory ↦ ?_⟩
  · rcases hparse with h | ⟨h, -⟩
    · exact h.symm.trans hs
    · exact absurd (h.symm.trans hs) nofun
  · rcases read_strict (m := Remembering) lex text shown with h | ⟨h, -⟩
    · left
      rw [parseWith, parseWith, h]
    · right
      rw [parseWith, h]
      rfl

/-- A comma lets `li pi` pass in both dialects; without it only the default takes it. -/
theorem parse_strict_comma :
    let lex := Dictionary.standard.lexicon
    (∃ s, parse ⟨lex, .strict⟩ "ona li, pi jan pona." "" = .ok s ∧ parse ⟨lex, {}⟩ "ona li, pi jan pona." "" = .ok s) ∧
      Sentence.text <$> parse ⟨lex, .strict⟩ "ona li pi jan pona." "" =
        .error (.illegalPair .li .pi "ona li pi jan pona.") ∧
      Sentence.text <$> parse ⟨lex, {}⟩ "ona li pi jan pona." "" = .ok "ona li pi jan pona." := by
  intro lex
  obtain ⟨s, hs, -⟩ := map_eq_ok.1 (show Sentence.words <$> parse ⟨lex, .strict⟩ "ona li, pi jan pona." "" =
    .ok ["ona", "jan", "pona"] by decide +kernel)
  exact ⟨⟨s, hs, (parse_strict lex _ _).2.1 s hs⟩, by decide +kernel, by decide +kernel⟩

end Grammar

end TokiPona
