import Mathlib.Data.List.Perm.Basic
import TokiPona.Dictionary.Standard
import TokiPona.Grammar
import TokiPona.Proofs.Reader
import TokiPona.Proofs.Sorted

namespace TokiPona

open Reading

/-- A word of a fact fills in the word of a question at its place. -/
def Fills (known asked : String) : Prop := asked = seme ∨ known = asked

instance : DecidableRel Fills := fun known asked ↦ inferInstanceAs (Decidable (asked = seme ∨ known = asked))

theorem forall₂_flatten_iff {α β : Type} {R : α → β → Prop} {as : List (List α)} {bs : List (List β)}
    (h : as.map List.length = bs.map List.length) :
    List.Forall₂ (List.Forall₂ R) as bs ↔ List.Forall₂ R as.flatten bs.flatten := by
  refine ⟨fun hall ↦ List.rel_flatten hall, fun hall ↦ ?_⟩
  induction as generalizing bs with
  | nil =>
    obtain rfl : bs = [] := by simpa using h.symm
    exact .nil
  | cons a as ih =>
    cases bs with
    | nil => simp at h
    | cons b bs =>
      obtain ⟨hlength, hrest⟩ := List.cons.inj h
      rw [List.flatten_cons, List.flatten_cons] at hall
      have htake := List.forall₂_take a.length hall
      have hdrop := List.forall₂_drop a.length hall
      rw [List.take_left, hlength, List.take_left] at htake
      rw [List.drop_left, hlength, List.drop_left] at hdrop
      exact .cons htake (ih hrest hdrop)

namespace Sentence

variable {f q : Sentence}

theorem matchWords_iff {known asked : List String} :
    matchWords known asked = true ↔ List.Forall₂ Fills known asked := by
  simp [matchWords, List.forall₂_iff_zip, Fills]

theorem fillsIn_iff : f.fillsIn q = true ↔ List.Forall₂ (List.Forall₂ Fills) f.segments q.segments := by
  simp [fillsIn, List.forall₂_iff_zip, matchWords_iff]

theorem answers_iff : f.answers q = true ↔ f.equivalent q = true ∨
    q.mentions seme = true ∧ List.Forall₂ (List.Forall₂ Fills) f.segments q.segments := by
  rw [answers, Bool.or_eq_true, Bool.and_eq_true, fillsIn_iff]

/-- Some word of a segment is not the one that is asked for at its place. -/
def Clashes (fact question : Sentence) : Prop :=
  ∃ place ∈ fact.segments.flatten.zip question.segments.flatten, ¬ Fills place.1 place.2

/-- The fact answers the question if the words of its segments may change places. -/
def AnswersInSomeOrder (fact question : Sentence) : Prop :=
  fact.equivalent question = true ∨ question.mentions seme = true ∧
    List.Forall₂ (Relation.Comp List.Perm (List.Forall₂ Fills)) fact.segments question.segments

theorem fillsIn_iff_not_clashes : f.fillsIn q = true ↔
    f.segments.map List.length = q.segments.map List.length ∧ ¬ f.Clashes q := by
  rw [fillsIn_iff]
  by_cases h : f.segments.map List.length = q.segments.map List.length
  · have hlength : f.segments.flatten.length = q.segments.flatten.length := by
      rw [List.length_flatten, List.length_flatten, h]
    rw [forall₂_flatten_iff h, List.forall₂_iff_zip]
    simp [Clashes, h, hlength]
  · refine iff_of_false (fun hfills ↦ h ?_) (fun hshape ↦ h hshape.1)
    exact (map_eq_map_of_forall₂ hfills fun _ _ _ hsegment ↦ hsegment.length_eq.symm).symm

section

variable {f₁ f₂ q₁ q₂ : Sentence} (hf : f₁.equivalent f₂ = true) (hq : q₁.equivalent q₂ = true)

theorem lengths_of_equivalent (h : f₁.equivalent f₂ = true) :
    f₁.segments.map List.length = f₂.segments.map List.length :=
  (map_eq_map_of_forall₂ (perm_segments_of_equivalent h) fun _ _ _ hperm ↦ hperm.length_eq.symm).symm

theorem mentions_of_equivalent (h : q₁.equivalent q₂ = true) (w : String) : q₁.mentions w = q₂.mentions w := by
  rw [mentions, mentions, Bool.eq_iff_iff, List.contains_iff_mem, List.contains_iff_mem]
  exact (perm_words_of_equivalent h).mem_iff

include hf hq

theorem equivalent_congr : f₁.equivalent q₁ = f₂.equivalent q₂ := by
  rw [Bool.eq_iff_iff, equivalent_iff, equivalent_iff, equivalent_iff.1 hf, equivalent_iff.1 hq]

theorem forall₂_perm_fills (h : List.Forall₂ (List.Forall₂ Fills) f₁.segments q₁.segments) :
    List.Forall₂ (Relation.Comp List.Perm (List.Forall₂ Fills)) f₂.segments q₂.segments := by
  have hfact : List.Forall₂ List.Perm f₂.segments f₁.segments :=
    ((perm_segments_of_equivalent hf).imp fun _ _ ↦ List.Perm.symm).flip
  have hfilled : List.Forall₂ (Relation.Comp List.Perm (List.Forall₂ Fills)) f₂.segments q₁.segments :=
    forall₂_comp (fun _ known _ hperm hfills ↦ ⟨known, hperm, hfills⟩) hfact h
  refine forall₂_comp (fun known asked asked' hfills hperm ↦ ?_) hfilled (perm_segments_of_equivalent hq)
  obtain ⟨known', hknown, hfills⟩ := hfills
  have hmoved : Relation.Comp (List.Forall₂ Fills) List.Perm known' asked' := ⟨asked, hfills, hperm⟩
  rw [List.forall₂_comp_perm_eq_perm_comp_forall₂] at hmoved
  obtain ⟨known'', hknown', hfills'⟩ := hmoved
  exact ⟨known'', hknown.trans hknown', hfills'⟩

end

/-- Equivalent facts answer equivalent questions alike but for the order of words: where a question asks for something,
the fact is no echo of it and its segments are as long as those of the question, a word may stand at its place in the
one and not in the other. Where only the terminal marks differ, the answers do not. -/
theorem answers_eq_iff {f₁ f₂ q₁ q₂ : Sentence} (hf : f₁.equivalent f₂ = true) (hq : q₁.equivalent q₂ = true) :
    (f₁.answers q₁ = f₂.answers q₂ ↔ (f₁.equivalent q₁ = false → q₁.mentions seme = true →
      f₁.segments.map List.length = q₁.segments.map List.length → (f₁.Clashes q₁ ↔ f₂.Clashes q₂))) ∧
    (f₁.segments = f₂.segments → q₁.segments = q₂.segments → f₁.answers q₁ = f₂.answers q₂) ∧
    (f₁.answers q₁ = true → f₂.AnswersInSomeOrder q₂) := by
  have hecho := equivalent_congr hf hq
  have hseme := mentions_of_equivalent hq seme
  refine ⟨?_, fun hfacts hquestions ↦ ?_, ?_⟩
  · have hfills : (f₂.fillsIn q₂ = true ↔
        f₁.segments.map List.length = q₁.segments.map List.length ∧ ¬ f₂.Clashes q₂) := by
      rw [fillsIn_iff_not_clashes, lengths_of_equivalent hf, lengths_of_equivalent hq]
    rw [Bool.eq_iff_iff, answers, answers, ← hecho, ← hseme, Bool.or_eq_true, Bool.or_eq_true, Bool.and_eq_true,
      Bool.and_eq_true, fillsIn_iff_not_clashes, hfills, ← Bool.not_eq_true]
    grind
  · rw [answers, answers, hecho, hseme, fillsIn, fillsIn, hfacts, hquestions]
  · rw [answers_iff, AnswersInSomeOrder, ← hecho, ← hseme]
    exact Or.imp_right (And.imp_right (forall₂_perm_fills hf hq))

def lape (modifiers : List String) (p : Punctuation) : Sentence :=
  simple
    { subject := some (.links .en [.links .pi [.phrases .pi [⟨.word "jan", modifiers.map .word, []⟩]]])
      predicates := [⟨.li, .verb { head := some (.word "lape") }, none, []⟩]
      punctuation := some p }

theorem equivalent_lape {modifiers modifiers' : List String} {p p' : Punctuation} :
    (lape modifiers p).equivalent (lape modifiers' p') = true ↔
      (modifiers.map Lexeme.word).Perm (modifiers'.map Lexeme.word) := by
  rw [← Lexeme.alike_iff_perm]
  simp [equivalent, lape, withoutPunctuation, alike, SimpleSentence.alike, Chain.alikeOption, Chain.alike,
    Chain.allAlike, Phrase.allAlike, Phrase.alike, PrepPhrase.allAlike, Predicate.alike_refl, List.isEqv]

theorem parse_eq_lape {g : Grammar} {text : String} {modifiers : List String} {p : Punctuation}
    (h : (fun s ↦ match s with
      | simple ⟨some (.links .en [.links .pi [.phrases .pi [⟨head, modifiers, []⟩]]]),
          [⟨.li, .verb ⟨[], some verb, []⟩, none, []⟩], some p, none, [], false, .declarative, false, []⟩ =>
        some (head, modifiers, verb, p)
      | _ => none) <$> g.parse text "" = .ok (some (.word "jan", modifiers.map .word, .word "lape", p))) :
    g.parse text "" = .ok (lape modifiers p) := by
  obtain ⟨s, hs, h⟩ := map_eq_ok.1 h
  split at h
  · simp only [Option.some.injEq, Prod.mk.injEq] at h
    obtain ⟨rfl, rfl, rfl, rfl⟩ := h
    exact hs
  · simp at h

/-- The order of two modifiers decides: `jan pona suli` answers `jan pona seme` and `jan suli pona` does not. -/
theorem answers_eq_iff_reordered :
    let g : Grammar := ⟨Dictionary.standard.lexicon, {}⟩
    ∃ f₁ f₂ q, g.parse "jan pona suli li lape." "" = .ok f₁ ∧ g.parse "jan suli pona li lape!" "" = .ok f₂ ∧
      g.parse "jan pona seme li lape?" "" = .ok q ∧ f₁.equivalent f₂ = true ∧ f₁.answers q = true ∧
      f₂.answers q = false ∧ f₂.AnswersInSomeOrder q ∧ ¬ (f₁.Clashes q ↔ f₂.Clashes q) := by
  intro g
  refine ⟨lape ["pona", "suli"] .period, lape ["suli", "pona"] .exclamation, lape ["pona", "seme"] .question,
    parse_eq_lape (by decide +kernel), parse_eq_lape (by decide +kernel), parse_eq_lape (by decide +kernel), ?_⟩
  have hf : (lape ["pona", "suli"] .period).equivalent (lape ["suli", "pona"] .exclamation) = true :=
    equivalent_lape.2 (by decide)
  have hq : (lape ["pona", "seme"] .question).equivalent (lape ["pona", "seme"] .question) = true := alike_refl _
  have h₁ : (lape ["pona", "suli"] .period).answers (lape ["pona", "seme"] .question) = true := by
    rw [answers_iff, equivalent_lape]
    decide +kernel
  have h₂ : ¬ (lape ["suli", "pona"] .exclamation).answers (lape ["pona", "seme"] .question) = true := by
    rw [answers_iff, equivalent_lape]
    decide +kernel
  obtain ⟨hiff, -, horder⟩ := answers_eq_iff hf hq
  refine ⟨hf, h₁, Bool.eq_false_iff.2 h₂, horder h₁, fun hclash ↦ h₂ ?_⟩
  rw [← hiff.2 fun _ _ _ ↦ hclash, h₁]

end Sentence

def SimpleSentence.placed (s : SimpleSentence) : List (Bool × String) :=
  (s.vocatives.flatMap Chain.words ++ s.contexts.flatMap Context.words).map (false, ·) ++
    (s.subject.toList.flatMap Chain.words ++ s.predicates.flatMap Predicate.words).map (true, ·)

namespace Sentence

mutual

/-- The words in order, each with whether it stands in a segment. -/
def placed : Sentence → List (Bool × String)
  | simple s => s.placed
  | conditional preconditions conclusion => placedAll preconditions ++ conclusion.placed
  | vocative chain _ | fragment chain _ => chain.words.map (true, ·)
  | exclamation phrase _ => phrase.words.map (true, ·)
  | comment _ => []

def placedAll : List Sentence → List (Bool × String)
  | [] => []
  | s :: rest => s.placed ++ placedAll rest

end

/-- The words of those called and of contexts, which stand in no segment. -/
def asides (s : Sentence) : List String := (s.placed.filter (!·.1)).map Prod.snd

mutual

theorem map_snd_placed : (s : Sentence) → s.placed.map Prod.snd = s.words
  | simple s => by simp [placed, SimpleSentence.placed, words, SimpleSentence.words, Function.comp_def]
  | conditional preconditions conclusion => by
    rw [placed, List.map_append, map_snd_placedAll preconditions, map_snd_placed conclusion, words]
  | vocative _ _ | fragment _ _ | exclamation _ _ => by simp [placed, words, Function.comp_def]
  | comment _ => rfl

theorem map_snd_placedAll : (ss : List Sentence) → (placedAll ss).map Prod.snd = (wordLists ss).flatten
  | [] => rfl
  | s :: ss => by
    rw [placedAll, List.map_append, map_snd_placed s, map_snd_placedAll ss, wordLists, List.flatten_cons]

end

mutual

theorem map_snd_filter_placed : (s : Sentence) → (s.placed.filter Prod.fst).map Prod.snd = s.segments.flatten
  | simple s => by
    simp [placed, SimpleSentence.placed, segments, List.filter_map, Function.comp_def, List.flatMap_def]
  | conditional preconditions conclusion => by
    rw [placed, List.filter_append, List.map_append, map_snd_filter_placedAll preconditions,
      map_snd_filter_placed conclusion, segments, List.flatten_append]
  | vocative _ _ | fragment _ _ | exclamation _ _ => by simp [placed, segments, List.filter_map, Function.comp_def]
  | comment _ => rfl

theorem map_snd_filter_placedAll : (ss : List Sentence) →
    ((placedAll ss).filter Prod.fst).map Prod.snd = (segmentLists ss).flatten.flatten
  | [] => rfl
  | s :: ss => by
    rw [placedAll, List.filter_append, List.map_append, map_snd_filter_placed s, map_snd_filter_placedAll ss,
      segmentLists, List.flatten_cons, List.flatten_append]

end

theorem length_words (s : Sentence) : s.words.length = s.segments.flatten.length + s.asides.length := by
  rw [← map_snd_placed, ← map_snd_filter_placed, asides, List.length_map, List.length_map, List.length_map]
  exact List.length_eq_length_filter_add Prod.fst

end Sentence

theorem forall₂_map_snd_iff {R : String → String → Prop} {as bs : List (Bool × String)}
    (h : as.map Prod.fst = bs.map Prod.fst) : List.Forall₂ R (as.map Prod.snd) (bs.map Prod.snd) ↔
      List.Forall₂ R ((as.filter Prod.fst).map Prod.snd) ((bs.filter Prod.fst).map Prod.snd) ∧
        List.Forall₂ R ((as.filter (!·.1)).map Prod.snd) ((bs.filter (!·.1)).map Prod.snd) := by
  induction as generalizing bs with
  | nil =>
    obtain rfl : bs = [] := by simpa using h.symm
    simp
  | cons a as ih =>
    cases bs with
    | nil => simp at h
    | cons b bs =>
      obtain ⟨flag, a⟩ := a
      obtain ⟨flag', b⟩ := b
      obtain ⟨rfl, hrest⟩ := List.cons.inj h
      cases flag with
      | true => simp [ih hrest, and_assoc]
      | false => simp [ih hrest, and_left_comm]

namespace Sentence

/-- A fact that answers a question without being an echo of it matches it segment by segment, and matches the whole of
it exactly as far as the words that stand in no segment do. -/
theorem fills_words_of_answers {fact question : Sentence} (h : fact.answers question = true)
    (hecho : fact.equivalent question = false) :
    List.Forall₂ (List.Forall₂ Fills) fact.segments question.segments ∧
      (fact.words.length = question.words.length ↔ fact.asides.length = question.asides.length) ∧
      (fact.placed.map Prod.fst = question.placed.map Prod.fst →
        (List.Forall₂ Fills fact.words question.words ↔ List.Forall₂ Fills fact.asides question.asides)) := by
  have hsegments : List.Forall₂ (List.Forall₂ Fills) fact.segments question.segments := by
    rcases answers_iff.1 h with hequiv | ⟨-, hsegments⟩
    · simp [hecho] at hequiv
    · exact hsegments
  have hwords : List.Forall₂ Fills fact.segments.flatten question.segments.flatten := List.rel_flatten hsegments
  refine ⟨hsegments, ?_, fun hplaced ↦ ?_⟩
  · rw [length_words, length_words, hwords.length_eq, Nat.add_left_cancel_iff]
  · rw [← map_snd_placed, ← map_snd_placed, forall₂_map_snd_iff hplaced, map_snd_filter_placed, map_snd_filter_placed]
    exact and_iff_right hwords

theorem exists_of_parses {g : Grammar} {text text' : String} {P : Sentence → Sentence → Prop}
    [∀ s s', Decidable (P s s')]
    (h : (do let s ← g.parse text ""; let s' ← g.parse text' ""; pure (decide (P s s'))) = .ok true) :
    ∃ s s', g.parse text "" = .ok s ∧ g.parse text' "" = .ok s' ∧ P s s' := by
  obtain ⟨s, hs, h⟩ := bind_eq_ok.1 h
  obtain ⟨s', hs', h⟩ := bind_eq_ok.1 h
  exact ⟨s, s', hs, hs', by simpa using h⟩

/-- Contexts are not compared: what was answers what will be, and a `seme` in a context stands for no word. -/
theorem fills_words_of_answers_context :
    let g : Grammar := ⟨Dictionary.standard.lexicon, {}⟩
    (∃ fact question, g.parse "tenpo pini la jan li moku." "" = .ok fact ∧
      g.parse "tenpo kama la seme li moku?" "" = .ok question ∧ fact.answers question = true ∧
      fact.equivalent question = false ∧ ¬ List.Forall₂ Fills fact.words question.words) ∧
    (∃ fact question, g.parse "jan li moku." "" = .ok fact ∧
      g.parse "tenpo seme la jan li moku?" "" = .ok question ∧ fact.answers question = true ∧
      fact.equivalent question = false ∧ fact.words.length ≠ question.words.length) ∧
    ∃ fact question, g.parse "tenpo pini la jan li moku." "" = .ok fact ∧
      g.parse "tenpo seme la seme li moku?" "" = .ok question ∧ fact.answers question = true ∧
      fact.equivalent question = false ∧ List.Forall₂ Fills fact.words question.words := by
  intro g
  refine ⟨?_, ?_, ?_⟩
  · obtain ⟨fact, question, hfact, hquestion, hanswers, hecho, hplaced, hasides⟩ := exists_of_parses (show (do
      let fact ← g.parse "tenpo pini la jan li moku." ""
      let question ← g.parse "tenpo kama la seme li moku?" ""
      pure (decide (fact.answers question = true ∧ fact.equivalent question = false ∧
        fact.placed.map Prod.fst = question.placed.map Prod.fst ∧
        ¬ List.Forall₂ Fills fact.asides question.asides))) = .ok true by decide +kernel)
    refine ⟨fact, question, hfact, hquestion, hanswers, hecho, fun hwords ↦ hasides ?_⟩
    exact ((fills_words_of_answers hanswers hecho).2.2 hplaced).1 hwords
  · obtain ⟨fact, question, hfact, hquestion, hanswers, hecho, hasides⟩ := exists_of_parses (show (do
      let fact ← g.parse "jan li moku." ""
      let question ← g.parse "tenpo seme la jan li moku?" ""
      pure (decide (fact.answers question = true ∧ fact.equivalent question = false ∧
        fact.asides.length ≠ question.asides.length))) = .ok true by decide +kernel)
    refine ⟨fact, question, hfact, hquestion, hanswers, hecho, fun hwords ↦ hasides ?_⟩
    exact (fills_words_of_answers hanswers hecho).2.1.1 hwords
  · obtain ⟨fact, question, hfact, hquestion, hanswers, hecho, hplaced, hasides⟩ := exists_of_parses (show (do
      let fact ← g.parse "tenpo pini la jan li moku." ""
      let question ← g.parse "tenpo seme la seme li moku?" ""
      pure (decide (fact.answers question = true ∧ fact.equivalent question = false ∧
        fact.placed.map Prod.fst = question.placed.map Prod.fst ∧
        List.Forall₂ Fills fact.asides question.asides))) = .ok true by decide +kernel)
    refine ⟨fact, question, hfact, hquestion, hanswers, hecho, ?_⟩
    exact ((fills_words_of_answers hanswers hecho).2.2 hplaced).2 hasides

end Sentence

end TokiPona
