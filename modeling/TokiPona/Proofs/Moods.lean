import TokiPona.Dictionary.Standard
import TokiPona.Proofs.ChainWords
import TokiPona.Proofs.Formed
import TokiPona.Proofs.Words

namespace TokiPona

open Reading

namespace Sentence

mutual

/-- The simple sentences in a sentence, those of the conditions first. -/
def simples : Sentence → List SimpleSentence
  | simple s => [s]
  | conditional preconditions conclusion => simplesOf preconditions ++ conclusion.simples
  | _ => []

def simplesOf : List Sentence → List SimpleSentence
  | [] => []
  | s :: rest => s.simples ++ simplesOf rest

end

theorem simplesOf_eq_flatMap (ss : List Sentence) : simplesOf ss = ss.flatMap simples := by
  induction ss with
  | nil => rfl
  | cons s ss ih => rw [simplesOf, ih, List.flatMap_cons]

theorem simples_assembled (preconditions : List Sentence) (s : Sentence) :
    (assembled preconditions s).simples = preconditions.flatMap simples ++ s.simples := by
  cases preconditions with
  | nil => rfl
  | cons p preconditions => rw [assembled, if_neg (by simp), simples, simplesOf_eq_flatMap]

end Sentence

variable {lex : Lexicon} {P : SimpleSentence → Prop}

theorem Reading.forall_simples_of_clause {words : List String} {mark : Option Punctuation} {s : Sentence}
    (h : (clause lex words mark : Except ParseError Sentence) = .ok s) (hP : ∀ t, s = .simple t → P t) :
    ∀ t ∈ s.simples, P t := by
  cases isRead_of_clause h with
  | simple =>
    intro t ht
    obtain rfl : t = _ := List.mem_singleton.1 ht
    exact hP _ rfl
  | vocative => exact fun t ht ↦ absurd ht (by simp [Sentence.simples])
  | exclamation => exact fun t ht ↦ absurd ht (by simp [Sentence.simples])

/-- What holds of every simple sentence that one of the clauses is read as, and is kept when a context comes to it, holds
of every simple sentence that the clauses are put together to. -/
theorem Reading.ReadsClauses.forall_simples {mark : Punctuation} {runs : List (List String)}
    {preconditions : List Sentence} {s : Sentence} (h : ReadsClauses lex mark runs preconditions s)
    (hclause : ∀ run ∈ runs, ∀ mark s, (clause lex run mark : Except ParseError Sentence) = .ok (.simple s) → P s)
    (hcontext : ∀ words c s, (context lex words : Except ParseError Context) = .ok c → P s →
      P { s with contexts := c :: s.contexts }) :
    (∀ p ∈ preconditions, ∀ t ∈ p.simples, P t) ∧ ∀ t ∈ s.simples, P t := by
  induction h with
  | conclusion h =>
    refine ⟨by simp, forall_simples_of_clause h fun t ht ↦ ?_⟩
    exact hclause _ (by simp) _ t (ht ▸ h)
  | condition _ h _ ih =>
    obtain ⟨hpre, hs⟩ := ih (fun run hrun ↦ hclause run (by simp [hrun]))
    refine ⟨List.forall_mem_cons.2 ⟨forall_simples_of_clause h fun t ht ↦ ?_, hpre⟩, hs⟩
    exact hclause _ (by simp) _ t (ht ▸ h)
  | contextOfCondition _ _ h _ ih =>
    -- the context goes to the first condition only
    obtain ⟨hpre, hs⟩ := ih (fun run hrun ↦ hclause run (by simp [hrun]))
    obtain ⟨hnearest, hothers⟩ := List.forall_mem_cons.1 hpre
    refine ⟨List.forall_mem_cons.2 ⟨fun t ht ↦ ?_, hothers⟩, hs⟩
    obtain rfl : t = _ := List.mem_singleton.1 ht
    exact hcontext _ _ _ h (hnearest _ (List.mem_singleton.2 rfl))
  | contextOfConclusion _ _ h _ ih =>
    obtain ⟨-, hs⟩ := ih (fun run hrun ↦ hclause run (by simp [hrun]))
    refine ⟨by simp, fun t ht ↦ ?_⟩
    obtain rfl : t = _ := List.mem_singleton.1 ht
    exact hcontext _ _ _ h (hs _ (List.mem_singleton.2 rfl))

theorem Grammar.forall_simples {g : Grammar} {text shown : String} {s : Sentence} (h : g.parse text shown = .ok s)
    (hclause : ∀ run ∈ laRuns (wordsOf text), ∀ mark s,
      (clause g.lexicon (withImpliedLi g.lexicon run) mark : Except ParseError Sentence) = .ok (.simple s) → P s)
    (hcontext : ∀ words c s, (context g.lexicon words : Except ParseError Context) = .ok c → P s →
      P { s with contexts := c :: s.contexts }) : ∀ t ∈ s.simples, P t := by
  rcases (Grammar.parse_eq_ok.1 h).2.2 with ⟨-, rfl⟩ | ⟨-, -, -, -, hne, mark, -, hread⟩
  · exact fun t ht ↦ absurd ht (by simp [Sentence.simples])
  · rcases (sentence_eq_ok hne).1 hread with ⟨first, c, -, -, rfl⟩ | ⟨preconditions, conclusion, hclauses, rfl⟩
    · exact fun t ht ↦ absurd ht (by simp [Sentence.simples])
    · obtain ⟨hpre, hconclusion⟩ := hclauses.forall_simples (List.forall_mem_map.2 hclause) hcontext
      intro t ht
      rw [Sentence.simples_assembled, List.mem_append, List.mem_flatMap] at ht
      rcases ht with ⟨p, hp, ht⟩ | ht
      · exact hpre p hp t ht
      · exact hconclusion t ht

namespace SimpleSentence

/-- How the parts of a simple sentence go with its mood. -/
structure IsConsistent (s : SimpleSentence) : Prop where
  subject_eq_none : s.subject = none ↔ s.mood = .imperative ∧ s.placeholder = false
  command : s.subject = none → s.vocatives = [] ∧ ∀ p ∈ s.predicates, p.particle = .o
  placeholder_eq_true : s.placeholder = true ↔ s.mood = .imperative ∧ s.subject.isSome = true
  told : s.placeholder = true → s.subject.map Chain.words = some placeholderSubject ∧ s.vocatives ≠ [] ∧
    s.conjunction = none ∧ s.predicates.head?.map Predicate.particle = some .o
  wish : s.mood = .hortative → s.subject.isSome = true ∧ s.vocatives = [] ∧ s.conjunction = none ∧
    ∀ p ∈ s.predicates, p.particle = .li
  statement : s.mood = .declarative → s.subject.isSome = true ∧
    ((∀ p ∈ s.predicates, p.particle = .li) ∨ ∀ p ∈ s.predicates, p.particle = .o) ∧
    (s.vocatives ≠ [] → ∀ p ∈ s.predicates, p.particle = .li)

theorem HasShape.isConsistent {lex : Lexicon} {s : SimpleSentence} (h : s.HasShape lex) : s.IsConsistent := by
  cases h with
  | statement => constructor <;> simp_all
  | request => constructor <;> simp_all
  | command => constructor <;> simp_all
  | wish => constructor <;> simp_all
  | told subject first rest _ _ _ _ _ hread =>
    have hwords : subject.words = placeholderSubject := words_coordination hread
    constructor <;> simp_all

theorem IsConsistent.of_clause {lex : Lexicon} {words : List String} {mark : Option Punctuation} {s : SimpleSentence}
    (h : (clause lex words mark : Except ParseError Sentence) = .ok (.simple s)) : s.IsConsistent := by
  cases isRead_of_clause h with
  | simple hread => exact hread.shape.isConsistent

theorem IsConsistent.context {s : SimpleSentence} (h : s.IsConsistent) (c : Context) :
    { s with contexts := c :: s.contexts }.IsConsistent :=
  ⟨h.subject_eq_none, h.command, h.placeholder_eq_true, h.told, h.wish, h.statement⟩

end SimpleSentence

/-- Mood, subject, calls and governing particles go together in every simple sentence that a text holds. -/
theorem Grammar.isConsistent_of_parse (g : Grammar) {text shown : String} {s : Sentence}
    (h : g.parse text shown = .ok s) : ∀ t ∈ s.simples, t.IsConsistent :=
  Grammar.forall_simples h (fun _ _ _ _ ↦ SimpleSentence.IsConsistent.of_clause) (fun _ c _ _ ht ↦ ht.context c)

/-- A command to a placeholder under a condition. -/
theorem Grammar.isConsistent_told :
    let g : Grammar := ⟨Dictionary.standard.lexicon, {}⟩
    ∃ s, g.parse "sina wile la tenpo ni la jan Mato o o moku li pali!" "" = .ok s ∧
      s.simples.map SimpleSentence.placeholder = [false, true] ∧ ∀ t ∈ s.simples, t.IsConsistent := by
  intro g
  obtain ⟨s, hs, hplaceholders⟩ := map_eq_ok.1 (show (fun s ↦ s.simples.map SimpleSentence.placeholder) <$>
    g.parse "sina wile la tenpo ni la jan Mato o o moku li pali!" "" = .ok [false, true] by decide +kernel)
  exact ⟨s, hs, hplaceholders, Grammar.isConsistent_of_parse g hs⟩

end TokiPona
