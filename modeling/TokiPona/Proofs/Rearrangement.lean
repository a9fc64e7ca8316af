import Mathlib.Tactic.MkIffOfInductiveProp
import TokiPona.Proofs.Sorted

namespace TokiPona

mutual

/-- The same phrase but for the order of modifiers, its own and those of all that hangs off it. -/
@[mk_iff]
inductive Phrase.Rearranges : Phrase → Phrase → Prop
  | mk {head : Lexeme} {modifiers modifiers' : List Lexeme} {prepositions prepositions' : List PrepPhrase}
      (hmodifiers : modifiers.Perm modifiers')
      (hprepositions : List.Forall₂ PrepPhrase.Rearranges prepositions prepositions') :
      Phrase.Rearranges ⟨head, modifiers, prepositions⟩ ⟨head, modifiers', prepositions'⟩

@[mk_iff]
inductive PrepPhrase.Rearranges : PrepPhrase → PrepPhrase → Prop
  | mk {preposition : String} {complement complement' : Option Chain}
      (hcomplement : Option.Rel Chain.Rearranges complement complement') :
      PrepPhrase.Rearranges ⟨preposition, complement⟩ ⟨preposition, complement'⟩

@[mk_iff]
inductive Chain.Rearranges : Chain → Chain → Prop
  | phrases {p : Particle} {phrases phrases' : List Phrase} (h : List.Forall₂ Phrase.Rearranges phrases phrases') :
      Chain.Rearranges (.phrases p phrases) (.phrases p phrases')
  | links {p : Particle} {links links' : List Chain} (h : List.Forall₂ Chain.Rearranges links links') :
      Chain.Rearranges (.links p links) (.links p links')

end

mutual

theorem Phrase.alike_iff_rearranges : (p q : Phrase) → (p.alike q = true ↔ p.Rearranges q)
  | ⟨head, modifiers, prepositions⟩, ⟨head', modifiers', prepositions'⟩ => by
    rw [Phrase.alike, Phrase.rearranges_iff]
    simp [Lexeme.alike_iff_perm, PrepPhrase.allAlike_iff_rearranges prepositions prepositions', eq_comm (a := head),
      and_comm, and_left_comm, and_assoc]

theorem PrepPhrase.alike_iff_rearranges : (p q : PrepPhrase) → (p.alike q = true ↔ p.Rearranges q)
  | ⟨preposition, some complement⟩, ⟨preposition', some complement'⟩ => by
    rw [PrepPhrase.alike, PrepPhrase.rearranges_iff]
    simp [Chain.alike_iff_rearranges complement complement', eq_comm (a := preposition), and_comm]
  | ⟨preposition, none⟩, ⟨_, none⟩ => by
    simp [PrepPhrase.alike, PrepPhrase.rearranges_iff, eq_comm (a := preposition)]
  | ⟨_, none⟩, ⟨_, some _⟩ => by simp [PrepPhrase.alike, PrepPhrase.rearranges_iff]
  | ⟨_, some _⟩, ⟨_, none⟩ => by simp [PrepPhrase.alike, PrepPhrase.rearranges_iff]

theorem Chain.alike_iff_rearranges : (c d : Chain) → (c.alike d = true ↔ c.Rearranges d)
  | .phrases p phrases, .phrases p' phrases' => by
    rw [Chain.alike, Chain.rearranges_iff]
    simp [Phrase.allAlike_iff_rearranges phrases phrases', eq_comm (a := p), and_comm]
  | .links p links, .links p' links' => by
    rw [Chain.alike, Chain.rearranges_iff]
    simp [Chain.allAlike_iff_rearranges links links', eq_comm (a := p), and_comm]
  | .phrases _ _, .links _ _ => by simp [Chain.alike, Chain.rearranges_iff]
  | .links _ _, .phrases _ _ => by simp [Chain.alike, Chain.rearranges_iff]

theorem Phrase.allAlike_iff_rearranges : (ps qs : List Phrase) →
    (Phrase.allAlike ps qs = true ↔ List.Forall₂ Phrase.Rearranges ps qs)
  | p :: ps, q :: qs => by
    simp [Phrase.allAlike, Phrase.alike_iff_rearranges p q, Phrase.allAlike_iff_rearranges ps qs]
  | [], [] => by simp [Phrase.allAlike]
  | [], _ :: _ => by simp [Phrase.allAlike]
  | _ :: _, [] => by simp [Phrase.allAlike]

theorem PrepPhrase.allAlike_iff_rearranges : (ps qs : List PrepPhrase) →
    (PrepPhrase.allAlike ps qs = true ↔ List.Forall₂ PrepPhrase.Rearranges ps qs)
  | p :: ps, q :: qs => by
    simp [PrepPhrase.allAlike, PrepPhrase.alike_iff_rearranges p q, PrepPhrase.allAlike_iff_rearranges ps qs]
  | [], [] => by simp [PrepPhrase.allAlike]
  | [], _ :: _ => by simp [PrepPhrase.allAlike]
  | _ :: _, [] => by simp [PrepPhrase.allAlike]

theorem Chain.allAlike_iff_rearranges : (cs ds : List Chain) →
    (Chain.allAlike cs ds = true ↔ List.Forall₂ Chain.Rearranges cs ds)
  | c :: cs, d :: ds => by
    simp [Chain.allAlike, Chain.alike_iff_rearranges c d, Chain.allAlike_iff_rearranges cs ds]
  | [], [] => by simp [Chain.allAlike]
  | [], _ :: _ => by simp [Chain.allAlike]
  | _ :: _, [] => by simp [Chain.allAlike]

end

theorem Chain.alikeOption_iff_rearranges (c d : Option Chain) :
    Chain.alikeOption c d = true ↔ Option.Rel Chain.Rearranges c d := by
  cases c <;> cases d <;> simp [Chain.alikeOption, Chain.alike_iff_rearranges]

@[mk_iff]
structure VerbPhrase.Rearranges (v v' : VerbPhrase) : Prop where
  modals : v.modals = v'.modals
  head : v.head = v'.head
  adverbs : v.adverbs.Perm v'.adverbs

@[mk_iff]
inductive PredicateKind.Rearranges : PredicateKind → PredicateKind → Prop
  | verb {v v' : VerbPhrase} (h : v.Rearranges v') : PredicateKind.Rearranges (.verb v) (.verb v')
  | nominal {c c' : Chain} (h : c.Rearranges c') : PredicateKind.Rearranges (.nominal c) (.nominal c')
  | pi {c c' : Chain} (h : c.Rearranges c') : PredicateKind.Rearranges (.pi c) (.pi c')

@[mk_iff]
structure Predicate.Rearranges (p q : Predicate) : Prop where
  particle : p.particle = q.particle
  kind : p.kind.Rearranges q.kind
  objects : Option.Rel Chain.Rearranges p.objects q.objects
  prepositions : List.Forall₂ PrepPhrase.Rearranges p.prepositions q.prepositions

@[mk_iff]
inductive Context.Rearranges : Context → Context → Prop
  | chain {c c' : Chain} (h : c.Rearranges c') : Context.Rearranges (.chain c) (.chain c')
  | prepositional {phrases phrases' : List PrepPhrase} (h : List.Forall₂ PrepPhrase.Rearranges phrases phrases') :
      Context.Rearranges (.prepositional phrases) (.prepositional phrases')

@[mk_iff]
structure SimpleSentence.Rearranges (a b : SimpleSentence) : Prop where
  subject : Option.Rel Chain.Rearranges a.subject b.subject
  predicates : List.Forall₂ Predicate.Rearranges a.predicates b.predicates
  punctuation : a.punctuation = b.punctuation
  conjunction : a.conjunction = b.conjunction
  vocatives : List.Forall₂ Chain.Rearranges a.vocatives b.vocatives
  tagQuestion : a.tagQuestion = b.tagQuestion
  mood : a.mood = b.mood
  placeholder : a.placeholder = b.placeholder
  contexts : List.Forall₂ Context.Rearranges a.contexts b.contexts

theorem isEqv_iff_forall₂ {α : Type} {r : α → α → Bool} {R : α → α → Prop} (h : ∀ a b, r a b = true ↔ R a b)
    (as bs : List α) : as.isEqv bs r = true ↔ List.Forall₂ R as bs := by
  induction as generalizing bs with
  | nil => cases bs <;> simp [List.isEqv]
  | cons a as ih => cases bs <;> simp [List.isEqv, h, ih]

theorem VerbPhrase.alike_iff_rearranges (v v' : VerbPhrase) : v.alike v' = true ↔ v.Rearranges v' := by
  simp [VerbPhrase.alike, VerbPhrase.rearranges_iff, Lexeme.alike_iff_perm, and_assoc]

theorem PredicateKind.alike_iff_rearranges (k k' : PredicateKind) : k.alike k' = true ↔ k.Rearranges k' := by
  rw [PredicateKind.rearranges_iff]
  cases k <;> cases k' <;> simp [PredicateKind.alike, VerbPhrase.alike_iff_rearranges, Chain.alike_iff_rearranges]

theorem Predicate.alike_iff_rearranges (p q : Predicate) : p.alike q = true ↔ p.Rearranges q := by
  simp [Predicate.alike, Predicate.rearranges_iff, PredicateKind.alike_iff_rearranges,
    Chain.alikeOption_iff_rearranges, PrepPhrase.allAlike_iff_rearranges, and_assoc]

theorem Context.alike_iff_rearranges (c d : Context) : c.alike d = true ↔ c.Rearranges d := by
  rw [Context.rearranges_iff]
  cases c <;> cases d <;> simp [Context.alike, Chain.alike_iff_rearranges, PrepPhrase.allAlike_iff_rearranges]

theorem SimpleSentence.alike_iff_rearranges (a b : SimpleSentence) : a.alike b = true ↔ a.Rearranges b := by
  simp [SimpleSentence.alike, SimpleSentence.rearranges_iff, Chain.alikeOption_iff_rearranges,
    isEqv_iff_forall₂ Predicate.alike_iff_rearranges, Chain.allAlike_iff_rearranges,
    isEqv_iff_forall₂ Context.alike_iff_rearranges, and_assoc]

namespace Sentence

/-- The same sentence but for the order of modifiers and adverbs, at any depth. -/
@[mk_iff]
inductive Rearranges : Sentence → Sentence → Prop
  | simple {s s' : SimpleSentence} (h : s.Rearranges s') : Rearranges (simple s) (simple s')
  | conditional {preconditions preconditions' : List Sentence} {conclusion conclusion' : Sentence}
      (hpreconditions : List.Forall₂ Rearranges preconditions preconditions')
      (hconclusion : Rearranges conclusion conclusion') :
      Rearranges (conditional preconditions conclusion) (conditional preconditions' conclusion')
  | vocative {addressee addressee' : Chain} {p : Option Punctuation} (h : addressee.Rearranges addressee') :
      Rearranges (vocative addressee p) (vocative addressee' p)
  | fragment {context context' : Chain} {p : Option Punctuation} (h : context.Rearranges context') :
      Rearranges (fragment context p) (fragment context' p)
  | exclamation {phrase phrase' : Phrase} {p : Option Punctuation} (h : phrase.Rearranges phrase') :
      Rearranges (exclamation phrase p) (exclamation phrase' p)
  | comment (text : String) : Rearranges (comment text) (comment text)

mutual

theorem alike_iff_rearranges : (a b : Sentence) → (a.alike b = true ↔ a.Rearranges b)
  | simple s, b => by
    rw [rearranges_iff]
    cases b <;> simp [alike, s.alike_iff_rearranges]
  | conditional preconditions conclusion, b => by
    rw [rearranges_iff]
    cases b with
    | conditional preconditions' conclusion' =>
      simp [alike, allAlike_iff_rearranges preconditions preconditions', alike_iff_rearranges conclusion conclusion']
    | _ => simp [alike]
  | vocative addressee p, b => by
    rw [rearranges_iff]
    cases b <;> simp [alike, addressee.alike_iff_rearranges, eq_comm (a := p)]
  | fragment context p, b => by
    rw [rearranges_iff]
    cases b <;> simp [alike, context.alike_iff_rearranges, eq_comm (a := p)]
  | exclamation phrase p, b => by
    rw [rearranges_iff]
    cases b <;> simp [alike, phrase.alike_iff_rearranges, eq_comm (a := p)]
  | comment text, b => by
    rw [rearranges_iff]
    cases b <;> simp [alike, eq_comm (a := text)]

theorem allAlike_iff_rearranges : (as bs : List Sentence) → (allAlike as bs = true ↔ List.Forall₂ Rearranges as bs)
  | a :: as, b :: bs => by simp [allAlike, alike_iff_rearranges a b, allAlike_iff_rearranges as bs]
  | [], [] => by simp [allAlike]
  | [], _ :: _ => by simp [allAlike]
  | _ :: _, [] => by simp [allAlike]

end

@[simp] theorem punctuation_sorted (s : Sentence) : s.sorted.punctuation = s.punctuation := by
  fun_induction punctuation s <;> simp_all [sorted, punctuation, SimpleSentence.sorted]

theorem withoutPunctuation_sorted (s : Sentence) : s.sorted.withoutPunctuation = s.withoutPunctuation.sorted := by
  fun_induction withoutPunctuation s <;> simp_all [sorted, withoutPunctuation, SimpleSentence.sorted]

theorem eq_iff_withoutPunctuation (a b : Sentence) :
    a = b ↔ a.withoutPunctuation = b.withoutPunctuation ∧ a.punctuation = b.punctuation := by
  fun_induction withoutPunctuation a generalizing b with
  | case1 s =>
    cases b with
    | simple s' =>
      obtain ⟨⟩ := s
      obtain ⟨⟩ := s'
      simp [withoutPunctuation, punctuation, and_comm, and_left_comm, and_assoc]
    | _ => simp [withoutPunctuation]
  | case2 preconditions conclusion ih => cases b <;> simp [withoutPunctuation, punctuation, ih, and_assoc]
  | case3 addressee p => cases b <;> simp [withoutPunctuation, punctuation]
  | case4 context p => cases b <;> simp [withoutPunctuation, punctuation]
  | case5 phrase p => cases b <;> simp [withoutPunctuation, punctuation]
  | case6 text => cases b <;> simp [withoutPunctuation, punctuation]

theorem alike_iff_equivalent (a b : Sentence) :
    a.alike b = true ↔ a.equivalent b = true ∧ a.punctuation = b.punctuation := by
  rw [alike_iff, equivalent_iff, eq_iff_withoutPunctuation, withoutPunctuation_sorted, withoutPunctuation_sorted,
    punctuation_sorted, punctuation_sorted]

theorem equivalence_of_iff {α β : Type} {r : α → α → Prop} {f : α → β} (h : ∀ a b, r a b ↔ f a = f b) :
    Equivalence r where
  refl a := (h a a).2 rfl
  symm {a b} hab := (h b a).2 ((h a b).1 hab).symm
  trans {a b c} hab hbc := (h a c).2 (((h a b).1 hab).trans ((h b c).1 hbc))

/-- Likeness and equivalence are what they say. Modifiers or adverbs are alike when they are the same in some order, and
sentences when they agree at every node up to that; both relations on sentences are equivalences, which differ by the
mark alone; and alike sentences have the same words. -/
theorem alike_laws :
    (∀ as bs : List Lexeme, Lexeme.alike as bs = true ↔ as.Perm bs) ∧
      (∀ a b : Sentence, a.alike b = true ↔ a.Rearranges b) ∧
      Equivalence (fun a b : Sentence ↦ a.alike b = true) ∧
      Equivalence (fun a b : Sentence ↦ a.equivalent b = true) ∧
      (∀ a b : Sentence, a.alike b = true ↔ a.equivalent b = true ∧ a.punctuation = b.punctuation) ∧
      ∀ a b : Sentence, a.alike b = true → a.punctuation = b.punctuation ∧ a.words.Perm b.words := by
  refine ⟨fun as bs ↦ Lexeme.alike_iff_perm, alike_iff_rearranges, equivalence_of_iff alike_iff,
    equivalence_of_iff fun a b ↦ equivalent_iff, alike_iff_equivalent, fun a b h ↦ ?_⟩
  obtain ⟨hequivalent, hmark⟩ := (alike_iff_equivalent a b).1 h
  exact ⟨hmark, perm_words_of_equivalent hequivalent⟩

end Sentence

end TokiPona
