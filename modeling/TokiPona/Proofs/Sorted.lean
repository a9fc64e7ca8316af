import TokiPona.Facts
import TokiPona.Proofs.Likeness

namespace TokiPona

namespace Lexeme

theorem le_word {a b : String} : (word a).le (word b) = true ↔ a ≤ b := by simp [le]

theorem le_compound {h h' : String} {t t' : List String} :
    (compound h t).le (compound h' t') = true ↔ List.le (h :: t) (h' :: t') := by
  rw [le, Bool.not_eq_true']
  exact List.lex_eq_false_iff_ge

theorem le_trans : (a b c : Lexeme) → a.le b = true → b.le c = true → a.le c = true
  | word _, word _, word _, hab, hbc => le_word.2 (String.le_trans (le_word.1 hab) (le_word.1 hbc))
  | compound _ _, compound _ _, compound _ _, hab, hbc =>
    le_compound.2 (List.le_trans (le_compound.1 hab) (le_compound.1 hbc))
  | word _, _, compound _ _, _, _ => rfl
  | compound _ _, word _, _, hab, _ => by simp [le] at hab
  | _, compound _ _, word _, _, hbc => by simp [le] at hbc

theorem le_total : (a b : Lexeme) → (a.le b || b.le a) = true
  | word a, word b => by simpa only [Bool.or_eq_true, le_word] using String.le_total a b
  | compound h t, compound h' t' => by
    rw [Bool.or_eq_true, le_compound, le_compound]
    exact List.le_total (h :: t) (h' :: t')
  | word _, compound _ _ => rfl
  | compound _ _, word _ => rfl

theorem le_antisymm : (a b : Lexeme) → a.le b = true → b.le a = true → a = b
  | word _, word _, hab, hba => congrArg word (String.le_antisymm (le_word.1 hab) (le_word.1 hba))
  | compound _ _, compound _ _, hab, hba => by
    obtain ⟨rfl, rfl⟩ := List.cons.inj (List.le_antisymm (le_compound.1 hab) (le_compound.1 hba))
    rfl
  | word _, compound _ _, _, hba => by simp [le] at hba
  | compound _ _, word _, hab, _ => by simp [le] at hab

/-- The order of words has no ties, so lists that have the same lexemes are sorted to the same list. -/
theorem alike_iff_perm {as bs : List Lexeme} : alike as bs = true ↔ as.Perm bs := by
  refine ⟨perm_of_alike, fun h ↦ ?_⟩
  have hperm : (sort as).Perm (sort bs) :=
    ((List.mergeSort_perm as le).trans h).trans (List.mergeSort_perm bs le).symm
  have hsorted (ls : List Lexeme) : (sort ls).Pairwise fun a b ↦ a.le b = true :=
    List.pairwise_mergeSort le_trans le_total ls
  rw [alike, beq_iff_eq]
  exact hperm.eq_of_pairwise (fun a b _ _ ↦ le_antisymm a b) (hsorted as) (hsorted bs)

theorem perm_words_sort (ls : List Lexeme) : ((sort ls).flatMap words).Perm (ls.flatMap words) :=
  (List.mergeSort_perm ls le).flatMap_right words

end Lexeme

mutual

def Phrase.sorted : Phrase → Phrase
  | ⟨head, modifiers, prepositions⟩ => ⟨head, Lexeme.sort modifiers, PrepPhrase.sortedAll prepositions⟩

def PrepPhrase.sorted : PrepPhrase → PrepPhrase
  | ⟨preposition, none⟩ => ⟨preposition, none⟩
  | ⟨preposition, some complement⟩ => ⟨preposition, some complement.sorted⟩

def Chain.sorted : Chain → Chain
  | .phrases p phrases => .phrases p (Phrase.sortedAll phrases)
  | .links p links => .links p (Chain.sortedAll links)

def Phrase.sortedAll : List Phrase → List Phrase
  | [] => []
  | phrase :: rest => phrase.sorted :: Phrase.sortedAll rest

def PrepPhrase.sortedAll : List PrepPhrase → List PrepPhrase
  | [] => []
  | phrase :: rest => phrase.sorted :: PrepPhrase.sortedAll rest

def Chain.sortedAll : List Chain → List Chain
  | [] => []
  | chain :: rest => chain.sorted :: Chain.sortedAll rest

end

mutual

theorem Phrase.alike_iff : (p q : Phrase) → (p.alike q = true ↔ p.sorted = q.sorted)
  | ⟨head, modifiers, prepositions⟩, ⟨head', modifiers', prepositions'⟩ => by
    simp [Phrase.alike, Phrase.sorted, Lexeme.alike, PrepPhrase.allAlike_iff prepositions prepositions', and_assoc]

theorem PrepPhrase.alike_iff : (p q : PrepPhrase) → (p.alike q = true ↔ p.sorted = q.sorted)
  | ⟨preposition, some complement⟩, ⟨preposition', some complement'⟩ => by
    simp [PrepPhrase.alike, PrepPhrase.sorted, Chain.alike_iff complement complement']
  | ⟨_, none⟩, ⟨_, none⟩ => by simp [PrepPhrase.alike, PrepPhrase.sorted]
  | ⟨_, none⟩, ⟨_, some _⟩ => by simp [PrepPhrase.alike, PrepPhrase.sorted]
  | ⟨_, some _⟩, ⟨_, none⟩ => by simp [PrepPhrase.alike, PrepPhrase.sorted]

theorem Chain.alike_iff : (c d : Chain) → (c.alike d = true ↔ c.sorted = d.sorted)
  | .phrases p phrases, .phrases p' phrases' => by
    simp [Chain.alike, Chain.sorted, Phrase.allAlike_iff phrases phrases']
  | .links p links, .links p' links' => by simp [Chain.alike, Chain.sorted, Chain.allAlike_iff links links']
  | .phrases _ _, .links _ _ => by simp [Chain.alike, Chain.sorted]
  | .links _ _, .phrases _ _ => by simp [Chain.alike, Chain.sorted]

theorem Phrase.allAlike_iff : (ps qs : List Phrase) →
    (Phrase.allAlike ps qs = true ↔ Phrase.sortedAll ps = Phrase.sortedAll qs)
  | p :: ps, q :: qs => by simp [Phrase.allAlike, Phrase.sortedAll, Phrase.alike_iff p q, Phrase.allAlike_iff ps qs]
  | [], [] => by simp [Phrase.allAlike]
  | [], _ :: _ => by simp [Phrase.allAlike, Phrase.sortedAll]
  | _ :: _, [] => by simp [Phrase.allAlike, Phrase.sortedAll]

theorem PrepPhrase.allAlike_iff : (ps qs : List PrepPhrase) →
    (PrepPhrase.allAlike ps qs = true ↔ PrepPhrase.sortedAll ps = PrepPhrase.sortedAll qs)
  | p :: ps, q :: qs => by
    simp [PrepPhrase.allAlike, PrepPhrase.sortedAll, PrepPhrase.alike_iff p q, PrepPhrase.allAlike_iff ps qs]
  | [], [] => by simp [PrepPhrase.allAlike]
  | [], _ :: _ => by simp [PrepPhrase.allAlike, PrepPhrase.sortedAll]
  | _ :: _, [] => by simp [PrepPhrase.allAlike, PrepPhrase.sortedAll]

theorem Chain.allAlike_iff : (cs ds : List Chain) →
    (Chain.allAlike cs ds = true ↔ Chain.sortedAll cs = Chain.sortedAll ds)
  | c :: cs, d :: ds => by simp [Chain.allAlike, Chain.sortedAll, Chain.alike_iff c d, Chain.allAlike_iff cs ds]
  | [], [] => by simp [Chain.allAlike]
  | [], _ :: _ => by simp [Chain.allAlike, Chain.sortedAll]
  | _ :: _, [] => by simp [Chain.allAlike, Chain.sortedAll]

end

mutual

theorem Phrase.perm_words_sorted : (p : Phrase) → p.sorted.words.Perm p.words
  | ⟨_, modifiers, prepositions⟩ =>
    ((Lexeme.perm_words_sort modifiers).append_left _).append (PrepPhrase.perm_words_sortedAll prepositions)

theorem PrepPhrase.perm_words_sorted : (p : PrepPhrase) → p.sorted.words.Perm p.words
  | ⟨_, none⟩ => .refl _
  | ⟨preposition, some complement⟩ => (Chain.perm_words_sorted complement).cons preposition

theorem Chain.perm_words_sorted : (c : Chain) → c.sorted.words.Perm c.words
  | .phrases _ phrases => Phrase.perm_words_sortedAll phrases
  | .links _ links => Chain.perm_words_sortedAll links

theorem Phrase.perm_words_sortedAll : (ps : List Phrase) →
    (Phrase.wordLists (Phrase.sortedAll ps)).flatten.Perm (Phrase.wordLists ps).flatten
  | [] => .refl _
  | p :: ps => (Phrase.perm_words_sorted p).append (Phrase.perm_words_sortedAll ps)

theorem PrepPhrase.perm_words_sortedAll : (ps : List PrepPhrase) →
    (PrepPhrase.wordLists (PrepPhrase.sortedAll ps)).flatten.Perm (PrepPhrase.wordLists ps).flatten
  | [] => .refl _
  | p :: ps => (PrepPhrase.perm_words_sorted p).append (PrepPhrase.perm_words_sortedAll ps)

theorem Chain.perm_words_sortedAll : (cs : List Chain) →
    (Chain.wordLists (Chain.sortedAll cs)).flatten.Perm (Chain.wordLists cs).flatten
  | [] => .refl _
  | c :: cs => (Chain.perm_words_sorted c).append (Chain.perm_words_sortedAll cs)

end

@[simp] theorem PrepPhrase.sortedAll_eq_map (ps : List PrepPhrase) :
    PrepPhrase.sortedAll ps = ps.map PrepPhrase.sorted := by
  induction ps with
  | nil => rfl
  | cons p ps ih => simp [PrepPhrase.sortedAll, ih]

@[simp] theorem Chain.sortedAll_eq_map (cs : List Chain) : Chain.sortedAll cs = cs.map Chain.sorted := by
  induction cs with
  | nil => rfl
  | cons c cs ih => simp [Chain.sortedAll, ih]

theorem Chain.alikeOption_iff (c d : Option Chain) :
    Chain.alikeOption c d = true ↔ c.map Chain.sorted = d.map Chain.sorted := by
  cases c <;> cases d <;> simp [Chain.alikeOption, Chain.alike_iff]

theorem forall₂_comp {α β γ : Type} {R : α → β → Prop} {S : β → γ → Prop} {T : α → γ → Prop}
    (h : ∀ a b c, R a b → S b c → T a c) {as : List α} {bs : List β} {cs : List γ} (hab : List.Forall₂ R as bs)
    (hbc : List.Forall₂ S bs cs) : List.Forall₂ T as cs := by
  induction hab generalizing cs with
  | nil =>
    cases hbc
    exact .nil
  | cons hab _ ih =>
    obtain _ | ⟨hbc, hrest⟩ := hbc
    exact .cons (h _ _ _ hab hbc) (ih hrest)

section

variable {α : Type} {f : α → α} {words : α → List String}

theorem isEqv_iff {r : α → α → Bool} (h : ∀ a b, r a b = true ↔ f a = f b) (as bs : List α) :
    as.isEqv bs r = true ↔ as.map f = bs.map f := by
  induction as generalizing bs with
  | nil => cases bs <;> simp [List.isEqv]
  | cons a as ih => cases bs <;> simp [List.isEqv, h, ih]

theorem forall₂_perm_map (h : ∀ a, (words (f a)).Perm (words a)) (as : List α) :
    List.Forall₂ List.Perm ((as.map f).map words) (as.map words) := by
  simpa [List.forall₂_map_left_iff, List.forall₂_map_right_iff, List.forall₂_same] using fun a _ ↦ h a

theorem perm_flatMap_map (h : ∀ a, (words (f a)).Perm (words a)) (as : List α) :
    ((as.map f).flatMap words).Perm (as.flatMap words) := by
  rw [List.flatMap_def, List.flatMap_def]
  exact perm_flatten (forall₂_perm_map h as)

end

def VerbPhrase.sorted (v : VerbPhrase) : VerbPhrase := { v with adverbs := Lexeme.sort v.adverbs }

def PredicateKind.sorted : PredicateKind → PredicateKind
  | verb v => verb v.sorted
  | nominal chain => nominal chain.sorted
  | pi chain => pi chain.sorted

def Predicate.sorted (p : Predicate) : Predicate :=
  ⟨p.particle, p.kind.sorted, p.objects.map Chain.sorted, p.prepositions.map PrepPhrase.sorted⟩

theorem PredicateKind.alike_iff (k k' : PredicateKind) : k.alike k' = true ↔ k.sorted = k'.sorted := by
  cases k <;> cases k' <;>
    simp [PredicateKind.alike, PredicateKind.sorted, VerbPhrase.alike, VerbPhrase.sorted, Lexeme.alike, Chain.alike_iff,
      and_assoc]

theorem Predicate.alike_iff (p q : Predicate) : p.alike q = true ↔ p.sorted = q.sorted := by
  simp [Predicate.alike, Predicate.sorted, PredicateKind.alike_iff, Chain.alikeOption_iff, PrepPhrase.allAlike_iff,
    and_assoc]

theorem PredicateKind.perm_words_sorted (k : PredicateKind) : k.sorted.words.Perm k.words := by
  cases k with
  | verb v =>
    simp only [PredicateKind.words, PredicateKind.sorted, VerbPhrase.words, VerbPhrase.sorted, VerbPhrase.lexemes,
      List.flatMap_append]
    exact (Lexeme.perm_words_sort v.adverbs).append_left _
  | nominal chain => exact chain.perm_words_sorted
  | pi chain => exact chain.perm_words_sorted

theorem Chain.perm_words_option (c : Option Chain) :
    ((c.map Chain.sorted).toList.flatMap Chain.words).Perm (c.toList.flatMap Chain.words) := by
  cases c with
  | none => exact .refl _
  | some c => simpa using c.perm_words_sorted

theorem Predicate.perm_words_sorted (p : Predicate) : p.sorted.words.Perm p.words :=
  (p.kind.perm_words_sorted.append (Chain.perm_words_option p.objects)).append
    (perm_flatMap_map PrepPhrase.perm_words_sorted p.prepositions)

def Context.sorted : Context → Context
  | chain c => chain c.sorted
  | prepositional phrases => prepositional (phrases.map PrepPhrase.sorted)

def SimpleSentence.sorted (s : SimpleSentence) : SimpleSentence :=
  { s with
    subject := s.subject.map Chain.sorted
    predicates := s.predicates.map Predicate.sorted
    vocatives := s.vocatives.map Chain.sorted
    contexts := s.contexts.map Context.sorted }

theorem Context.alike_iff (c d : Context) : c.alike d = true ↔ c.sorted = d.sorted := by
  cases c <;> cases d <;> simp [Context.alike, Context.sorted, Chain.alike_iff, PrepPhrase.allAlike_iff]

theorem Context.perm_words_sorted (c : Context) : c.sorted.words.Perm c.words := by
  cases c with
  | chain c => exact c.perm_words_sorted
  | prepositional phrases => exact perm_flatMap_map PrepPhrase.perm_words_sorted phrases

theorem SimpleSentence.alike_iff (a b : SimpleSentence) : a.alike b = true ↔ a.sorted = b.sorted := by
  simp [SimpleSentence.alike, SimpleSentence.sorted, Chain.alikeOption_iff, isEqv_iff Predicate.alike_iff,
    Chain.allAlike_iff, isEqv_iff Context.alike_iff, and_assoc]

theorem SimpleSentence.perm_words_sorted (s : SimpleSentence) : s.sorted.words.Perm s.words :=
  (((perm_flatMap_map Chain.perm_words_sorted s.vocatives).append
    (perm_flatMap_map Context.perm_words_sorted s.contexts)).append (Chain.perm_words_option s.subject)).append
    (perm_flatMap_map Predicate.perm_words_sorted s.predicates)

namespace Sentence

mutual

def sorted : Sentence → Sentence
  | simple s => simple s.sorted
  | conditional preconditions conclusion => conditional (sortedAll preconditions) conclusion.sorted
  | vocative addressee p => vocative addressee.sorted p
  | fragment context p => fragment context.sorted p
  | exclamation phrase p => exclamation phrase.sorted p
  | comment text => comment text

def sortedAll : List Sentence → List Sentence
  | [] => []
  | s :: rest => s.sorted :: sortedAll rest

end

mutual

theorem alike_iff : (a b : Sentence) → (a.alike b = true ↔ a.sorted = b.sorted)
  | simple s, b => by cases b <;> simp [alike, sorted, s.alike_iff]
  | conditional preconditions conclusion, b => by
    cases b with
    | conditional preconditions' conclusion' =>
      simp [alike, sorted, allAlike_iff preconditions preconditions', alike_iff conclusion conclusion']
    | _ => simp [alike, sorted]
  | vocative addressee p, b => by cases b <;> simp [alike, sorted, addressee.alike_iff]
  | fragment context p, b => by cases b <;> simp [alike, sorted, context.alike_iff]
  | exclamation phrase p, b => by cases b <;> simp [alike, sorted, phrase.alike_iff]
  | comment text, b => by cases b <;> simp [alike, sorted]

theorem allAlike_iff : (as bs : List Sentence) → (allAlike as bs = true ↔ sortedAll as = sortedAll bs)
  | a :: as, b :: bs => by simp [allAlike, sortedAll, alike_iff a b, allAlike_iff as bs]
  | [], [] => by simp [allAlike]
  | [], _ :: _ => by simp [allAlike, sortedAll]
  | _ :: _, [] => by simp [allAlike, sortedAll]

end

mutual

theorem perm_words_sorted : (s : Sentence) → s.sorted.words.Perm s.words
  | simple s => s.perm_words_sorted
  | conditional preconditions conclusion =>
    (perm_words_sortedAll preconditions).append (perm_words_sorted conclusion)
  | vocative addressee _ => addressee.perm_words_sorted
  | fragment context _ => context.perm_words_sorted
  | exclamation phrase _ => phrase.perm_words_sorted
  | comment _ => .refl _

theorem perm_words_sortedAll : (ss : List Sentence) → (wordLists (sortedAll ss)).flatten.Perm (wordLists ss).flatten
  | [] => .refl _
  | s :: ss => (perm_words_sorted s).append (perm_words_sortedAll ss)

end

mutual

theorem perm_segments_sorted : (s : Sentence) → List.Forall₂ List.Perm s.sorted.segments s.segments
  | simple s => by
    refine List.rel_append ?_ (forall₂_perm_map Predicate.perm_words_sorted s.predicates)
    rcases h : s.subject with _ | subject
    · simp [SimpleSentence.sorted, h]
    · simpa [SimpleSentence.sorted, h] using subject.perm_words_sorted
  | conditional preconditions conclusion =>
    List.rel_append (perm_segments_sortedAll preconditions) (perm_segments_sorted conclusion)
  | vocative addressee _ => .cons addressee.perm_words_sorted .nil
  | fragment context _ => .cons context.perm_words_sorted .nil
  | exclamation phrase _ => .cons phrase.perm_words_sorted .nil
  | comment _ => .nil

theorem perm_segments_sortedAll : (ss : List Sentence) →
    List.Forall₂ List.Perm (segmentLists (sortedAll ss)).flatten (segmentLists ss).flatten
  | [] => .nil
  | s :: ss => List.rel_append (perm_segments_sorted s) (perm_segments_sortedAll ss)

end

@[simp] theorem words_withoutPunctuation (s : Sentence) : s.withoutPunctuation.words = s.words := by
  fun_induction withoutPunctuation s <;> simp_all [words, SimpleSentence.words]

@[simp] theorem segments_withoutPunctuation (s : Sentence) : s.withoutPunctuation.segments = s.segments := by
  fun_induction withoutPunctuation s <;> simp_all [segments]

theorem equivalent_iff {a b : Sentence} :
    a.equivalent b = true ↔ a.withoutPunctuation.sorted = b.withoutPunctuation.sorted :=
  alike_iff _ _

section

variable {a b : Sentence}

theorem perm_words_of_equivalent (h : a.equivalent b = true) : a.words.Perm b.words := by
  have ha := a.withoutPunctuation.perm_words_sorted
  have hb := b.withoutPunctuation.perm_words_sorted
  rw [equivalent_iff.1 h] at ha
  simpa using ha.symm.trans hb

theorem perm_segments_of_equivalent (h : a.equivalent b = true) : List.Forall₂ List.Perm a.segments b.segments := by
  have ha := a.withoutPunctuation.perm_segments_sorted
  have hb := b.withoutPunctuation.perm_segments_sorted
  rw [equivalent_iff.1 h] at ha
  rw [segments_withoutPunctuation] at ha hb
  exact forall₂_comp (fun _ _ _ hab hbc ↦ hab.trans hbc) (ha.imp fun _ _ ↦ List.Perm.symm).flip hb

end

end Sentence

end TokiPona
