import TokiPona.Proofs.ChainWords
import TokiPona.Proofs.Content
import TokiPona.Proofs.Recall

/-!
Where the prepositions of a predicate go. Each becomes a prepositional phrase of the predicate or of one of its phrases,
or, with nothing to govern and no other verb, the verb itself. Two kinds are missed: those that stand in a verb before an
object, which are read as words like any other, and a verb that keeps a second mark.
-/

namespace TokiPona

mutual

/-- The prepositional phrases of a phrase in order, those inside of others included. -/
def Phrase.nodes : Phrase → List PrepPhrase
  | ⟨_, _, prepositions⟩ => (PrepPhrase.nodeLists prepositions).flatten

def PrepPhrase.nodes : PrepPhrase → List PrepPhrase
  | ⟨preposition, none⟩ => [⟨preposition, none⟩]
  | ⟨preposition, some complement⟩ => ⟨preposition, some complement⟩ :: complement.nodes

def Chain.nodes : Chain → List PrepPhrase
  | .phrases _ phrases => (Phrase.nodeLists phrases).flatten
  | .links _ links => (Chain.nodeLists links).flatten

def Phrase.nodeLists : List Phrase → List (List PrepPhrase)
  | [] => []
  | phrase :: rest => phrase.nodes :: Phrase.nodeLists rest

def PrepPhrase.nodeLists : List PrepPhrase → List (List PrepPhrase)
  | [] => []
  | phrase :: rest => phrase.nodes :: PrepPhrase.nodeLists rest

def Chain.nodeLists : List Chain → List (List PrepPhrase)
  | [] => []
  | chain :: rest => chain.nodes :: Chain.nodeLists rest

end

@[simp] theorem Phrase.nodeLists_eq_map (xs : List Phrase) : Phrase.nodeLists xs = xs.map Phrase.nodes := by
  induction xs with
  | nil => rfl
  | cons x xs ih => simp [Phrase.nodeLists, ih]

@[simp] theorem PrepPhrase.nodeLists_eq_map (xs : List PrepPhrase) : PrepPhrase.nodeLists xs = xs.map PrepPhrase.nodes := by
  induction xs with
  | nil => rfl
  | cons x xs ih => simp [PrepPhrase.nodeLists, ih]

@[simp] theorem Chain.nodeLists_eq_map (xs : List Chain) : Chain.nodeLists xs = xs.map Chain.nodes := by
  induction xs with
  | nil => rfl
  | cons x xs ih => simp [Chain.nodeLists, ih]

def PredicateKind.nodes : PredicateKind → List PrepPhrase
  | .verb _ => []
  | .nominal chain | .pi chain => chain.nodes

def Predicate.nodes (p : Predicate) : List PrepPhrase :=
  p.kind.nodes ++ p.objects.toList.flatMap Chain.nodes ++ p.prepositions.flatMap PrepPhrase.nodes

def PredicateKind.verbWords : PredicateKind → List String
  | .verb v => v.words
  | .nominal _ | .pi _ => []

namespace Reading

variable {lex : Lexicon} {words clause : List String}

def prepositionsIn (words : List String) : List String := (words.filter Word.isPreposition).map Word.bare

@[simp] theorem prepositionsIn_nil : prepositionsIn [] = [] := rfl

@[simp] theorem prepositionsIn_append (words words' : List String) :
    prepositionsIn (words ++ words') = prepositionsIn words ++ prepositionsIn words' := by
  simp [prepositionsIn]

@[simp] theorem prepositionsIn_word_cons (p : Particle) (words : List String) :
    prepositionsIn (p.word :: words) = prepositionsIn words := by
  simp [prepositionsIn, isPreposition_word]

theorem prepositionsIn_eq_nil : prepositionsIn words = [] ↔ NoPreposition words := by
  simp [prepositionsIn, NoPreposition]

def prepositionYield : Yield String where
  ofWord w := if Word.isPreposition w then [Word.bare w] else []
  phrase p := p.nodes.map PrepPhrase.preposition
  prepPhrase p := p.nodes.map PrepPhrase.preposition
  chain c := c.nodes.map PrepPhrase.preposition
  ofWord_pi := by decide
  ofWord_en := by decide
  phrase_mk head modifiers prepositions h := by
    have hplain : (head.words ++ modifiers.flatMap Lexeme.words).flatMap
        (fun w ↦ if Word.isPreposition w then [Word.bare w] else []) = [] := by
      rw [List.flatMap_eq_nil_iff]
      intro w hw
      simp [(h w hw).2]
    rw [hplain, Phrase.nodes, PrepPhrase.nodeLists_eq_map, ← List.flatMap_def, List.map_flatMap, List.nil_append]
  prepPhrase_mk w complement hw := by cases complement <;> simp [PrepPhrase.nodes, hw]
  chain_phrases p phrases := by rw [Chain.nodes, Phrase.nodeLists_eq_map, ← List.flatMap_def, List.map_flatMap]
  chain_links p links := by rw [Chain.nodes, Chain.nodeLists_eq_map, ← List.flatMap_def, List.map_flatMap]

theorem ofWords_prepositionYield (words : List String) : prepositionYield.ofWords words = prepositionsIn words := by
  induction words with
  | nil => rfl
  | cons w words ih =>
    have hcons : prepositionYield.ofWords (w :: words) = prepositionYield.ofWord w ++ prepositionYield.ofWords words :=
      List.flatMap_cons
    rw [hcons, ih]
    cases hw : Word.isPreposition w <;> simp [prepositionYield, prepositionsIn, hw]

theorem prepositions_chain {c : Chain} (h : (chain lex words : Except ParseError Chain) = .ok c) :
    c.nodes.map PrepPhrase.preposition = prepositionsIn words :=
  (prepositionYield.of_chain h).trans (ofWords_prepositionYield words)

theorem prepositions_phrases {pieces : List (List String)} {phrases : List PrepPhrase}
    (h : List.Forall₂ (ReadsPrepPhrase lex) pieces phrases) :
    (phrases.flatMap PrepPhrase.nodes).map PrepPhrase.preposition = prepositionsIn pieces.flatten := by
  have hpieces := prepositionYield.flatMap_of_forall₂ h (fun _ _ _ ↦ prepositionYield.of_readsPrepPhrase)
  rw [← prepositionYield.ofWords_flatten, ofWords_prepositionYield] at hpieces
  rw [List.map_flatMap]
  exact hpieces

theorem prepositions_objects {objects : List (List String)} {chains : List Chain}
    (h : List.Forall₂ (fun object c ↦ (chain lex object : Except ParseError Chain) = .ok c) objects chains) :
    (Chain.links .e chains).nodes.map PrepPhrase.preposition =
      prepositionsIn (objects.flatMap (Particle.e.word :: ·)) := by
  rw [Chain.nodes, Chain.nodeLists_eq_map, ← List.flatMap_def, List.map_flatMap]
  induction h with
  | nil => rfl
  | cons hc _ ih => simp [prepositions_chain hc, ih]

theorem prepositions_predicateKind {verb : List String} {kind : Option PredicateKind}
    (h : (predicateKind lex verb : Except ParseError (Option PredicateKind)) = .ok kind) :
    (Particle.pi.word ∈ verb ∧ (kind.getD (.verb {})).verbWords = [] ∧
        (kind.getD (.verb {})).nodes.map PrepPhrase.preposition = prepositionsIn verb) ∨
      (Particle.pi.word ∉ verb ∧ (kind.getD (.verb {})).verbWords = verb ∧ (kind.getD (.verb {})).nodes = []) := by
  have hnominal {words : List String} {link : Chain} (hlink : (chain lex words : Except ParseError Chain) = .ok link) :
      (Chain.links .en [link]).nodes.map PrepPhrase.preposition = prepositionsIn words := by
    simpa [Chain.nodes] using prepositions_chain hlink
  cases predicateKind_eq_ok.1 h with
  | nothing => exact .inr ⟨by simp, rfl, rfl⟩
  | pi hlink => exact .inl ⟨by simp, rfl, (hnominal hlink).trans (prepositionsIn_word_cons .pi _).symm⟩
  | nominal hpi _ hlink => exact .inl ⟨hpi, rfl, hnominal hlink⟩
  | verb _ hpi => exact .inr ⟨hpi, words_verbPhrase lex verb, rfl⟩

def verbPart (clause : List String) : List String := (clause.drop 1).takeWhile (!isE ·)

/-- A preposition is taken for a word: it stands in a verb before an object, or it becomes the verb and is marked twice. -/
def HidesPreposition (clause : List String) : Prop :=
  (Particle.e.word ∈ clause ∧ Particle.pi.word ∉ verbPart clause ∧ ¬ NoPreposition (verbPart clause)) ∨
    ∃ w ∈ lonePreposition? clause, Word.isPreposition w = true

/-- Every preposition of the clause, in order, has a prepositional phrase of its own, but for one that governs nothing
and is the verb; and no word of a verb is marked. -/
structure ReadsPrepositions (clause : List String) (p : Predicate) : Prop where
  nodes : p.nodes.map PrepPhrase.preposition = prepositionsIn clause ∨
    ∃ before w after, clause = before ++ w :: after ∧ Word.isPreposition w = true ∧
      (∀ v ∈ after.head?, Word.isPreposition v = true) ∧ p.kind = .verb { head := some (.word (Word.bare w)) } ∧
      p.nodes.map PrepPhrase.preposition = prepositionsIn (before ++ after)
  verb : NoPreposition p.kind.verbWords

theorem verbPart_joined {verb : List String} (hverb : ∀ w ∈ verb, isE w = false) (w : String) (init : List (List String))
    (last : List String) (pieces : List (List String)) : verbPart (w :: joined verb (init ++ [last]) pieces) = verb := by
  obtain ⟨object, objects, hobjects⟩ := List.exists_cons_of_ne_nil (by simp : init ++ [last] ≠ [])
  have hstop : ∀ words, (Particle.e.word :: words).takeWhile (!isE ·) = [] := fun words ↦ by simp [isE_word]
  rw [verbPart, hobjects, joined, List.drop_one, List.tail_cons, List.append_assoc,
    List.takeWhile_append_of_pos (by simpa using hverb), List.flatMap_cons, List.cons_append, List.cons_append, hstop,
    List.append_nil]

theorem prepositionsIn_joined (particle : Particle) (verb : List String) (objects pieces : List (List String)) :
    prepositionsIn (particle.word :: joined verb objects pieces) =
      prepositionsIn verb ++ prepositionsIn (objects.flatMap (Particle.e.word :: ·)) ++ prepositionsIn pieces.flatten := by
  simp [joined]

theorem map_nodes {particle : Particle} {kind : PredicateKind} {objects : Option Chain} {pieces : List (List String)}
    {phrases : List PrepPhrase} (h : List.Forall₂ (ReadsPrepPhrase lex) pieces phrases) :
    (Predicate.nodes ⟨particle, kind, objects, phrases⟩).map PrepPhrase.preposition =
      kind.nodes.map PrepPhrase.preposition ++ (objects.toList.flatMap Chain.nodes).map PrepPhrase.preposition ++
        prepositionsIn pieces.flatten := by
  rw [Predicate.nodes, List.map_append, List.map_append, prepositions_phrases h]

section

variable {particle : Particle} {verb last : List String} {kind : Option PredicateKind} {init pieces : List (List String)}
  {chains : List Chain} {phrases : List PrepPhrase}

theorem readsPrepositions_transitive (hcut : IsCut verb init last pieces)
    (hkind : (predicateKind lex verb : Except ParseError (Option PredicateKind)) = .ok kind)
    (hchains : List.Forall₂ (fun object c ↦ (chain lex object : Except ParseError Chain) = .ok c) (init ++ [last]) chains)
    (hphrases : List.Forall₂ (ReadsPrepPhrase lex) pieces phrases) :
    ReadsPrepositions (particle.word :: joined verb (init ++ [last]) pieces)
        ⟨particle, kind.getD (.verb {}), some (.links .e chains), phrases⟩ ↔
      ¬ HidesPreposition (particle.word :: joined verb (init ++ [last]) pieces) := by
  have he : Particle.e.word ∈ particle.word :: joined verb (init ++ [last]) pieces := by simp [joined]
  have hpart := verbPart_joined hcut.verb particle.word init last pieces
  have hhides : HidesPreposition (particle.word :: joined verb (init ++ [last]) pieces) ↔
      Particle.pi.word ∉ verb ∧ ¬ NoPreposition verb := by
    simp [HidesPreposition, hpart, he, lonePreposition?_of_e he]
  have hobjects := prepositions_objects hchains
  rw [hhides]
  rcases prepositions_predicateKind hkind with ⟨hpi, hwords, hkept⟩ | ⟨hpi, hwords, hkept⟩
  · refine iff_of_true ⟨.inl ?_, by simp [hwords, NoPreposition]⟩ (fun h ↦ h.1 hpi)
    rw [map_nodes hphrases, prepositionsIn_joined, hkept, ← hobjects]
    simp
  · constructor
    · intro h hnot
      apply hnot.2
      rw [← hwords]
      exact h.verb
    · intro h
      have hplain : NoPreposition verb := by_contra fun hnot ↦ h ⟨hpi, hnot⟩
      refine ⟨.inl ?_, by rwa [hwords]⟩
      rw [map_nodes hphrases, prepositionsIn_joined, hkept, ← hobjects, prepositionsIn_eq_nil.2 hplain]
      simp

theorem readsPrepositions_intransitive (hgov : particle.isGoverning = true) (he : ∀ w ∈ verb, isE w = false)
    (hverb : NoPreposition verb)
    (hkind : (predicateKind lex verb : Except ParseError (Option PredicateKind)) = .ok kind)
    (hfull : kind = none → ∀ piece ∈ pieces, piece.length ≠ 1)
    (hphrases : List.Forall₂ (ReadsPrepPhrase lex) pieces phrases) :
    ReadsPrepositions (particle.word :: joined verb [] pieces) ⟨particle, kind.getD (.verb {}), none, phrases⟩ ∧
      ¬ HidesPreposition (particle.word :: joined verb [] pieces) := by
  have hno : Particle.e.word ∉ particle.word :: joined verb [] pieces :=
    e_notMem_governed hgov he (fun piece hpiece ↦ (opens_of_reads hphrases piece hpiece).2)
  have hlone := lonePreposition?_of_full hgov he hverb hkind hfull hphrases
  refine ⟨?_, by simp [HidesPreposition, hno, hlone]⟩
  have hplain := prepositionsIn_eq_nil.2 hverb
  rcases prepositions_predicateKind hkind with ⟨-, hwords, hkept⟩ | ⟨-, hwords, hkept⟩
  · refine ⟨.inl ?_, by simp [hwords, NoPreposition]⟩
    rw [map_nodes hphrases, prepositionsIn_joined, hkept, hplain]
    simp
  · refine ⟨.inl ?_, by rwa [hwords]⟩
    rw [map_nodes hphrases, prepositionsIn_joined, hkept, hplain]
    simp

end

theorem readsPrepositions_promoted {particle : Particle} {before after : List (List String)} {w : String}
    {phrases : List PrepPhrase} (hgov : particle.isGoverning = true) (hw : Word.isPreposition w = true)
    (hfull : ∀ piece ∈ before, piece.length ≠ 1)
    (hphrases : List.Forall₂ (ReadsPrepPhrase lex) (before ++ after) phrases) :
    ReadsPrepositions (particle.word :: joined [] [] (before ++ [w] :: after))
        ⟨particle, .verb { head := some (.word (Word.bare w)) }, none, phrases⟩ ↔
      ¬ HidesPreposition (particle.word :: joined [] [] (before ++ [w] :: after)) := by
  have hpieces := opens_of_promoted hw hphrases
  have hno : Particle.e.word ∉ particle.word :: joined [] [] (before ++ [w] :: after) :=
    e_notMem_governed hgov (by simp) (fun piece hpiece ↦ (hpieces piece hpiece).2)
  have hhides : HidesPreposition (particle.word :: joined [] [] (before ++ [w] :: after)) ↔
      Word.isPreposition (Word.bare w) = true := by
    simp [HidesPreposition, hno, lonePreposition?_promoted hgov hfull hpieces]
  rw [hhides, Bool.not_eq_true]
  constructor
  · intro h
    exact h.verb (Word.bare w) (by simp [PredicateKind.verbWords, VerbPhrase.words, VerbPhrase.lexemes, Lexeme.words])
  · intro h
    refine ⟨.inr ⟨particle.word :: before.flatten, w, after.flatten, by simp [joined], hw, ?_, rfl, ?_⟩, ?_⟩
    · cases after with
      | nil => simp
      | cons piece others =>
        obtain ⟨v, rest, rfl, hv, -⟩ := (hpieces piece (by simp)).1
        simpa using hv
    · rw [map_nodes hphrases]
      simp [PredicateKind.nodes]
    · simpa [NoPreposition, PredicateKind.verbWords, VerbPhrase.words, VerbPhrase.lexemes, Lexeme.words] using h

theorem ReadsPredicate.readsPrepositions_iff {p : Predicate} (h : ReadsPredicate lex clause p) :
    ReadsPrepositions clause p ↔ ¬ HidesPreposition clause := by
  cases h with
  | transitive hgov hcut hkind hchains hphrases => exact readsPrepositions_transitive hcut hkind hchains hphrases
  | intransitive hgov hne he hverb hkind hfull hphrases =>
    obtain ⟨hreads, hhides⟩ := readsPrepositions_intransitive hgov he hverb hkind hfull hphrases
    exact iff_of_true hreads hhides
  | promoted hgov hw hfull hphrases => exact readsPrepositions_promoted hgov hw hfull hphrases

/-- Every preposition of a clause is read as one exactly where none is taken for a word. A memory makes no difference. -/
theorem prepositions_of_predicate (lex : Lexicon) {clause : List String} {p : Predicate}
    (h : (predicate lex clause : Except ParseError Predicate) = .ok p) :
    (ReadsPrepositions clause p ↔ ¬ HidesPreposition clause) ∧
      ∀ memory : Memory, memory.IsSound lex → Solid clause →
        ((predicate lex clause : Remembering Predicate).run.run memory).1 = .ok p := by
  refine ⟨(predicate_eq_ok.1 h).readsPrepositions_iff, fun memory hmemory hsolid ↦ ?_⟩
  rw [(agrees_predicate hsolid memory hmemory).1, h]

-- Before an object, a preposition and what it governs are adverbs.
example : (fun p ↦ (p.kind.verbWords, p.nodes.length)) <$> (predicate Dictionary.standard.lexicon
    ["li", "tawa", "~lon", "tomo", "e", "kili"] : Except ParseError Predicate) = .ok (["tawa", "~lon", "tomo"], 0) := by
  decide +kernel

/-- In phrases of a nominal, and after the last object. -/
theorem prepositions_of_predicate_nominal :
    let clause := ["li", "jan", "~lon", "tomo", "pi", "ma", "suli", "~kepeken", "ilo", "e", "kili", "~tan", "ma", "~tawa"]
    ∃ p, (predicate Dictionary.standard.lexicon clause : Except ParseError Predicate) = .ok p ∧
      ReadsPrepositions clause p := by
  intro clause
  obtain ⟨p, hp, -⟩ := map_eq_ok.1 (show Predicate.particle <$>
    (predicate Dictionary.standard.lexicon clause : Except ParseError Predicate) = .ok .li by decide +kernel)
  refine ⟨p, hp, (prepositions_of_predicate _ hp).1.2 ?_⟩
  have hpi : Particle.pi.word ∈ verbPart clause := by decide
  have hlone : lonePreposition? clause = none := by decide
  simp [HidesPreposition, hpi, hlone]

end Reading

end TokiPona
