import TokiPona.Proofs.Groups
import TokiPona.Proofs.Moods

/-!
How deep a tree is. Chains, phrases and prepositional phrases may nest in one another without end; but in a tree that is
read every chain has the shape of its place, and no complement holds a preposition. So the readers, each of which calls
the next, come back to the first at most once.
-/

namespace TokiPona

open Reading

namespace Reading

section

variable {m : Type → Type} [Monad m] [MonadExceptOf ParseError m] [Recall m]
variable (lex : Lexicon) (read : List String → m Phrase)

def complementBy : List String → m (Option Chain)
  | [] => pure none
  | words => some <$> coordinationOver read words

def prepPhrasesBy : List (List String) → m (List PrepPhrase)
  | [] => pure []
  | [] :: rest => prepPhrasesBy rest
  | (w :: words) :: rest =>
    if Word.isPreposition w then do
      let governed ← complementBy read words
      let phrases ← prepPhrasesBy rest
      pure (⟨Word.bare w, governed⟩ :: phrases)
    else prepPhrasesBy rest

/-- Reads a phrase once round the circle of readers, where `read` is called to go round it once more: a phrase has
prepositions, these govern chains, and chains are made of phrases. -/
def phraseBy (words : List String) : m Phrase :=
  if words.isEmpty then throw (.emptyArgument .phrase)
  else Recall.phrase (Word.spaced words) do
    refuseParticles words
    match splitBefore Word.isPreposition words with
    | (w :: ws) :: pieces =>
      if Word.isPreposition w then throw (.emptySpan .phraseHead (Word.spaced words))
      else do
        let prepositions ← prepPhrasesBy read pieces
        headed lex (w :: ws) prepositions
    | _ => throw (.emptyArgument .phrase)

variable [LawfulMonad m]

theorem phraseBy_of_noPreposition {words : List String} (h : NoPreposition words) :
    phraseBy lex read words = plainPhrase lex words := by
  cases words with
  | nil => rfl
  | cons w ws =>
    have hw : Word.isPreposition w = false := h w (by simp)
    simp only [plainPhrase, phraseBy, h.splitBefore_eq (by simp), hw, prepPhrasesBy, pure_bind]
    rfl

theorem complementBy_phraseBy {words : List String} (h : NoPreposition words) :
    complementBy (phraseBy lex read) words = complement lex words := by
  cases words with
  | nil => rfl
  | cons w ws =>
    have hread : coordinationOver (phraseBy lex read) (w :: ws) = coordinationOver (plainPhrase lex) (w :: ws) :=
      coordinationOver_congr (fun run hrun ↦ phraseBy_of_noPreposition lex read (fun v hv ↦ h v (hrun v hv)))
    rw [complementBy, complement, hread] <;> simp

theorem prepPhrasesBy_phraseBy {pieces : List (List String)} (h : ∀ piece ∈ pieces, NoPreposition piece.tail) :
    prepPhrasesBy (phraseBy lex read) pieces = prepPhrases lex pieces := by
  induction pieces with
  | nil => rfl
  | cons piece rest ih =>
    have hrest := ih (fun piece hpiece ↦ h piece (by simp [hpiece]))
    cases piece with
    | nil => exact hrest
    | cons w words =>
      have hwords : NoPreposition words := h (w :: words) (by simp)
      rw [prepPhrasesBy, prepPhrases, complementBy_phraseBy lex read hwords, hrest]

theorem phraseBy_phraseBy (words : List String) : phraseBy lex (phraseBy lex read) words = phrase lex words := by
  rw [phraseBy, phrase]
  cases hsplit : splitBefore Word.isPreposition words with
  | nil => rfl
  | cons first pieces =>
    have hpieces : ∀ piece ∈ pieces, NoPreposition piece.tail :=
      fun piece hpiece ↦ not_of_mem_tail_splitBefore (hsplit ▸ List.mem_cons_of_mem first hpiece)
    cases first with
    | nil => rfl
    | cons w ws => simp only [prepPhrasesBy_phraseBy lex read hpieces]

end

/-- The reader of phrases is what it calls to read the phrases of a complement, and from wherever one starts it is called
at most twice on a way down: whatever would be called the third time, nothing changes. -/
structure NestsTwice (lex : Lexicon) (m : Type → Type) [Monad m] [MonadExceptOf ParseError m] [Recall m] : Prop where
  phrase_eq : ∀ words, phraseBy lex (phrase lex) words = (phrase lex words : m Phrase)
  chain_eq : ∀ (read : List String → m Phrase) words,
    piChain (phraseBy lex (phraseBy lex read)) words = chain lex words
  coordination_eq : ∀ (read : List String → m Phrase) words,
    coordinationOver (phraseBy lex (phraseBy lex read)) words = coordination lex words
  prepPhrases_eq : ∀ (read : List String → m Phrase) words pieces, pieces.Sublist (splitBefore Word.isPreposition words) →
    prepPhrasesBy (phraseBy lex read) pieces = prepPhrases lex pieces

theorem nestsTwice (lex : Lexicon) (m : Type → Type) [Monad m] [LawfulMonad m] [MonadExceptOf ParseError m] [Recall m] :
    NestsTwice lex m := by
  have htwice (read : List String → m Phrase) : phraseBy lex (phraseBy lex read) = phrase lex :=
    funext (phraseBy_phraseBy lex read)
  refine ⟨fun words ↦ ?_, fun read words ↦ by rw [htwice, chain], fun read words ↦ by rw [htwice, coordination], ?_⟩
  · rw [← htwice (plainPhrase lex), phraseBy_phraseBy, htwice]
  · exact fun read words pieces hpieces ↦
      prepPhrasesBy_phraseBy lex read (fun piece hpiece ↦ not_of_mem_tail_splitBefore (hpieces.subset hpiece))

end Reading

/-- The words of the head and the modifiers are none of `pi`, `la`, `e`, `li`, `en` and `o`. -/
def Phrase.HasOwnWords (p : Phrase) : Prop := ∀ l ∈ p.head :: p.modifiers, ∀ w ∈ l.words, IsPhraseWord w

structure Phrase.IsPlain (p : Phrase) : Prop where
  own : p.HasOwnWords
  prepositions : p.prepositions = []

def PrepPhrase.IsShallow (q : PrepPhrase) : Prop := ∀ c ∈ q.complement, c.IsGrouped Phrase.IsPlain

structure Phrase.IsShallow (p : Phrase) : Prop where
  own : p.HasOwnWords
  prepositions : ∀ q ∈ p.prepositions, q.IsShallow

def PredicateKind.IsShallow : PredicateKind → Prop
  | verb _ => True
  | nominal c | pi c => ∃ link, link.IsSimple Phrase.IsShallow ∧ c = .links .en [link]

structure Predicate.IsShallow (p : Predicate) : Prop where
  kind : p.kind.IsShallow
  objects : ∀ c ∈ p.objects, c.IsJoined .e (Chain.IsSimple Phrase.IsShallow)
  prepositions : ∀ q ∈ p.prepositions, q.IsShallow

def Context.IsShallow : Context → Prop
  | chain c => c.IsGrouped Phrase.IsShallow
  | prepositional phrases => ∀ q ∈ phrases, q.IsShallow

structure SimpleSentence.IsShallow (s : SimpleSentence) : Prop where
  subject : ∀ c ∈ s.subject, c.IsGrouped Phrase.IsShallow
  predicates : ∀ p ∈ s.predicates, p.IsShallow
  vocatives : ∀ c ∈ s.vocatives, c.IsGrouped Phrase.IsShallow
  contexts : ∀ c ∈ s.contexts, c.IsShallow

theorem SimpleSentence.IsShallow.context {s : SimpleSentence} (h : s.IsShallow) {c : Context} (hc : c.IsShallow) :
    { s with contexts := c :: s.contexts }.IsShallow :=
  ⟨h.subject, h.predicates, h.vocatives, List.forall_mem_cons.2 ⟨hc, h.contexts⟩⟩

/-- Every chain in the tree has something in it and has the shape of its place. -/
inductive Sentence.IsShallow : Sentence → Prop
  | simple {s : SimpleSentence} (h : s.IsShallow) : IsShallow (.simple s)
  | conditional {preconditions : List Sentence} {conclusion : Sentence} (hp : ∀ p ∈ preconditions, IsShallow p)
      (h : IsShallow conclusion) : IsShallow (.conditional preconditions conclusion)
  | vocative {c : Chain} (h : c.IsGrouped Phrase.IsShallow) (mark : Option Punctuation) : IsShallow (.vocative c mark)
  | fragment {c : Chain} (h : c.IsGrouped Phrase.IsShallow) (mark : Option Punctuation) : IsShallow (.fragment c mark)
  | exclamation {p : Phrase} (h : p.prepositions = []) (mark : Option Punctuation) : IsShallow (.exclamation p mark)
  | comment (text : String) : IsShallow (.comment text)

namespace Reading

variable {lex : Lexicon} {words : List String} {c : Chain}

theorem hasOwnWords_of_lexemes {p : Phrase} (hwords : ∀ w ∈ words, IsPhraseWord w)
    (h : lex.lexemes words = p.head :: p.modifiers) : p.HasOwnWords := by
  intro l hl w hw
  apply hwords
  rw [← Lexicon.flatMap_words_lexemes lex words, h]
  exact List.mem_flatMap.2 ⟨l, hl, hw⟩

theorem isPlain_of_plainPhrase {p : Phrase} (h : (plainPhrase lex words : Except ParseError Phrase) = .ok p) :
    p.IsPlain := by
  unfold plainPhrase at h
  split at h
  · simp at h
  obtain ⟨_, hwords, h⟩ := bind_eq_ok.1 h
  obtain ⟨hlexemes, hprep⟩ := headed_eq_ok.1 h
  exact ⟨hasOwnWords_of_lexemes (refuseParticles_eq_ok.1 hwords) hlexemes, hprep⟩

theorem ReadsPrepPhrase.isShallow {piece : List String} {q : PrepPhrase} (h : ReadsPrepPhrase lex piece q) :
    q.IsShallow := by
  intro c hc
  obtain ⟨hbody, hread⟩ := h.coordination_of_mem hc
  rw [← coordinationOver_plainPhrase lex hbody] at hread
  exact isGrouped_of_coordinationOver (fun _ _ ↦ isPlain_of_plainPhrase) hread

theorem isShallow_of_prepPhrases {pieces : List (List String)} {phrases : List PrepPhrase}
    (h : List.Forall₂ (ReadsPrepPhrase lex) pieces phrases) : ∀ q ∈ phrases, q.IsShallow := by
  intro q hq
  obtain ⟨piece, -, hpiece⟩ := forall₂_exists_of_mem h.flip hq
  exact ReadsPrepPhrase.isShallow hpiece

theorem isShallow_of_phrase {p : Phrase} (h : (phrase lex words : Except ParseError Phrase) = .ok p) : p.IsShallow := by
  obtain ⟨hwords, first, pieces, hsplit, -, hlexemes, hpieces⟩ := phrase_eq_ok.1 h
  refine ⟨hasOwnWords_of_lexemes (fun w hw ↦ hwords w ?_) hlexemes, isShallow_of_prepPhrases hpieces⟩
  exact mem_of_mem_splitBefore (hsplit ▸ List.mem_cons_self) w hw

theorem isSimple_of_chain (h : (chain lex words : Except ParseError Chain) = .ok c) : c.IsSimple Phrase.IsShallow :=
  isSimple_of_piChain (fun _ _ ↦ isShallow_of_phrase) h

theorem isGrouped_of_coordination (h : (coordination lex words : Except ParseError Chain) = .ok c) :
    c.IsGrouped Phrase.IsShallow :=
  isGrouped_of_coordinationOver (fun _ _ ↦ isShallow_of_phrase) h

theorem isShallow_of_predicateKind {kind : Option PredicateKind}
    (h : (predicateKind lex words : Except ParseError (Option PredicateKind)) = .ok kind) :
    (kind.getD (.verb {})).IsShallow := by
  cases predicateKind_eq_ok.1 h with
  | nothing => trivial
  | pi hlink => exact ⟨_, isSimple_of_chain hlink, rfl⟩
  | nominal _ _ hlink => exact ⟨_, isSimple_of_chain hlink, rfl⟩
  | verb => trivial

theorem ReadsPredicate.isShallow {clause : List String} {p : Predicate} (h : ReadsPredicate lex clause p) :
    p.IsShallow := by
  cases h with
  | @transitive particle verb last kind init pieces chains phrases hgov hcut hkind hchains hphrases =>
    refine ⟨isShallow_of_predicateKind hkind, ?_, isShallow_of_prepPhrases hphrases⟩
    rintro _ ⟨⟩
    refine .intro ?_ (fun link hlink ↦ ?_)
    · rintro rfl
      simpa using List.forall₂_nil_right_iff.1 hchains
    · obtain ⟨object, -, hobject⟩ := forall₂_exists_of_mem hchains.flip hlink
      exact isSimple_of_chain hobject
  | intransitive hgov hne he hverb hkind hfull hphrases =>
    exact ⟨isShallow_of_predicateKind hkind, by simp, isShallow_of_prepPhrases hphrases⟩
  | promoted hgov hw hfull hphrases => exact ⟨trivial, by simp, isShallow_of_prepPhrases hphrases⟩

theorem isShallow_of_context {context : Context} (h : (Reading.context lex words : Except ParseError Context) = .ok context) :
    context.IsShallow := by
  rcases context_eq_ok.1 h with ⟨-, phrases, rfl, hphrases⟩ | ⟨-, c, rfl, hc⟩
  · exact isShallow_of_prepPhrases hphrases
  · exact isGrouped_of_coordination hc

theorem isShallow_of_clause {mark : Option Punctuation} {s : Sentence}
    (h : (clause lex words mark : Except ParseError Sentence) = .ok s) : s.IsShallow := by
  have hchain {c : Chain} (hc : ∃ run, (coordination lex run : Except ParseError Chain) = .ok c) :
      c.IsGrouped Phrase.IsShallow := by
    obtain ⟨run, hrun⟩ := hc
    exact isGrouped_of_coordination hrun
  cases isRead_of_clause h with
  | simple hread =>
    refine .simple ⟨fun c hc ↦ hchain (hread.subject_read c hc), fun p hp ↦ ?_,
      fun c hc ↦ hchain (hread.vocatives_read c hc), by simp [hread.contexts]⟩
    obtain ⟨part, hpart, -⟩ := hread.predicates_read p hp
    exact hpart.isShallow
  | vocative mark hc => exact .vocative (isGrouped_of_coordination hc) mark
  | exclamation mark hp _ =>
    obtain ⟨w, rest, -, -, -, rfl⟩ := exclamation_eq_some.1 hp
    exact .exclamation rfl mark

theorem ReadsClauses.isShallow {mark : Punctuation} {runs : List (List String)} {preconditions : List Sentence}
    {s : Sentence} (h : ReadsClauses lex mark runs preconditions s) :
    (∀ p ∈ preconditions, p.IsShallow) ∧ s.IsShallow := by
  induction h with
  | conclusion h => exact ⟨by simp, isShallow_of_clause h⟩
  | condition _ h _ ih => exact ⟨List.forall_mem_cons.2 ⟨isShallow_of_clause h, ih.1⟩, ih.2⟩
  | contextOfCondition _ _ h _ ih =>
    obtain ⟨hnearest, hothers⟩ := List.forall_mem_cons.1 ih.1
    cases hnearest with
    | simple hnearest =>
      exact ⟨List.forall_mem_cons.2 ⟨.simple (hnearest.context (isShallow_of_context h)), hothers⟩, ih.2⟩
  | contextOfConclusion _ _ h _ ih =>
    cases ih.2 with
    | simple hs => exact ⟨by simp, .simple (hs.context (isShallow_of_context h))⟩

end Reading

theorem Grammar.isShallow_of_parse {g : Grammar} {text shown : String} {s : Sentence} (h : g.parse text shown = .ok s) :
    s.IsShallow := by
  rcases (Grammar.parse_eq_ok.1 h).2.2 with ⟨-, rfl⟩ | ⟨-, -, -, -, hne, mark, -, hread⟩
  · exact .comment text
  · rcases (sentence_eq_ok hne).1 hread with ⟨first, c, -, hc, rfl⟩ | ⟨preconditions, conclusion, hclauses, rfl⟩
    · exact .fragment (isGrouped_of_coordination hc) _
    · obtain ⟨hpre, hconclusion⟩ := hclauses.isShallow
      unfold assembled
      split
      · exact hconclusion
      · exact .conditional hpre hconclusion

/-- Whatever was read before, every chain of a sentence has the shape of its place, no complement holds a preposition,
and the readers come back to one another at most once. -/
theorem Grammar.isShallow_of_parseWith (g : Grammar) {text shown : String} {memory : Memory} {s : Sentence}
    (hmemory : memory.IsReachable g.lexicon) (h : (g.parseWith text shown memory).1 = .ok s) :
    s.IsShallow ∧ NestsTwice g.lexicon (Except ParseError) ∧ NestsTwice g.lexicon Remembering := by
  have hread : (g.parseWith text shown memory).1 = g.parse text shown := (agrees_read g text shown memory hmemory.isSound).1
  exact ⟨Grammar.isShallow_of_parse (hread.symm.trans h), nestsTwice _ _, nestsTwice _ _⟩

/-- A conditional with contexts, objects and prepositions, read after a sentence with the same subject. -/
theorem Grammar.isShallow_of_parseWith_conditional :
    let g : Grammar := ⟨Dictionary.standard.lexicon, {}⟩
    let memory := (g.parseWith "jan pona ~lon tomo li lape." "" .empty).2
    let text := "~lon ma la jan pona ~lon tomo li pi ma suli la mi moku e kili e telo ~kepeken ilo pi walo en luka."
    memory.IsReachable g.lexicon ∧ ∃ s, (g.parseWith text text memory).1 = .ok s ∧ s.simples.length = 2 ∧ s.IsShallow := by
  intro g memory text
  have hmemory : memory.IsReachable g.lexicon := .parse {} _ _ .empty
  obtain ⟨s, hs, hlength⟩ := map_eq_ok.1 (show (fun s ↦ s.simples.length) <$> (g.parseWith text text memory).1 = .ok 2 by
    decide +kernel)
  exact ⟨hmemory, s, hs, hlength, (g.isShallow_of_parseWith hmemory hs).1⟩

end TokiPona
