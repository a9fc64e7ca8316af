import TokiPona.Proofs.Recall

/-!
Errors that are never raised. Some readers guard against runs that no other reader hands them: a `la` inside a clause, a
predicate that opens with neither `li` nor `o`, a chain of no phrases, a mark on a condition. What keeps these away are
the cuts that the runs come from, so it does not matter what a memory answers in between.
-/

namespace TokiPona

/-- The errors that only a mistake in the readers themselves could raise. -/
def ParseError.isGuard : ParseError → Bool
  | leftoverLa _ | missingGovernor .. | misplacedMark _ => true
  | emptyArgument stage => stage = .chain || stage = .predicate
  | _ => false

/-- The errors that a run of words may raise: no guards, and none about the tokens that the words come from. -/
def ParseError.IsOfWords : ParseError → Prop
  | doubleParticle .. | unexpectedMark .. | malformed .. => False
  | e => e.isGuard = false

namespace Reading

variable {lex : Lexicon} {α β : Type}

/-- From any memory at all, the reader raises an error of the given kind only, and what it gives has the property. -/
def Ensures (E : ParseError → Prop) (P : α → Prop) (x : Remembering α) : Prop :=
  ∀ memory : Memory,
    match (x.run.run memory).1 with
    | .ok a => P a
    | .error e => E e

abbrev Spares (x : Remembering α) : Prop := Ensures ParseError.IsOfWords (fun _ ↦ True) x

section

variable {E : ParseError → Prop} {P : α → Prop} {Q : β → Prop} {x : Remembering α}

theorem ensures_pure {a : α} (h : P a) : Ensures E P (pure a) := fun _ ↦ h

theorem ensures_throw {e : ParseError} (h : E e) : Ensures E P (throw e) := fun _ ↦ h

theorem Ensures.bind {f : α → Remembering β} (hx : Ensures E P x) (hf : ∀ a, P a → Ensures E Q (f a)) :
    Ensures E Q (x >>= f) := by
  intro memory
  have hresult := hx memory
  rcases hrun : x.run.run memory with ⟨e | a, memory'⟩
  · rw [hrun] at hresult
    rw [ExceptT.run_bind, StateT.run_bind, hrun]
    exact hresult
  · rw [hrun] at hresult
    rw [ExceptT.run_bind, StateT.run_bind, hrun]
    exact hf a hresult memory'

theorem Ensures.mono {R : α → Prop} (hx : Ensures E P x) (h : ∀ a, P a → R a) : Ensures E R x := by
  rw [← bind_pure x]
  exact hx.bind (fun a ha ↦ ensures_pure (h a ha))

theorem Ensures.mono_error {E' : ParseError → Prop} (hx : Ensures E P x) (h : ∀ e, E e → E' e) :
    Ensures E' P x := by
  intro memory
  have hresult := hx memory
  cases hrun : (x.run.run memory).1 with
  | ok a => simpa [hrun] using hresult
  | error e =>
    rw [hrun] at hresult
    exact h e hresult

theorem Ensures.map (f : α → β) (hx : Ensures E P x) (h : ∀ a, P a → Q (f a)) : Ensures E Q (f <$> x) := by
  rw [map_eq_pure_bind]
  exact hx.bind (fun a ha ↦ ensures_pure (h a ha))

theorem Spares.map (f : α → β) (hx : Spares x) : Spares (f <$> x) := Ensures.map f hx (fun _ _ ↦ trivial)

theorem ensures_mapM {f : α → Remembering β} {xs : List α} (h : ∀ x ∈ xs, Spares (f x)) :
    Ensures ParseError.IsOfWords (fun ys ↦ ys.length = xs.length) (xs.mapM f) := by
  induction xs with
  | nil => exact ensures_pure rfl
  | cons x xs ih =>
    rw [List.mapM_cons]
    refine (h x (by simp)).bind (fun y _ ↦ (ih (fun z hz ↦ h z (by simp [hz]))).bind (fun ys hys ↦ ensures_pure ?_))
    simpa using hys

theorem spares_mapM {f : α → Remembering β} {xs : List α} (h : ∀ x ∈ xs, Spares (f x)) : Spares (xs.mapM f) :=
  (ensures_mapM h).mono (fun _ _ ↦ trivial)

theorem spares_recallBy {look : Memory → Option α} {store : α → Memory → Memory} (hx : Spares x) :
    Spares (recallBy look store x) := by
  intro memory
  have hresult := hx memory
  rw [run_recallBy]
  cases look memory with
  -- nothing is asked of what the memory answers
  | some a => trivial
  | none =>
    rcases hrun : x.run.run memory with ⟨e | a, memory'⟩
    · rw [hrun] at hresult
      exact hresult
    · trivial

end

theorem spares_chainOfLinks (p : Particle) (links : List Chain) : Spares (chainOfLinks p links) := by
  unfold chainOfLinks
  split
  · exact ensures_throw rfl
  · exact ensures_pure trivial

theorem spares_refuseParticles (words : List String) : Spares (refuseParticles words) := by
  unfold refuseParticles
  split
  · exact ensures_throw rfl
  · exact ensures_pure trivial

theorem spares_headed (words : List String) (prepositions : List PrepPhrase) :
    Spares (headed lex words prepositions) := by
  unfold headed
  split
  · exact ensures_pure trivial
  · exact ensures_throw rfl

theorem spares_links (p : Particle) {read : List String → Remembering Chain} (hread : ∀ run, Spares (read run))
    (runs : List (List String)) : Spares (runs.mapM read >>= chainOfLinks p) :=
  (spares_mapM (fun run _ ↦ hread run)).bind (fun links _ ↦ spares_chainOfLinks p links)

section

variable {ph : List String → Remembering Phrase} (hph : ∀ words, Spares (ph words))

include hph

theorem spares_piChain (words : List String) : Spares (piChain ph words) := by
  unfold piChain
  split
  · exact ensures_throw rfl
  split
  · exact ensures_throw rfl
  rw [recallChain_eq]
  refine spares_recallBy ((ensures_mapM (fun piece _ ↦ hph piece)).bind (fun phrases hlength ↦ ?_))
  have hne : phrases ≠ [] := by
    rintro rfl
    exact splitDropping_ne_nil isPi words (List.length_eq_zero_iff.1 hlength.symm)
  rw [chainOfPhrases, if_neg (by simpa using hne)]
  exact ensures_pure trivial

theorem spares_coordinationOver (words : List String) : Spares (coordinationOver ph words) := by
  unfold coordinationOver
  split
  · exact ensures_throw rfl
  split
  · exact ensures_throw rfl
  split
  · exact ensures_throw rfl
  refine Ensures.bind (P := fun _ ↦ True) ?_ (fun c _ ↦ ?_)
  · exact spares_links .en (fun _ ↦ spares_links .pi (spares_piChain hph) _) _
  split
  · exact ensures_pure trivial
  split
  · exact spares_links .pi (fun _ ↦ spares_links .en (spares_piChain hph) _) _
  · exact ensures_throw rfl

end

theorem spares_plainPhrase (words : List String) : Spares (plainPhrase lex words) := by
  unfold plainPhrase
  split
  · exact ensures_throw rfl
  rw [recallPhrase_eq]
  exact spares_recallBy ((spares_refuseParticles words).bind (fun _ _ ↦ spares_headed words []))

theorem spares_complement (words : List String) : Spares (complement lex words) := by
  unfold complement
  split
  · exact ensures_pure trivial
  · exact (spares_coordinationOver spares_plainPhrase words).map some

theorem spares_prepPhrases (pieces : List (List String)) : Spares (prepPhrases lex pieces) := by
  fun_induction prepPhrases (m := Remembering) lex pieces with
  | case1 => exact ensures_pure trivial
  | case2 rest ih => exact ih
  | case3 w words rest hw ih =>
    exact (spares_complement words).bind (fun governed _ ↦ ih.bind (fun phrases _ ↦ ensures_pure trivial))
  | case4 w words rest hw ih => exact ih

theorem spares_phrase (words : List String) : Spares (phrase lex words) := by
  unfold phrase
  split
  · exact ensures_throw rfl
  rw [recallPhrase_eq]
  refine spares_recallBy ((spares_refuseParticles words).bind (fun _ _ ↦ ?_))
  split
  · split
    · exact ensures_throw rfl
    · exact (spares_prepPhrases _).bind (fun _ _ ↦ spares_headed _ _)
  · exact ensures_throw rfl

theorem spares_chain (words : List String) : Spares (chain lex words) := spares_piChain spares_phrase words

theorem spares_coordination (words : List String) : Spares (coordination lex words) :=
  spares_coordinationOver spares_phrase words

theorem spares_governor {clause : List String} (h : Opens isGovernor clause) : Spares (governor clause) := by
  obtain ⟨w, rest, rfl, hw, -⟩ := h
  rcases isGovernor_eq_true.1 hw with rfl | rfl
  · exact ensures_pure trivial
  · exact ensures_pure trivial

theorem spares_nominal (words : List String) : Spares (nominal lex words) :=
  (spares_chain words).bind (fun _ _ ↦ spares_chainOfLinks _ _)

theorem spares_predicateKind (words : List String) : Spares (predicateKind lex words) := by
  unfold predicateKind
  split
  · exact ensures_pure trivial
  split
  · exact (spares_nominal _).map _
  split
  · exact (spares_nominal _).map _
  · exact ensures_pure trivial

theorem spares_object (clause words : List String) : Spares (object lex clause words) := by
  unfold object
  split
  · exact spares_chain _
  · exact ensures_throw rfl

theorem spares_transitive {clause : List String} (h : Opens isGovernor clause) : Spares (transitive lex clause) := by
  unfold transitive
  split
  case _ hsplit => exact absurd hsplit (splitBefore_ne_nil isE h.ne_nil)
  refine (spares_governor h).bind (fun particle _ ↦ (spares_predicateKind _).bind (fun kind _ ↦ ?_))
  split
  · exact ensures_throw rfl
  refine (spares_mapM (fun part _ ↦ spares_object clause part)).bind (fun objects _ ↦ ?_)
  refine (spares_prepPhrases _).bind (fun prepositions _ ↦ ?_)
  exact (spares_chainOfLinks _ _).bind (fun _ _ ↦ ensures_pure trivial)

theorem spares_intransitive {clause : List String} (h : Opens isGovernor clause) :
    Spares (intransitive lex clause) := by
  unfold intransitive
  split
  case _ hsplit => exact absurd hsplit (splitBefore_ne_nil Word.isPreposition h.ne_nil)
  refine (spares_governor h).bind (fun particle _ ↦ (spares_predicateKind _).bind (fun kind _ ↦ ?_))
  exact (spares_prepPhrases _).bind (fun prepositions _ ↦ ensures_pure trivial)

theorem spares_predicate {clause : List String} (h : Opens isGovernor clause) : Spares (predicate lex clause) := by
  unfold predicate
  split
  · exact ensures_throw rfl
  split
  · exact spares_transitive h
  · exact spares_intransitive h

theorem spares_addressees (runs : List (List String)) : Spares (addressees lex runs) :=
  spares_mapM (fun run _ ↦ spares_coordination run)

def Opening.LacksLa : Opening → Prop
  | .call _ => True
  | .clause rest => Particle.la.word ∉ rest.words

theorem ensures_openDoubleO (whole before : List String) {after : List String} (h : Particle.la.word ∉ after) :
    Ensures ParseError.IsOfWords Opening.LacksLa (openDoubleO lex whole before after) := by
  refine (spares_addressees _).bind (fun vocatives _ ↦ ?_)
  split
  · exact ensures_pure trivial
  · exact ensures_throw rfl
  · refine ensures_pure ?_
    simpa [Opening.LacksLa, placeholderSubject, Particle.word] using h

theorem ensures_openCalls {words : List String} (h : Particle.la.word ∉ words) :
    Ensures ParseError.IsOfWords Opening.LacksLa (openCalls lex words) := by
  refine (spares_addressees _).bind (fun vocatives _ ↦ ?_)
  dsimp only
  split
  · exact ensures_throw rfl
  · exact ensures_pure (fun hla ↦ h (mem_of_mem_afterLastO hla))

theorem ensures_openClause {words : List String} (h : Particle.la.word ∉ words) :
    Ensures ParseError.IsOfWords Opening.LacksLa (openClause lex words) := by
  unfold openClause
  split
  case _ w before after hsplit => exact ensures_openDoubleO _ _ (fun hla ↦ h ((mem_of_splitDoubleO hsplit).2 _ hla))
  all_goals
    split
    · exact ensures_openCalls h
    · exact ensures_pure h

theorem spares_predication (whole : List String) (subject : Option Chain) {parts : List (List String)}
    (h : ∀ part ∈ parts, Opens isGovernor part) : Spares (predication lex whole subject parts) := by
  unfold predication
  split
  · exact ensures_throw rfl
  · exact (spares_mapM (fun part hpart ↦ spares_predicate (h part hpart))).map _

theorem spares_statement (whole : List String) {words first : List String} {parts : List (List String)}
    (h : splitBefore isGovernor words = first :: parts) : Spares (statement lex whole (first :: parts)) := by
  obtain ⟨hne, htail, hopens⟩ := splitBefore_eq_cons h
  rw [statement]
  split
  case isTrue ho =>
    obtain ⟨w, rest, rfl⟩ := List.exists_cons_of_ne_nil hne
    refine spares_predication whole none (List.forall_mem_cons.2 ⟨⟨w, rest, rfl, ?_, htail⟩, hopens⟩)
    have ho : isO w = true := by simpa using ho
    simp [isGovernor, ho]
  case isFalse => exact (spares_coordination first).bind (fun subject _ ↦ spares_predication whole _ hopens)

theorem spares_body (whole : List String) {words : List String} (hne : words ≠ []) :
    Spares (body lex whole (splitBefore isGovernor words)) := by
  obtain ⟨first, parts, hsplit⟩ := List.exists_cons_of_ne_nil (splitBefore_ne_nil isGovernor hne)
  have hstatement : Spares (statement lex whole (first :: parts)) := spares_statement whole hsplit
  rw [hsplit]
  unfold body
  split
  · split
    · exact ensures_pure trivial
    · exact hstatement
  · split
    · exact (spares_coordination _).map _
    · exact hstatement
  · exact hstatement

theorem ensures_openedClause (whole : List String) (mark : Option Punctuation) {rest : OpenedClause}
    (h : Particle.la.word ∉ rest.words) :
    Ensures ParseError.IsOfWords (fun s ↦ s.punctuation = mark) (openedClause lex whole mark rest) := by
  unfold openedClause
  dsimp only
  split
  · exact ensures_throw rfl
  split
  case isTrue hla => exact absurd (mem_of_mem_takeConjunction (mem_of_mem_takeTag (Particle.isIn_iff.1 hla))) h
  split
  · exact ensures_throw rfl
  case isFalse hne =>
    refine (spares_body whole (by simpa using hne)).bind (fun b _ ↦ ?_)
    cases b <;> exact ensures_pure rfl

theorem ensures_clause {words : List String} (h : Particle.la.word ∉ words) (mark : Option Punctuation) :
    Ensures ParseError.IsOfWords (fun s ↦ s.punctuation = mark) (clause lex words mark) := by
  refine (ensures_openClause h).bind (fun o ho ↦ ?_)
  cases o with
  | call addressee => exact ensures_pure rfl
  | clause rest => exact ensures_openedClause words mark ho

theorem ensures_withContext (found : Context) (s : Sentence) :
    Ensures ParseError.IsOfWords (fun s' ↦ s'.punctuation = s.punctuation) (withContext found s) := by
  unfold withContext
  split
  · exact ensures_pure rfl
  · exact ensures_throw rfl

theorem spares_context (words : List String) : Spares (context lex words) := by
  unfold context
  split
  · exact (spares_prepPhrases _).map _
  · exact (spares_coordination words).map _

def MarksConclusion : List Sentence × Sentence → Prop
  | (preconditions, conclusion) => (∀ s ∈ preconditions, s.punctuation = none) ∧ conclusion.punctuation ≠ none

theorem ensures_attach (shown : String) {words : List String} (h : Particle.la.word ∉ words)
    {read : List Sentence × Sentence} (hread : MarksConclusion read) :
    Ensures ParseError.IsOfWords MarksConclusion (attach lex shown words read) := by
  obtain ⟨preconditions, conclusion⟩ := read
  obtain ⟨hpreconditions, hconclusion⟩ := hread
  rw [attach]
  split
  · exact ensures_throw rfl
  split
  · refine (ensures_clause h none).bind (fun s hs ↦ ensures_pure ⟨?_, hconclusion⟩)
    exact List.forall_mem_cons.2 ⟨hs, hpreconditions⟩
  refine (spares_context words).bind (fun found _ ↦ ?_)
  cases preconditions with
  | nil =>
    refine (ensures_withContext found conclusion).bind (fun s hs ↦ ensures_pure ⟨by simp, ?_⟩)
    rwa [hs]
  | cons nearest others =>
    obtain ⟨hnearest, hothers⟩ := List.forall_mem_cons.1 hpreconditions
    refine (ensures_withContext found nearest).bind (fun s hs ↦ ensures_pure ⟨?_, hconclusion⟩)
    exact List.forall_mem_cons.2 ⟨hs.trans hnearest, hothers⟩

theorem ensures_clauses (mark : Punctuation) (shown : String) {parts : List (List String)}
    (h : ∀ part ∈ parts, Particle.la.word ∉ part) :
    Ensures ParseError.IsOfWords MarksConclusion (clauses lex mark shown parts) := by
  induction parts with
  | nil => exact ensures_throw rfl
  | cons first rest ih =>
    have hfirst := h first (by simp)
    cases rest with
    | nil => exact (ensures_clause hfirst _).bind (fun s hs ↦ ensures_pure ⟨by simp, by simp [hs]⟩)
    | cons second rest =>
      rw [clauses_cons_cons]
      exact (ih (fun part hpart ↦ h part (by simp [hpart]))).bind (fun read hread ↦ ensures_attach shown hfirst hread)

theorem spares_conditional {preconditions : List Sentence} {conclusion : Sentence}
    (h : MarksConclusion (preconditions, conclusion)) : Spares (conditional preconditions conclusion) := by
  obtain ⟨hpreconditions, hconclusion⟩ := h
  rw [conditional, if_neg]
  · exact ensures_pure trivial
  · simpa [hconclusion] using hpreconditions

theorem la_notMem_part {words part : List String} (h : part ∈ splitBefore isLa words) :
    Particle.la.word ∉ withImpliedLi lex (stripLeading isLa part) := by
  intro hla
  have hne : words ≠ [] := by
    rintro rfl
    simp [splitBefore] at h
  have hrun : stripLeading isLa part ∈ laRuns words := by
    rw [laRuns, ← map_stripLeading_splitBefore isLa hne]
    exact List.mem_map_of_mem h
  rcases mem_withImpliedLi hla with hla | hli
  · simpa [isLa] using not_sep_of_mem_splitDropping hrun _ hla
  · exact absurd hli (by decide)

theorem spares_sentence (words : List String) (mark : Punctuation) (shown : String) :
    Spares (sentence lex words mark shown) := by
  unfold sentence
  dsimp only
  split
  · exact (spares_coordination _).map _
  · exact ensures_throw rfl
  refine (ensures_clauses mark shown (List.forall_mem_map.2 (fun part hpart ↦ la_notMem_part hpart))).bind
    (fun read hread ↦ ?_)
  split
  · exact ensures_pure trivial
  · exact spares_conditional hread

theorem ensures_plainWords {E : ParseError → Prop} {text : String} (hE : ∀ c, E (.unexpectedMark c text))
    (tokens : List Token) : Ensures E (fun _ ↦ True) (plainWords text tokens) := by
  induction tokens with
  | nil => exact ensures_pure trivial
  | cons t rest ih =>
    rw [plainWords]
    split
    · split
      · exact ih
      · exact ensures_throw (hE _)
    · exact ih.map _ (fun _ _ ↦ trivial)

theorem isGuard_of_adjacencyError? {dialect : Dialect} {text : String} {tokens : List Token} {e : ParseError}
    (h : adjacencyError? dialect text tokens = some e) : e.isGuard = false := by
  simp only [adjacencyError?, Option.or_eq_some_iff, Option.map_eq_some_iff] at h
  rcases h with ⟨p, -, rfl⟩ | ⟨-, ⟨p, -, rfl⟩ | ⟨-, p, -, rfl⟩⟩
  all_goals rfl

/-- What the reading of a text may raise: no guard, and a doubled particle only where the check of particles found
one. -/
structure IsOfText (dialect : Dialect) (text : String) (e : ParseError) : Prop where
  isGuard : e.isGuard = false
  doubled : ∀ p fragment, e = .doubleParticle p fragment → adjacencyError? dialect text (tokenize text) = some e

theorem IsOfText.of_isOfWords {dialect : Dialect} {text : String} {e : ParseError} (h : e.IsOfWords) :
    IsOfText dialect text e := by
  cases e with
  | doubleParticle p fragment => exact h.elim
  | unexpectedMark c fragment => exact h.elim
  | malformed why fragment => exact h.elim
  | _ => exact ⟨h, by simp⟩

end Reading

open Reading

theorem Grammar.ensures_read (g : Grammar) (text shown : String) :
    Ensures (IsOfText g.dialect text) (fun _ ↦ True) (g.read text shown) := by
  unfold Grammar.read
  dsimp only
  split
  · exact ensures_throw ⟨rfl, by simp⟩
  split
  · exact ensures_throw ⟨rfl, by simp⟩
  split
  · exact ensures_pure trivial
  split
  case _ e he => exact ensures_throw ⟨isGuard_of_adjacencyError? he, fun _ _ _ ↦ he⟩
  split
  · exact ensures_throw ⟨rfl, by simp⟩
  split
  · exact ensures_throw ⟨rfl, by simp⟩
  refine Ensures.bind (P := fun _ ↦ True) ?_ (fun found _ ↦ ?_)
  · exact (ensures_plainWords (fun c ↦ ⟨rfl, by simp⟩) _).bind (fun words _ ↦ ensures_pure trivial)
  split
  · exact ensures_throw ⟨rfl, by simp⟩
  · exact (spares_sentence _ _ shown).mono_error (fun _ ↦ .of_isOfWords)

theorem Grammar.spares_read (g : Grammar) (text shown : String) :
    Ensures (·.isGuard = false) (fun _ ↦ True) (g.read text shown) :=
  (g.ensures_read text shown).mono_error (fun _ h ↦ h.isGuard)

end TokiPona
