import TokiPona.Proofs.Words

namespace TokiPona

theorem SimpleSentence.spelling_context (s : SimpleSentence) (c : Context) :
    { s with contexts := c :: s.contexts }.spelling = c.spelling ++ Particle.la.word :: s.spelling := by
  simp [SimpleSentence.spelling, SimpleSentence.writtenSubject]

namespace Sentence

mutual

/-- The words of a sentence as it is written. A comment has none. -/
def spelling : Sentence → List String
  | simple s => s.spelling
  | conditional preconditions conclusion => preconditionSpellings preconditions ++ conclusion.spelling
  | vocative addressee _ => addressee.spelling ++ [Particle.o.word]
  | fragment context _ => context.spelling ++ [Particle.la.word]
  | exclamation phrase _ => phrase.spelling
  | comment _ => []

def preconditionSpellings : List Sentence → List String
  | [] => []
  | s :: rest => s.spelling ++ Particle.la.word :: preconditionSpellings rest

end

theorem preconditionSpellings_eq (ss : List Sentence) :
    preconditionSpellings ss = ss.flatMap (·.spelling ++ [Particle.la.word]) := by
  induction ss with
  | nil => rfl
  | cons s ss ih => simp [preconditionSpellings, ih]

theorem spaced_append_la {words words' : List String} (h : words ≠ []) (h' : words' ≠ []) :
    Word.spaced (words ++ Particle.la.word :: words') = Word.spaced words ++ " la " ++ Word.spaced words' := by
  obtain ⟨w, rest, rfl⟩ := List.exists_cons_of_ne_nil h'
  induction words with
  | nil => exact absurd rfl h
  | cons v words ih =>
    cases words with
    | nil => simp [Word.spaced, String.ext_iff, Particle.word]
    | cons u words =>
      have := ih (by simp)
      simp_all [Word.spaced, String.ext_iff, Particle.word]

def IsClause : Sentence → Prop
  | conditional _ _ | comment _ => False
  | _ => True

theorem IsClause.text_eq {s : Sentence} (h : s.IsClause) : s.text = marked s.spelling s.punctuation := by
  cases s with
  | conditional => exact h.elim
  | comment => exact h.elim
  | _ => simp [text, spelling, punctuation]

end Sentence

namespace Reading

variable {lex : Lexicon} {mark : Punctuation} {preconditions : List Sentence} {s : Sentence}

theorem spelling_assembled (preconditions : List Sentence) (s : Sentence) :
    (assembled preconditions s).spelling = Sentence.preconditionSpellings preconditions ++ s.spelling := by
  cases preconditions with
  | nil => rfl
  | cons p preconditions => simp [assembled, Sentence.spelling]

theorem text_assembled (hpre : ∀ p ∈ preconditions, p.IsClause ∧ p.punctuation = none ∧ p.spelling ≠ [])
    (hs : s.IsClause) (hne : s.spelling ≠ []) : (assembled preconditions s).text =
      Sentence.marked (assembled preconditions s).spelling s.punctuation := by
  have hjoin : String.join (Sentence.preconditionTexts preconditions) ++ s.text =
      Sentence.marked (Sentence.preconditionSpellings preconditions ++ s.spelling) s.punctuation := by
    induction preconditions with
    | nil => simp [Sentence.preconditionTexts, Sentence.preconditionSpellings, hs.text_eq]
    | cons p preconditions ih =>
      obtain ⟨hp, hmark, hpne⟩ := hpre p (by simp)
      have ih' := ih (fun q hq ↦ hpre q (by simp [hq]))
      rw [Sentence.preconditionTexts, Sentence.preconditionSpellings, String.join_cons, String.append_assoc, ih',
        hp.text_eq, hmark, List.append_assoc, List.cons_append]
      simp [Sentence.marked, Sentence.spaced_append_la hpne, hne, String.append_assoc]
  rw [spelling_assembled, ← hjoin]
  cases preconditions with
  | nil => simp [assembled, Sentence.preconditionTexts]
  | cons p preconditions => simp [assembled, Sentence.text]

theorem spelling_exclamation {words : List String} {phrase : Phrase} (h : exclamation lex words = some phrase) :
    phrase.spelling = words ∧ words ≠ [] := by
  cases words with
  | nil => simp [exclamation] at h
  | cons w rest =>
    rw [exclamation] at h
    split at h
    · obtain rfl := Option.some.inj h
      simp [Phrase.spelling, Lexeme.words, List.flatMap_map]
    · simp at h

theorem spelling_ne_nil_of_predicates {s : SimpleSentence} (h : s.predicates ≠ []) : s.spelling ≠ [] := by
  obtain ⟨p, predicates, heq⟩ := List.exists_cons_of_ne_nil h
  simp [SimpleSentence.spelling, heq, Predicate.spelling]

theorem isClause_of_clause {words : List String} {mark : Option Punctuation}
    (h : (clause lex words mark : Except ParseError Sentence) = .ok s) : s.IsClause ∧ s.spelling ≠ [] := by
  rcases clause_eq_ok.1 h with ⟨addressee, -, rfl⟩ | ⟨rest, -, hread⟩
  · simp [Sentence.IsClause, Sentence.spelling]
  · obtain ⟨-, -, -, -, -, -, hbody⟩ := hread
    generalize splitBefore isGovernor _ = parts at hbody
    cases hbody with
    | exclamation hphrase =>
      obtain ⟨heq, hne⟩ := spelling_exclamation hphrase
      exact ⟨trivial, by rwa [Body.sentence, Sentence.spelling, heq]⟩
    | call => simp [Body.sentence, Sentence.IsClause, Sentence.spelling]
    | command _ _ hpredicates =>
      refine ⟨trivial, spelling_ne_nil_of_predicates ?_⟩
      rintro rfl
      cases hpredicates
    | statement _ hne hpredicates =>
      refine ⟨trivial, spelling_ne_nil_of_predicates ?_⟩
      rintro rfl
      exact hne (List.forall₂_nil_right_iff.1 hpredicates)

theorem ReadsClauses.isClause {runs : List (List String)} (h : ReadsClauses lex mark runs preconditions s) :
    (s.IsClause ∧ s.spelling ≠ []) ∧ ∀ p ∈ preconditions, p.IsClause ∧ p.spelling ≠ [] := by
  have hcontext {simple : SimpleSentence} (c : Context) :
      (Sentence.simple { simple with contexts := c :: simple.contexts }).IsClause ∧
        (Sentence.simple { simple with contexts := c :: simple.contexts }).spelling ≠ [] :=
    ⟨trivial, by simp [Sentence.spelling, SimpleSentence.spelling_context]⟩
  induction h with
  | conclusion h => exact ⟨isClause_of_clause h, by simp⟩
  | condition _ h _ ih => exact ⟨ih.1, List.forall_mem_cons.2 ⟨isClause_of_clause h, ih.2⟩⟩
  | contextOfCondition _ _ _ _ ih => exact ⟨ih.1, List.forall_mem_cons.2 ⟨hcontext _, (List.forall_mem_cons.1 ih.2).2⟩⟩
  | contextOfConclusion _ _ _ _ ih => exact ⟨hcontext _, by simp⟩

theorem ReadsClauses.text_eq {runs : List (List String)} (h : ReadsClauses lex mark runs preconditions s) :
    (assembled preconditions s).text = Sentence.marked (assembled preconditions s).spelling (some mark) := by
  obtain ⟨hmark, hnone⟩ := h.punctuation
  obtain ⟨⟨hs, hne⟩, hpre⟩ := h.isClause
  rw [← hmark]
  exact text_assembled (fun p hp ↦ ⟨(hpre p hp).1, hnone p hp, (hpre p hp).2⟩) hs hne

/-- Clauses that are joined by `la` and leave out no `li` are read as they are. -/
theorem sentence_intercalate {runs : List (List String)} {shown : String}
    (h : ReadsClauses lex mark runs preconditions s) (hne : ∀ run ∈ runs, run ≠ [])
    (hla : ∀ run ∈ runs, Particle.la.word ∉ run) (hli : ∀ run ∈ runs, withImpliedLi lex run = run) :
    (sentence lex ([Particle.la.word].intercalate runs) mark shown : Except ParseError Sentence) =
      .ok (assembled preconditions s) := by
  have hplain : ∀ run ∈ runs, ∀ w ∈ run, isLa w = false := by
    intro run hrun w hw
    rw [isLa_eq_false]
    rintro rfl
    exact hla run hrun hw
  have hstrip : stripLeading isLa ([Particle.la.word].intercalate runs) = [Particle.la.word].intercalate runs := by
    obtain ⟨run, others, rfl⟩ := List.exists_cons_of_ne_nil h.ne_nil
    obtain ⟨w, rest, rfl⟩ := List.exists_cons_of_ne_nil (hne run (by simp))
    have hw := hplain (w :: rest) (by simp) w (by simp)
    cases others with
    | nil => simp [stripLeading, hw]
    | cons run others => simp [stripLeading, hw, List.intercalate_cons_of_ne_nil]
  have hruns : laRuns ([Particle.la.word].intercalate runs) = runs := by
    rw [laRuns, hstrip, splitDropping_intercalate isLa_word h.ne_nil hplain]
  refine (sentence_eq_ok (intercalate_ne_nil _ h.ne_nil hne)).2 (.inr ⟨preconditions, s, ?_, rfl⟩)
  rw [hruns, List.map_congr_left hli, List.map_id']
  exact h

theorem isSolid_bare {w : String} (h : Word.IsSolid w) (hw : Word.isPreposition w = true) : Word.IsSolid (Word.bare w) := by
  obtain ⟨c, cs, hcs⟩ : ∃ c cs, w.toList = '~' :: c :: cs := by
    unfold Word.isPreposition at hw
    split at hw
    case _ c cs heq => exact ⟨c, cs, heq⟩
    · simp at hw
  have hbare : (Word.bare w).toList = c :: cs := by simp [Word.bare, hcs]
  rw [Word.IsSolid, hbare]
  exact ⟨by simp, fun d hd ↦ h.2 d (by simp [hcs, hd])⟩

theorem solid_coordination {words : List String} {c : Chain} (hwords : Solid words)
    (h : (coordination lex words : Except ParseError Chain) = .ok c) : Solid c.spelling := by
  rw [spelling_coordination h]
  exact hwords.mono (fun w hw ↦ mem_of_mem_tidy hw)

theorem solid_predicate {part : List String} {p : Predicate} (hpart : Solid part) (h : ReadsPredicate lex part p) :
    Solid p.spelling := by
  cases h with
  | @transitive particle verb last kind init pieces chains phrases hgov hcut hkind hchains hphrases =>
    rw [spelling_transitive hkind hchains]
    refine hpart.mono (fun w hw ↦ ?_)
    simp only [joined, List.mem_cons, List.mem_append] at hw ⊢
    exact hw.imp_right (fun hw ↦ hw.imp_right (mem_of_mem_spellings hphrases))
  | @intransitive particle verb kind pieces phrases hgov hne he hverb hkind hfull hphrases =>
    rw [spelling_intransitive (spelling_predicateKind hkind)]
    refine hpart.mono (fun w hw ↦ ?_)
    simp only [joined, List.mem_cons, List.mem_append] at hw ⊢
    exact hw.imp_right (fun hw ↦ hw.imp_right (mem_of_mem_spellings hphrases))
  | @promoted particle before after w phrases hgov hw hfull hphrases =>
    have hverb : (PredicateKind.verb { head := some (.word (Word.bare w)) }).spelling = [Word.bare w] := by
      simp [PredicateKind.spelling, VerbPhrase.words, VerbPhrase.lexemes, Lexeme.words]
    rw [spelling_intransitive hverb]
    intro v hv
    simp only [joined, List.mem_cons, List.mem_append, List.flatMap_nil, List.not_mem_nil, or_false] at hv
    rcases hv with rfl | rfl | hv
    · exact particle.isSolid_word
    · exact isSolid_bare (hpart w (by simp [joined])) hw
    · have hmem := mem_of_mem_spellings hphrases hv
      refine hpart v ?_
      simp only [List.flatten_append, List.mem_append] at hmem
      simp only [joined, List.mem_cons, List.mem_append, List.flatten_append, List.flatten_cons]
      tauto

def Body.spelling : Body → List String
  | .exclamation phrase => phrase.spelling
  | .call addressee => addressee.spelling ++ [Particle.o.word]
  | .predication subject predicates => subject.toList.flatMap Chain.spelling ++ predicates.flatMap Predicate.spelling

theorem Body.spelling_sentence {b : Body} (hb : ∀ subject predicates, b ≠ .predication subject predicates)
    (mark : Option Punctuation) (rest : OpenedClause) (conjunction : Option Particle) (tagQuestion : Bool) (mood : Mood) :
    (b.sentence mark rest conjunction tagQuestion mood).spelling = b.spelling := by
  cases b with
  | exclamation => rfl
  | call => rfl
  | predication subject predicates => exact absurd rfl (hb subject predicates)

theorem solid_predicates {parts : List (List String)} {predicates : List Predicate} (hparts : ∀ part ∈ parts, Solid part)
    (h : List.Forall₂ (ReadsPredicate lex) parts predicates) : Solid (predicates.flatMap Predicate.spelling) := by
  intro w hw
  obtain ⟨p, hp, hw⟩ := List.mem_flatMap.1 hw
  obtain ⟨part, hpart, hread⟩ := forall₂_exists_of_mem h.flip hp
  exact solid_predicate (hparts part hpart) hread w hw

theorem solid_body {parts : List (List String)} {b : Body} (hparts : ∀ part ∈ parts, Solid part)
    (h : ReadsBody lex parts b) : Solid b.spelling := by
  cases h with
  | exclamation h =>
    rw [Body.spelling, (spelling_exclamation h).1]
    exact hparts _ (by simp)
  | call h => exact (solid_coordination (hparts _ (by simp)) h).append (Particle.solid_word .o)
  | command _ _ hpredicates => exact solid_predicates hparts hpredicates
  | statement hsubject _ hpredicates =>
    have hsolid := solid_coordination (hparts _ (by simp)) hsubject
    refine Solid.append (by simpa using hsolid) (solid_predicates (fun part hpart ↦ hparts part (by simp [hpart])) hpredicates)

theorem solid_simple {s : SimpleSentence} (hcontexts : ∀ c ∈ s.contexts, Solid c.spelling)
    (hcalls : ∀ c ∈ s.vocatives, Solid c.spelling) (hsubject : Solid (s.subject.toList.flatMap Chain.spelling))
    (hpredicates : Solid (s.predicates.flatMap Predicate.spelling)) : Solid s.spelling := by
  have hconj : Solid (s.conjunction.toList.map Particle.word) := by
    intro w hw
    obtain ⟨p, -, rfl⟩ := List.mem_map.1 hw
    exact p.isSolid_word
  have hmood : Solid (if s.mood = .hortative then [Particle.o.word] else []) := by
    split
    · exact Particle.solid_word .o
    · simp [Solid]
  have hwritten : Solid (s.writtenSubject.toList.flatMap Chain.spelling) := by
    unfold SimpleSentence.writtenSubject
    split
    · simp [Solid]
    · exact hsubject
  have htag : Solid (if s.tagQuestion then [Particle.anu.word, "seme"] else []) := by
    split
    · decide
    · simp [Solid]
  exact ((((((Solid.flatMap fun c hc ↦ (hcontexts c hc).append (Particle.solid_word .la)).append
    (Solid.flatMap fun c hc ↦ (hcalls c hc).append (Particle.solid_word .o))).append hconj).append hmood).append
    hwritten).append hpredicates).append htag

theorem solid_opened {mark : Option Punctuation} {rest : OpenedClause} (hwords : Solid rest.words)
    (hcalls : ∀ c ∈ rest.vocatives, Solid c.spelling) (h : ReadsOpened lex mark rest s) : Solid s.spelling := by
  obtain ⟨hconj, htag, hmood, -, -, -, hbody⟩ := h
  rename_i conjunction tagQuestion mood unjoined untagged core b
  have hcore : Solid core := hwords.mono (fun w hw ↦ mem_of_mem_core hconj htag hmood hw)
  have hsolid := solid_body (fun part hpart ↦ hcore.mono (mem_of_mem_splitBefore hpart)) hbody
  cases b with
  | exclamation phrase => exact hsolid
  | call addressee => exact hsolid
  | predication subject predicates =>
    exact solid_simple (by simp) hcalls (hsolid.mono fun w hw ↦ List.mem_append_left _ hw)
      (hsolid.mono fun w hw ↦ List.mem_append_right _ hw)

theorem solid_addressees {runs : List (List String)} {chains : List Chain} (hruns : ∀ run ∈ runs, Solid run)
    (h : (addressees lex runs : Except ParseError (List Chain)) = .ok chains) : ∀ c ∈ chains, Solid c.spelling := by
  intro c hc
  obtain ⟨run, hrun, hread⟩ := forall₂_exists_of_mem (mapM_eq_ok.1 h).flip hc
  exact solid_coordination (hruns run (List.mem_of_mem_filter hrun)) hread

theorem solid_clause {words : List String} {mark : Option Punctuation} (hwords : Solid words)
    (h : (clause lex words mark : Except ParseError Sentence) = .ok s) : Solid s.spelling := by
  have hruns : ∀ run ∈ splitDropping isO words, Solid run := fun run hrun ↦ hwords.mono (mem_of_mem_splitDropping hrun)
  have hbefore {before after : List String} (hsplit : splitDoubleO words = some (before, after)) :
      ∀ run ∈ splitDropping isO before, Solid run :=
    fun run hrun ↦ hwords.mono (fun w hw ↦ (mem_of_splitDoubleO hsplit).1 w (mem_of_mem_splitDropping hrun w hw))
  rcases clause_eq_ok.1 h with ⟨addressee, hopened, rfl⟩ | ⟨rest, hopened, hread⟩
  · cases hopened with
    | call before _ hsplit hne hcalls =>
      exact (solid_addressees (hbefore hsplit) hcalls addressee (by simp)).append (Particle.solid_word .o)
  · have hrest : Solid rest.words := by
      intro w hw
      rcases hopened.mem_words w hw with hw | hw | rfl
      · exact hwords w hw
      · exact (by decide : Solid placeholderSubject) w hw
      · exact Particle.isSolid_word .o
    refine solid_opened hrest ?_ hread
    cases hopened with
    | command before after vocatives hsplit hne hafter hcalls => exact solid_addressees (hbefore hsplit) hcalls
    | calls vocatives hnone ho hli hcalls _ =>
      refine solid_addressees (fun run hrun ↦ hruns run ?_) hcalls
      exact List.dropLast_subset _ ((List.takeWhile_prefix _).subset hrun)
    | plain => simp

theorem solid_context {words : List String} {c : Context} (hwords : Solid words)
    (h : (context lex words : Except ParseError Context) = .ok c) : Solid c.spelling := by
  rcases context_eq_ok.1 h with ⟨-, phrases, rfl, hread⟩ | ⟨-, chain, rfl, hread⟩
  · refine hwords.mono (fun w hw ↦ ?_)
    rw [← flatten_splitBefore Word.isPreposition words]
    exact mem_of_mem_spellings hread (by rwa [← List.flatMap_def])
  · exact solid_coordination hwords hread

theorem ReadsClauses.solid {runs : List (List String)} (hruns : ∀ run ∈ runs, Solid run)
    (h : ReadsClauses lex mark runs preconditions s) : Solid s.spelling ∧ ∀ p ∈ preconditions, Solid p.spelling := by
  induction h with
  | conclusion h => exact ⟨solid_clause (hruns _ (by simp)) h, by simp⟩
  | condition _ h _ ih =>
    obtain ⟨hs, hpre⟩ := ih (fun run hrun ↦ hruns run (by simp [hrun]))
    exact ⟨hs, List.forall_mem_cons.2 ⟨solid_clause (hruns _ (by simp)) h, hpre⟩⟩
  | contextOfCondition _ _ h _ ih =>
    obtain ⟨hs, hpre⟩ := ih (fun run hrun ↦ hruns run (by simp [hrun]))
    obtain ⟨hp, hpre⟩ := List.forall_mem_cons.1 hpre
    refine ⟨hs, List.forall_mem_cons.2 ⟨?_, hpre⟩⟩
    rw [Sentence.spelling, SimpleSentence.spelling_context, List.append_cons]
    exact ((solid_context (hruns _ (by simp)) h).append (Particle.solid_word .la)).append hp
  | contextOfConclusion _ _ h _ ih =>
    obtain ⟨hs, -⟩ := ih (fun run hrun ↦ hruns run (by simp [hrun]))
    refine ⟨?_, by simp⟩
    rw [Sentence.spelling, SimpleSentence.spelling_context, List.append_cons]
    exact ((solid_context (hruns _ (by simp)) h).append (Particle.solid_word .la)).append hs

theorem mem_laRuns {words run : List String} (h : run ∈ laRuns words) : ∀ w ∈ run, w ∈ words :=
  fun w hw ↦ mem_of_mem_stripLeading (mem_of_mem_splitDropping h w hw)

theorem text_of_sentence {words : List String} {shown : String} (hwords : Solid words) (hne : words ≠ [])
    (h : (sentence lex words mark shown : Except ParseError Sentence) = .ok s) :
    s.text = Sentence.marked s.spelling (some mark) ∧ Solid s.spelling ∧ s.spelling ≠ [] := by
  rcases (sentence_eq_ok hne).1 h with ⟨first, c, rfl, hc, rfl⟩ | ⟨preconditions, conclusion, hread, rfl⟩
  · refine ⟨rfl, ?_, by simp [Sentence.spelling]⟩
    exact (solid_coordination (hwords.mono fun w hw ↦ List.mem_append_left _ hw) hc).append (Particle.solid_word .la)
  · refine ⟨hread.text_eq, ?_, ?_⟩
    · have hruns : ∀ run ∈ (laRuns words).map (withImpliedLi lex), Solid run := by
        intro run hrun
        obtain ⟨run', hrun', rfl⟩ := List.mem_map.1 hrun
        intro w hw
        rcases mem_withImpliedLi hw with hw | rfl
        · exact hwords w (mem_laRuns hrun' w hw)
        · exact Particle.isSolid_word .li
      obtain ⟨hs, hpre⟩ := hread.solid hruns
      rw [spelling_assembled, Sentence.preconditionSpellings_eq]
      exact (Solid.flatMap fun p hp ↦ (hpre p hp).append (Particle.solid_word .la)).append hs
    · rw [spelling_assembled]
      simp [hread.isClause.1.2]

end Reading

end TokiPona
