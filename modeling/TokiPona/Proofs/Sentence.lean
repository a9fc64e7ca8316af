import TokiPona.Reading.Sentence
import TokiPona.Proofs.Clause

namespace TokiPona.Reading

variable {lex : Lexicon} {words : List String}

theorem isLa_word : isLa Particle.la.word = true := by decide

theorem eq_of_isLa (w : String) (h : isLa w = true) : w = Particle.la.word := by simpa [isLa] using h

theorem isLa_eq_false {w : String} : isLa w = false ↔ w ≠ Particle.la.word := by simp [isLa]

theorem context_eq_ok {c : Context} : (context lex words : Except ParseError Context) = .ok c ↔
    (words.head?.any Word.isPreposition = true ∧ ∃ phrases, c = .prepositional phrases ∧
      List.Forall₂ (ReadsPrepPhrase lex) (splitBefore Word.isPreposition words) phrases) ∨
    (words.head?.any Word.isPreposition = false ∧ ∃ chain, c = .chain chain ∧
      (coordination lex words : Except ParseError Chain) = .ok chain) := by
  unfold context
  cases hhead : words.head?.any Word.isPreposition with
  | true =>
    have hopens : ∀ piece ∈ splitBefore Word.isPreposition words, Opens Word.isPreposition piece := by
      cases words with
      | nil => simp at hhead
      | cons w rest =>
        obtain ⟨body, pieces, hsplit⟩ := splitBefore_cons Word.isPreposition w rest
        obtain ⟨-, htail, hpieces⟩ := splitBefore_eq_cons hsplit
        rw [hsplit]
        exact List.forall_mem_cons.2 ⟨⟨w, body, rfl, by simpa using hhead, htail⟩, hpieces⟩
    simp only [↓reduceIte, map_eq_ok, true_and, Bool.true_eq_false, false_and, or_false]
    refine exists_congr (fun phrases ↦ ?_)
    rw [prepPhrases_eq_ok hopens]
    exact ⟨fun ⟨h, heq⟩ ↦ ⟨heq.symm, h⟩, fun ⟨heq, h⟩ ↦ ⟨h, heq.symm⟩⟩
  | false =>
    simp only [Bool.false_eq_true, ↓reduceIte, map_eq_ok, false_and, true_and, false_or]
    exact exists_congr (fun chain ↦ ⟨fun ⟨h, heq⟩ ↦ ⟨heq.symm, h⟩, fun ⟨heq, h⟩ ↦ ⟨h, heq.symm⟩⟩)

theorem prepositional_ne_nil {phrases : List PrepPhrase}
    (h : (context lex words : Except ParseError Context) = .ok (.prepositional phrases)) : phrases ≠ [] := by
  rcases context_eq_ok.1 h with ⟨hhead, phrases', heq, hread⟩ | ⟨-, chain, heq, -⟩
  · obtain rfl := Context.prepositional.inj heq
    rintro rfl
    have hflat := flatten_splitBefore Word.isPreposition words
    rw [List.forall₂_nil_right_iff.1 hread] at hflat
    simp [← hflat] at hhead
  · simp at heq

/-- How clauses are put together. A clause without a predicate is a context of the condition that follows it, or of the
conclusion. -/
inductive ReadsClauses (lex : Lexicon) (mark : Punctuation) : List (List String) → List Sentence → Sentence → Prop
  | conclusion {words : List String} {s : Sentence}
      (h : (clause lex words (some mark) : Except ParseError Sentence) = .ok s) : ReadsClauses lex mark [words] [] s
  | condition {words : List String} {rest : List (List String)} {p s : Sentence} {preconditions : List Sentence}
      (hli : Particle.li.word ∈ words) (h : (clause lex words none : Except ParseError Sentence) = .ok p)
      (hrest : ReadsClauses lex mark rest preconditions s) : ReadsClauses lex mark (words :: rest) (p :: preconditions) s
  | contextOfCondition {words : List String} {rest : List (List String)} {p : SimpleSentence} {s : Sentence}
      {preconditions : List Sentence} {c : Context} (hne : words ≠ []) (hli : Particle.li.word ∉ words)
      (h : (context lex words : Except ParseError Context) = .ok c)
      (hrest : ReadsClauses lex mark rest (.simple p :: preconditions) s) :
      ReadsClauses lex mark (words :: rest) (.simple { p with contexts := c :: p.contexts } :: preconditions) s
  | contextOfConclusion {words : List String} {rest : List (List String)} {s : SimpleSentence} {c : Context}
      (hne : words ≠ []) (hli : Particle.li.word ∉ words)
      (h : (context lex words : Except ParseError Context) = .ok c) (hrest : ReadsClauses lex mark rest [] (.simple s)) :
      ReadsClauses lex mark (words :: rest) [] (.simple { s with contexts := c :: s.contexts })

theorem withContext_eq_ok {c : Context} {s s' : Sentence} : (withContext c s : Except ParseError Sentence) = .ok s' ↔
    ∃ simple, s = .simple simple ∧ s' = .simple { simple with contexts := c :: simple.contexts } := by
  cases s with
  | simple s => simpa [withContext] using eq_comm
  | _ => simp [withContext]

theorem attach_eq_ok {shown : String} {preconditions preconditions' : List Sentence} {s s' : Sentence} :
    (attach lex shown words (preconditions, s) : Except ParseError _) = .ok (preconditions', s') ↔
      (Particle.li.word ∈ words ∧ ∃ p, (clause lex words none : Except ParseError Sentence) = .ok p ∧
        preconditions' = p :: preconditions ∧ s' = s) ∨
      (words ≠ [] ∧ Particle.li.word ∉ words ∧ ∃ c, (context lex words : Except ParseError Context) = .ok c ∧
        ((∃ p others, preconditions = .simple p :: others ∧
          preconditions' = .simple { p with contexts := c :: p.contexts } :: others ∧ s' = s) ∨
        ∃ simple, preconditions = [] ∧ preconditions' = [] ∧ s = .simple simple ∧
          s' = .simple { simple with contexts := c :: simple.contexts })) := by
  rw [attach]
  split
  case isTrue h => simp_all
  case isFalse h =>
  have hwords : words ≠ [] := by simpa using h
  split
  case isTrue hli =>
    simp only [Particle.isIn_iff.1 hli, bind_eq_ok, pure_eq_ok, Prod.mk.injEq, true_and, not_true_eq_false, false_and,
      and_false, or_false]
    exact exists_congr (fun p ↦ and_congr_right (fun _ ↦ and_congr eq_comm eq_comm))
  case isFalse hli =>
    simp only [Particle.isIn_iff.not.1 hli, hwords, bind_eq_ok, false_and, ne_eq, not_false_eq_true, true_and, false_or]
    refine exists_congr (fun c ↦ and_congr_right (fun _ ↦ ?_))
    cases preconditions with
    | nil =>
      simp only [bind_eq_ok, withContext_eq_ok, pure_eq_ok, Prod.mk.injEq]
      constructor
      · rintro ⟨s'', ⟨simple, rfl, rfl⟩, rfl, rfl⟩
        exact .inr ⟨simple, trivial, rfl, rfl, rfl⟩
      · rintro (⟨p, others, heq, -⟩ | ⟨simple, -, rfl, rfl, rfl⟩)
        · simp at heq
        · exact ⟨_, ⟨simple, rfl, rfl⟩, rfl, rfl⟩
    | cons nearest others =>
      simp only [bind_eq_ok, withContext_eq_ok, pure_eq_ok, Prod.mk.injEq]
      constructor
      · rintro ⟨nearest', ⟨p, rfl, rfl⟩, rfl, rfl⟩
        exact .inl ⟨p, others, rfl, rfl, rfl⟩
      · rintro (⟨p, others', heq, rfl, rfl⟩ | ⟨simple, heq, -⟩)
        · obtain ⟨rfl, rfl⟩ := List.cons.inj heq
          exact ⟨_, ⟨p, rfl, rfl⟩, rfl, rfl⟩
        · simp at heq

theorem clauses_cons_cons {m : Type → Type} [Monad m] [MonadExceptOf ParseError m] [Recall m] (mark : Punctuation)
    (shown : String) (first second : List String) (rest : List (List String)) :
    (clauses lex mark shown (first :: second :: rest) : m (List Sentence × Sentence)) =
      clauses lex mark shown (second :: rest) >>= attach lex shown first := rfl

theorem ReadsClauses.ne_nil {mark : Punctuation} {parts : List (List String)} {preconditions : List Sentence}
    {s : Sentence} (h : ReadsClauses lex mark parts preconditions s) : parts ≠ [] := by
  cases h <;> simp

theorem clauses_eq_ok {mark : Punctuation} {shown : String} {parts : List (List String)}
    {preconditions : List Sentence} {s : Sentence} :
    (clauses lex mark shown parts : Except ParseError _) = .ok (preconditions, s) ↔
      ReadsClauses lex mark parts preconditions s := by
  induction parts generalizing preconditions s with
  | nil =>
    refine ⟨fun h ↦ absurd h (by simp [clauses]), fun h ↦ absurd rfl h.ne_nil⟩
  | cons first rest ih =>
    cases rest with
    | nil =>
      rw [clauses, bind_eq_ok]
      constructor
      · rintro ⟨s', hs', heq⟩
        obtain ⟨rfl, rfl⟩ := Prod.mk.inj (pure_eq_ok.1 heq)
        exact .conclusion hs'
      · intro h
        cases h with
        | conclusion h => exact ⟨s, h, rfl⟩
        | condition _ _ hrest => exact absurd rfl hrest.ne_nil
        | contextOfCondition _ _ _ hrest => exact absurd rfl hrest.ne_nil
        | contextOfConclusion _ _ _ hrest => exact absurd rfl hrest.ne_nil
    | cons second rest =>
      rw [clauses_cons_cons, bind_eq_ok]
      constructor
      · rintro ⟨⟨others, s'⟩, hread, h⟩
        have hrest := ih.1 hread
        rcases attach_eq_ok.1 h with ⟨hli, p, hp, rfl, rfl⟩ | ⟨hne, hli, c, hc, ⟨p, others', rfl, rfl, rfl⟩ |
          ⟨simple, rfl, rfl, rfl, rfl⟩⟩
        · exact .condition hli hp hrest
        · exact .contextOfCondition hne hli hc hrest
        · exact .contextOfConclusion hne hli hc hrest
      · intro h
        cases h with
        | condition hli h hrest => exact ⟨_, ih.2 hrest, attach_eq_ok.2 (.inl ⟨hli, _, h, rfl, rfl⟩)⟩
        | contextOfCondition hne hli h hrest =>
          exact ⟨_, ih.2 hrest, attach_eq_ok.2 (.inr ⟨hne, hli, _, h, .inl ⟨_, _, rfl, rfl, rfl⟩⟩)⟩
        | contextOfConclusion hne hli h hrest =>
          exact ⟨_, ih.2 hrest, attach_eq_ok.2 (.inr ⟨hne, hli, _, h, .inr ⟨_, rfl, rfl, rfl, rfl⟩⟩)⟩

theorem punctuation_of_clause {mark : Option Punctuation} {s : Sentence}
    (h : (clause lex words mark : Except ParseError Sentence) = .ok s) : s.punctuation = mark := by
  rcases clause_eq_ok.1 h with ⟨addressee, -, rfl⟩ | ⟨rest, -, hread⟩
  · rfl
  · cases hread with
    | @intro _ _ _ _ _ _ b _ _ _ _ _ _ _ => cases b <;> rfl

theorem clause_nil (mark : Option Punctuation) (s : Sentence) :
    ¬ (clause lex [] mark : Except ParseError Sentence) = .ok s := nofun

theorem ReadsClauses.punctuation {mark : Punctuation} {parts : List (List String)} {preconditions : List Sentence}
    {s : Sentence} (h : ReadsClauses lex mark parts preconditions s) :
    s.punctuation = some mark ∧ ∀ p ∈ preconditions, p.punctuation = none := by
  induction h with
  | conclusion h => exact ⟨punctuation_of_clause h, by simp⟩
  | condition _ h _ ih => exact ⟨ih.1, List.forall_mem_cons.2 ⟨punctuation_of_clause h, ih.2⟩⟩
  | contextOfCondition _ _ _ _ ih =>
    obtain ⟨hs, hp⟩ := ih
    exact ⟨hs, List.forall_mem_cons.2 ⟨(List.forall_mem_cons.1 hp).1, (List.forall_mem_cons.1 hp).2⟩⟩
  | contextOfConclusion _ _ _ _ ih => exact ih

theorem ReadsClauses.run_ne_nil {mark : Punctuation} {parts : List (List String)} {preconditions : List Sentence}
    {s : Sentence} (h : ReadsClauses lex mark parts preconditions s) : ∀ run ∈ parts, run ≠ [] := by
  induction h with
  | conclusion h =>
    rw [List.forall_mem_singleton]
    rintro rfl
    exact clause_nil _ _ h
  | condition hli _ _ ih => exact List.forall_mem_cons.2 ⟨List.ne_nil_of_mem hli, ih⟩
  | contextOfCondition hne _ _ _ ih => exact List.forall_mem_cons.2 ⟨hne, ih⟩
  | contextOfConclusion hne _ _ _ ih => exact List.forall_mem_cons.2 ⟨hne, ih⟩

def laRuns (words : List String) : List (List String) := splitDropping isLa (stripLeading isLa words)

def assembled (preconditions : List Sentence) (s : Sentence) : Sentence :=
  if preconditions.isEmpty then s else .conditional preconditions s

theorem withImpliedLi_nil : withImpliedLi lex [] = [] := rfl

theorem withImpliedLi_of_mem (h : Particle.li.word ∈ words ∨ Particle.o.word ∈ words) : withImpliedLi lex words = words := by
  rw [withImpliedLi.eq_def, if_pos]
  simpa [Particle.isIn_iff] using h

theorem writeLi_cases (lex : Lexicon) (words : List String) : writeLi lex words = words ∨
    ∃ pronoun next rest, words = pronoun :: next :: rest ∧
      writeLi lex words = pronoun :: Particle.li.word :: next :: rest ∧ IsQuiet pronoun ∧ ¬ IsStructural next := by
  unfold writeLi
  split
  case _ pronoun next rest =>
    split
    case isTrue h =>
      simp only [Bool.and_eq_true, Bool.or_eq_true, beq_iff_eq, Option.isNone_iff_eq_none] at h
      obtain ⟨⟨⟨hpronoun, hnext⟩, -⟩, -⟩ := h
      refine .inr ⟨pronoun, next, rest, rfl, rfl, ?_, ?_⟩
      · have hword : IsPhraseWord pronoun := by
          rcases hpronoun with rfl | rfl <;> simp [IsPhraseWord, Particle.word]
        exact hword.isQuiet
      · rintro ⟨p, -, rfl⟩
        simp at hnext
    · exact .inl rfl
  · exact .inl rfl

theorem withImpliedLi_cases (lex : Lexicon) (words : List String) : withImpliedLi lex words = words ∨
    ∃ front pronoun next rest, words = front ++ pronoun :: next :: rest ∧
      withImpliedLi lex words = front ++ pronoun :: Particle.li.word :: next :: rest ∧ IsQuiet pronoun ∧
        ¬ IsStructural next := by
  unfold withImpliedLi
  split
  · exact .inl rfl
  split
  · exact .inl rfl
  case _ w rest _ =>
    split
    · rcases writeLi_cases lex rest with heq | ⟨pronoun, next, others, rfl, heq, hrest⟩
      · exact .inl (by rw [heq])
      · exact .inr ⟨[w], pronoun, next, others, rfl, by rw [heq]; rfl, hrest⟩
    · rcases writeLi_cases lex (w :: rest) with heq | ⟨pronoun, next, others, hwords, heq, hrest⟩
      · exact .inl heq
      · exact .inr ⟨[], pronoun, next, others, hwords, heq, hrest⟩

theorem mem_withImpliedLi {w : String} (h : w ∈ withImpliedLi lex words) : w ∈ words ∨ w = Particle.li.word := by
  rcases withImpliedLi_cases lex words with heq | ⟨front, pronoun, next, rest, rfl, heq, -, -⟩
  · exact .inl (heq ▸ h)
  · simp only [heq, List.mem_append, List.mem_cons] at h ⊢
    tauto

theorem head?_withImpliedLi (lex : Lexicon) (words : List String) : (withImpliedLi lex words).head? = words.head? := by
  rcases withImpliedLi_cases lex words with heq | ⟨front, pronoun, next, rest, hwords, heq, -, -⟩
  · rw [heq]
  · rw [heq, hwords]
    cases front <;> rfl

theorem map_parts (hne : words ≠ []) :
    ((splitBefore isLa words).map fun part ↦ withImpliedLi lex (stripLeading isLa part)) =
      (laRuns words).map (withImpliedLi lex) := by
  rw [laRuns, ← map_stripLeading_splitBefore isLa hne, List.map_map]
  rfl

theorem ReadsClauses.assemble {mark : Punctuation} {runs : List (List String)} {preconditions : List Sentence}
    {conclusion : Sentence} (h : ReadsClauses lex mark runs preconditions conclusion) :
    (if preconditions.isEmpty then pure conclusion else conditional preconditions conclusion :
      Except ParseError Sentence) = .ok (assembled preconditions conclusion) := by
  obtain ⟨hmark, hpre⟩ := h.punctuation
  have hany : preconditions.any (·.punctuation.isSome) = false := by
    rw [List.any_eq_false]
    exact fun p hp ↦ by simp [hpre p hp]
  unfold assembled
  split
  · rfl
  · simp [conditional, hmark, hany]

theorem assembled_eq_ok {mark : Punctuation} {shown : String} {runs : List (List String)} {s : Sentence} :
    (do
      let (preconditions, conclusion) ← clauses lex mark shown runs
      if preconditions.isEmpty then pure conclusion else conditional preconditions conclusion :
        Except ParseError Sentence) = .ok s ↔
      ∃ preconditions conclusion, ReadsClauses lex mark runs preconditions conclusion ∧
        s = assembled preconditions conclusion := by
  rw [bind_eq_ok]
  constructor
  · rintro ⟨⟨preconditions, conclusion⟩, hread, h⟩
    have hclauses := clauses_eq_ok.1 hread
    refine ⟨preconditions, conclusion, hclauses, ?_⟩
    exact Except.ok.inj (h.symm.trans hclauses.assemble)
  · rintro ⟨preconditions, conclusion, h, rfl⟩
    exact ⟨(preconditions, conclusion), clauses_eq_ok.2 h, h.assemble⟩

theorem last_run_eq_nil (lex : Lexicon) {first second : List String} {parts : List (List String)} {w : String}
    (hparts : splitBefore isLa words = first :: second :: parts)
    (hlast : (first :: second :: parts).getLast? = some [w]) :
    w = Particle.la.word ∧ ((laRuns words).map (withImpliedLi lex)).getLast? = some [] := by
  have hmem : [w] ∈ second :: parts := by
    rw [List.getLast?_cons_of_ne_nil (by simp)] at hlast
    exact List.mem_of_getLast? hlast
  obtain ⟨v, body, heq, hv, -⟩ := (splitBefore_eq_cons hparts).2.2 [w] hmem
  obtain ⟨rfl, rfl⟩ := List.cons.inj heq
  have hne : words ≠ [] := by
    rintro rfl
    simp [splitBefore] at hparts
  refine ⟨eq_of_isLa w hv, ?_⟩
  rw [← map_parts hne, hparts, List.getLast?_map, hlast]
  simp [stripLeading, hv, withImpliedLi_nil]

theorem sentence_eq_ok {mark : Punctuation} {shown : String} {s : Sentence} (hne : words ≠ []) :
    (sentence lex words mark shown : Except ParseError Sentence) = .ok s ↔
      (∃ first c, words = first ++ [Particle.la.word] ∧ (coordination lex first : Except ParseError Chain) = .ok c ∧
        s = .fragment c (some mark)) ∨
      ∃ preconditions conclusion, ReadsClauses lex mark ((laRuns words).map (withImpliedLi lex)) preconditions conclusion ∧
        s = assembled preconditions conclusion := by
  constructor
  · intro h
    unfold sentence at h
    dsimp only at h
    split at h
    case _ first second w hparts hlast =>
      obtain ⟨c, hc, rfl⟩ := map_eq_ok.1 h
      obtain ⟨rfl, -⟩ := last_run_eq_nil lex hparts (hparts ▸ hlast)
      obtain rfl : second = [Particle.la.word] := by simpa [hparts] using hlast
      refine .inl ⟨first, c, ?_, hc, rfl⟩
      rw [← flatten_splitBefore isLa words, hparts]
      simp
    · exact absurd h throw_ne_ok
    · rw [map_parts hne] at h
      exact .inr (assembled_eq_ok.1 h)
  · rintro (⟨first, c, rfl, hc, rfl⟩ | ⟨preconditions, conclusion, hread, rfl⟩)
    · obtain ⟨hfirst, hla, -⟩ := coordinationOver_eq_ok.1 hc
      have hparts : splitBefore isLa (first ++ [Particle.la.word]) = [first, [Particle.la.word]] := by
        refine splitBefore_append_of_opens (p := isLa) hfirst (fun w hw ↦ isLa_eq_false.2 ?_) isLa_word []
        rintro rfl
        exact hla (List.mem_of_mem_tail hw)
      simp [sentence, hparts, hc]
    · have hlast : ((laRuns words).map (withImpliedLi lex)).getLast? ≠ some [] :=
        fun hnil ↦ hread.run_ne_nil _ (List.mem_of_getLast? hnil) rfl
      unfold sentence
      dsimp only
      split
      case _ hparts h => exact absurd (last_run_eq_nil lex hparts (hparts ▸ h)).2 hlast
      case _ hparts h => exact absurd (last_run_eq_nil lex hparts (hparts ▸ h)).2 hlast
      · rw [map_parts hne]
        exact assembled_eq_ok.2 ⟨preconditions, conclusion, hread, rfl⟩

end TokiPona.Reading
