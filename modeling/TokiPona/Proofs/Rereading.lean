import TokiPona.Proofs.Assembly
import TokiPona.Proofs.Formed

namespace TokiPona

open Reading

/-- A context that is read again from its spelling, and into which no `li` is written. -/
def Context.IsRereadable (lex : Lexicon) : Context → Prop
  | chain c => c.KeepsEn ∧ withImpliedLi lex c.spelling = c.spelling
  | prepositional phrases => ∀ p ∈ phrases, p.KeepsEn

/-- What each part of a simple sentence has to be; it must not look like a tag question or an exclamation either. -/
structure SimpleSentence.IsRereadable (g : Grammar) (s : SimpleSentence) : Prop where
  contexts : ∀ c ∈ s.contexts, c.IsRereadable g.lexicon
  vocatives : ∀ c ∈ s.vocatives, c.KeepsEn
  subject : ∀ c ∈ s.writtenSubject, c.KeepsEn
  predicates : ∀ p ∈ s.predicates, p.IsRereadable g.dialect
  tag : s.tagQuestion = false → ¬ Reading.tag <:+ s.body
  exclamation : s.subject = none → ∀ p, s.predicates = [p] → Reading.exclamation g.lexicon p.spelling = none

/-- Only simple sentences are conditions; a call or an exclamation must not look like a clause with a conjunction. -/
def Sentence.IsRereadable (g : Grammar) : Sentence → Prop
  | simple s => s.IsRereadable g
  | conditional preconditions conclusion =>
    (∀ p ∈ preconditions, ∃ s, p = .simple s ∧ s.IsRereadable g) ∧ conclusion.IsRereadable g ∧ Leads conclusion.spelling
  | vocative addressee _ => addressee.KeepsEn ∧ ¬ OpensWithConjunction (addressee.spelling ++ [Particle.o.word])
  | fragment context _ => context.KeepsEn
  | exclamation phrase _ => ¬ OpensWithConjunction phrase.spelling ∧ phrase.spelling.head? ≠ some Particle.li.word
  | comment _ => True

variable {g : Grammar} {s : SimpleSentence}

theorem Reading.ReadsPredicate.isSettled {lex : Lexicon} {dialect : Dialect} {part : List String} {p : Predicate}
    (h : ReadsPredicate lex part p) (hp : p.IsRereadable dialect)
    (hpart : ∀ w ∈ part.tail, w ≠ Particle.li.word ∧ w ≠ Particle.la.word ∧ w ≠ Particle.o.word) : p.IsSettled lex := by
  refine ⟨h.spelling hp, fun w hw ↦ ?_⟩
  obtain ⟨body, tail, rfl, heq, htail⟩ := h.mem_spelling
  rw [heq] at hw
  rcases htail w hw with hmem | ⟨hnone, v, hv, hw⟩
  · exact hpart w hmem
  · obtain ⟨⟨hstructural, ho⟩, -⟩ := hp.verb hnone v hv w hw
    refine ⟨?_, ?_, ho⟩
    · rintro rfl
      exact hstructural ⟨.li, rfl, rfl⟩
    · rintro rfl
      exact hstructural ⟨.la, rfl, rfl⟩

namespace SimpleSentence.IsRead

theorem isSettled (h : s.IsRead g.lexicon) (hs : s.IsRereadable g) : s.IsSettled g.lexicon := by
  refine ⟨h.toIsFormed, fun c hc ↦ ?_, fun c hc ↦ ?_, fun p hp ↦ ?_, hs.tag, hs.exclamation⟩
  · obtain ⟨words, hread⟩ := h.vocatives_read c hc
    exact coordination_spelling hread (hs.vocatives c hc)
  · have hsubject : c ∈ s.subject := by
      unfold writtenSubject at hc
      split at hc
      · simp at hc
      · exact hc
    obtain ⟨words, hread⟩ := h.subject_read c hsubject
    exact coordination_spelling hread (hs.subject c hc)
  · obtain ⟨part, hread, hpart⟩ := h.predicates_read p hp
    exact hread.isSettled (hs.predicates p hp) hpart

theorem tame_predicates (h : s.IsRead g.lexicon) (hs : s.IsRereadable g) :
    Tame g.dialect (s.predicates.flatMap Predicate.spelling) := by
  refine .flatMap (fun p hp ↦ ?_)
  obtain ⟨part, hread, hpart⟩ := h.predicates_read p hp
  exact hread.tame (hs.predicates p hp) hpart

end SimpleSentence.IsRead

theorem SimpleSentence.particle_mem_spelling {p : Predicate} (hp : p ∈ s.predicates) : p.particle.word ∈ s.spelling := by
  have hmem : p.particle.word ∈ s.predicates.flatMap Predicate.spelling :=
    List.mem_flatMap.2 ⟨p, hp, by simp [Predicate.spelling]⟩
  simp [spelling_eq, ending, body, hmem]

namespace SimpleSentence.IsSettled

variable {lex : Lexicon}

theorem leads_predicates (h : s.IsSettled lex) (ho : ∀ p ∈ s.predicates.head?, p.particle = .o) :
    Leads (s.predicates.flatMap Predicate.spelling) := by
  obtain ⟨p, predicates, heq⟩ := List.exists_cons_of_ne_nil h.predicates
  obtain ⟨tail, hp, -, -⟩ := (h.predicates_settled p (by simp [heq])).spelling_eq
  rw [heq, List.flatMap_cons, hp, ho p (by simp [heq])]
  exact ⟨Particle.o.word, _, rfl, isStructural_word.not.2 (by decide)⟩

theorem tame_body (h : s.IsSettled lex) {dialect : Dialect}
    (hpredicates : Tame dialect (s.predicates.flatMap Predicate.spelling)) : Tame dialect s.body ∧ Leads s.body := by
  have hstated {c : Chain} (hplaceholder : s.placeholder = false) (hc : s.subject = some c) :
      Tame dialect (c.spelling ++ s.predicates.flatMap Predicate.spelling) ∧
        Leads (c.spelling ++ s.predicates.flatMap Predicate.spelling) := by
    obtain ⟨htame, hleads⟩ := tame_coordination (h.subject_read hplaceholder hc) dialect
    exact ⟨htame.append hpredicates, hleads.append _⟩
  cases h.shape with
  | statement c hmood hplaceholder hc _ _ =>
    rw [body_stated hplaceholder hc (by simp [hmood])]
    exact hstated hplaceholder hc
  | request c hmood hplaceholder _ hc _ _ =>
    rw [body_stated hplaceholder hc (by simp [hmood])]
    exact hstated hplaceholder hc
  | command hmood hplaceholder _ hc ho =>
    have hbody : s.body = s.predicates.flatMap Predicate.spelling := by
      simp [body, hmood, writtenSubject, hplaceholder, hc]
    rw [hbody]
    exact ⟨hpredicates, h.leads_predicates (fun p hp ↦ ho p (List.mem_of_head? hp))⟩
  | wish c hmood hplaceholder _ _ hc _ =>
    have hbody : s.body = Particle.o.word :: (c.spelling ++ s.predicates.flatMap Predicate.spelling) := by
      simp [body, hmood, writtenSubject, hplaceholder, hc]
    obtain ⟨htame, hleads⟩ := hstated hplaceholder hc
    rw [hbody]
    exact ⟨htame.cons_leads hleads _, ⟨_, _, rfl, isStructural_word.not.2 (by decide)⟩⟩
  | told c first rest hmood hplaceholder _ _ _ _ heq ho =>
    rw [body_told hplaceholder hmood]
    exact ⟨hpredicates, h.leads_predicates (by simpa [heq] using ho)⟩

theorem tame_ending (h : s.IsSettled lex) {dialect : Dialect}
    (hpredicates : Tame dialect (s.predicates.flatMap Predicate.spelling)) : Tame dialect s.ending ∧ Leads s.ending := by
  obtain ⟨hbody, hleads⟩ := h.tame_body hpredicates
  have hconj : ∀ w ∈ s.conjunction.toList.map Particle.word, IsQuiet w := by
    intro w hw
    obtain ⟨p, hp, rfl⟩ := List.mem_map.1 hw
    have hconj := h.conjunction p (by simpa using hp)
    exact isQuiet_word.2 (by cases p <;> simp [Particle.isConjunction] at hconj <;> decide)
  have htag : Tame dialect (if s.tagQuestion then tag else []) := by
    split
    · exact .of_quiet isQuiet_tag
    · exact .nil
  refine ⟨(Tame.of_quiet hconj).append (hbody.append htag), ?_⟩
  unfold ending
  cases hc : s.conjunction with
  | none => simpa using hleads.append _
  | some p => exact ⟨p.word, _, rfl, (hconj p.word (by simp [hc])).1⟩

theorem tame_spelling (h : s.IsSettled lex) {dialect : Dialect}
    (hpredicates : Tame dialect (s.predicates.flatMap Predicate.spelling)) : Tame dialect s.spelling ∧ Leads s.spelling := by
  have hending := h.tame_ending hpredicates
  have hcalls {calls : List Chain} (hcalls : ∀ c ∈ calls, c.IsSettled lex) :
      Tame dialect (calls.flatMap (·.spelling ++ [Particle.o.word]) ++ s.ending) ∧
        Leads (calls.flatMap (·.spelling ++ [Particle.o.word]) ++ s.ending) := by
    induction calls with
    | nil => exact hending
    | cons c calls ih =>
      obtain ⟨htame, hleads⟩ := ih (fun d hd ↦ hcalls d (by simp [hd]))
      obtain ⟨hc, hc'⟩ := tame_coordination (hcalls c (by simp)) dialect
      simp only [List.flatMap_cons, List.append_assoc, List.singleton_append]
      exact ⟨hc.append (htame.cons_leads hleads _), hc'.append _⟩
  rw [spelling_eq, h.contexts, List.flatMap_nil, List.nil_append]
  exact hcalls h.vocatives_settled

theorem la_notMem_spelling (h : s.IsSettled lex) : Particle.la.word ∉ s.spelling := by
  rw [spelling_eq, h.contexts, List.flatMap_nil, List.nil_append]
  simp only [ending, List.mem_append, not_or]
  refine ⟨fun hmem ↦ ?_, fun hmem ↦ ?_, h.la_notMem, fun hmem ↦ ?_⟩
  · obtain ⟨c, hc, hmem⟩ := List.mem_flatMap.1 hmem
    rcases List.mem_append.1 hmem with hmem | hmem
    · exact (notMem_of_coordination (h.vocatives_settled c hc) _ hmem).2.1 rfl
    · simp [Particle.word] at hmem
  · obtain ⟨p, hp, heq⟩ := List.mem_map.1 hmem
    have hconj := h.conjunction p (by simpa using hp)
    obtain rfl : p = .la := Particle.word_inj.1 heq
    simp [Particle.isConjunction] at hconj
  · split at hmem <;> simp [tag, Particle.word] at hmem

theorem governed (h : s.IsSettled lex) : Particle.li.word ∈ s.spelling ∨ Particle.o.word ∈ s.spelling := by
  obtain ⟨p, hp⟩ := List.exists_mem_of_ne_nil _ h.predicates
  obtain ⟨-, -, -, hgov⟩ := (h.predicates_settled p hp).spelling_eq
  have hmem := particle_mem_spelling hp
  cases hparticle : p.particle <;> simp_all [Particle.isGoverning]

end SimpleSentence.IsSettled

namespace Reading

variable {lex : Lexicon} {words : List String}

theorem head?_of_coordination {c : Chain} (h : (coordination lex words : Except ParseError Chain) = .ok c) :
    words.head?.any Word.isPreposition = false := by
  cases words with
  | nil => rfl
  | cons w rest =>
    simp only [List.head?_cons, Option.any_some]
    by_contra hw
    rw [Bool.not_eq_false] at hw
    have hen : isEn w = false := by
      rw [← Bool.not_eq_true, isEn, beq_iff_eq]
      rintro rfl
      simp [isPreposition_word] at hw
    have hpi : isPi w = false := by
      rw [← Bool.not_eq_true, isPi, beq_iff_eq]
      rintro rfl
      simp [isPreposition_word] at hw
    obtain ⟨run, runs, hruns⟩ := splitDropping_cons hen rest
    obtain ⟨part, parts, hparts⟩ := splitDropping_cons hpi run
    obtain ⟨p, hp⟩ := phrases_of_coordination h (w :: run) (by simp [hruns]) (by simp) (w :: part) (by simp [hparts])
    obtain ⟨-, first, pieces, hsplit, hplain, -⟩ := phrase_eq_ok.1 hp
    obtain ⟨body, others, hbody⟩ := splitBefore_cons Word.isPreposition w part
    obtain ⟨rfl, -⟩ := List.cons.inj (hsplit.symm.trans hbody)
    simp [hplain w (by simp)] at hw

theorem withImpliedLi_of_preposition {w : String} (hw : Word.isPreposition w = true) (rest : List String) :
    withImpliedLi lex (w :: rest) = w :: rest := by
  have hpronoun : (w == "mi" || w == "sina") = false := by
    rw [Bool.or_eq_false_iff]
    refine ⟨?_, ?_⟩ <;>
    · rw [beq_eq_false_iff_ne]
      rintro rfl
      simp [Word.isPreposition] at hw
  unfold withImpliedLi
  split
  · rfl
  · cases rest <;> simp [ofWord?_of_isPreposition hw, writeLi, hpronoun]

theorem ReadsPrepPhrase.notMem {piece : List String} {p : PrepPhrase} (h : ReadsPrepPhrase lex piece p) :
    ∀ w ∈ piece, w ≠ Particle.li.word ∧ w ≠ Particle.la.word := by
  intro w hw
  rcases h.mem w hw with hprep | rfl | rfl | hword
  · refine ⟨?_, ?_⟩ <;>
    · rintro rfl
      simp [isPreposition_word] at hprep
  · decide
  · decide
  · exact ⟨hword .li (by simp), hword .la (by simp)⟩

theorem context_spelling {c : Context} (h : (context lex words : Except ParseError Context) = .ok c)
    (hc : c.IsRereadable lex) : (context lex c.spelling : Except ParseError Context) = .ok c ∧
      withImpliedLi lex c.spelling = c.spelling ∧ ∀ w ∈ c.spelling, w ≠ Particle.li.word ∧ w ≠ Particle.la.word := by
  rw [context_eq_ok]
  rcases context_eq_ok.1 h with ⟨-, phrases, rfl, hread⟩ | ⟨-, chain, rfl, hread⟩
  · have hagain := readsPrepPhrases_spelling hread hc
    obtain ⟨q, others, rfl⟩ := List.exists_cons_of_ne_nil (prepositional_ne_nil h)
    obtain ⟨hq, hothers⟩ := List.forall₂_cons.1 hagain
    obtain ⟨w, rest, heq, hw, hrest⟩ := hq.opens
    have hspelling : (Context.prepositional (q :: others)).spelling =
        q.spelling ++ (others.map PrepPhrase.spelling).flatten := by
      simp [Context.spelling, List.flatMap_def]
    have hsplit : splitBefore Word.isPreposition (Context.prepositional (q :: others)).spelling =
        (q :: others).map PrepPhrase.spelling := by
      rw [hspelling]
      refine splitBefore_append_flatten hq.opens.ne_nil (by rwa [heq]) (fun piece hpiece ↦ ?_)
      obtain ⟨p, -, hp⟩ := forall₂_exists_of_mem hothers hpiece
      exact hp.opens
    refine ⟨.inl ⟨?_, q :: others, rfl, hsplit ▸ hagain⟩, ?_, fun v hv ↦ ?_⟩
    · simp [hspelling, heq, hw]
    · rw [hspelling, heq]
      exact withImpliedLi_of_preposition hw _
    · obtain ⟨p, hp, hv⟩ := List.mem_flatMap.1 hv
      obtain ⟨p, -, hp⟩ := forall₂_exists_of_mem hagain (List.mem_map_of_mem hp)
      exact hp.notMem v hv
  · have hagain := coordination_spelling hread hc.1
    refine ⟨.inr ⟨head?_of_coordination hagain, chain, rfl, hagain⟩, hc.2, fun w hw ↦ ?_⟩
    obtain ⟨hli, hla, -⟩ := notMem_of_coordination hagain w hw
    exact ⟨hli, hla⟩

theorem tame_context {c : Context} (h : (context lex words : Except ParseError Context) = .ok c) (dialect : Dialect) :
    Tame dialect c.spelling ∧ Leads c.spelling := by
  rcases context_eq_ok.1 h with ⟨-, phrases, rfl, hread⟩ | ⟨-, chain, rfl, hread⟩
  · obtain ⟨htame, hleads⟩ := tame_spellings hread dialect
    rw [Context.spelling, List.flatMap_def]
    exact ⟨htame, hleads (prepositional_ne_nil h)⟩
  · exact tame_coordination hread dialect

theorem clause_of_body {mark : Option Punctuation} {mood : Mood} {b : Body} (hspread : Spread words)
    (hinner : hasInnerO words = false ∨ Particle.li.word ∉ words) (hconj : ¬ OpensWithConjunction words)
    (htag : ¬ EndsInTag words) (hmood : takeMood .declarative words = (mood, words))
    (hlast : words.getLast? ≠ some Particle.li.word) (hla : Particle.la.word ∉ words) (hne : words ≠ [])
    (hbody : ReadsBody lex (splitBefore isGovernor words) b) :
    (clause lex words mark : Except ParseError Sentence) = .ok (b.sentence mark { words } none false mood) :=
  clause_eq_ok.2 (.inr ⟨_, .of_spread hspread hinner,
    .intro (takeConjunction_of_not hconj) (takeTag_of_not htag) hmood hlast hla hne hbody⟩)

theorem clause_vocative {c : Chain} (h : c.IsSettled lex)
    (hconj : ¬ OpensWithConjunction (c.spelling ++ [Particle.o.word])) (mark : Option Punctuation) :
    (clause lex (c.spelling ++ [Particle.o.word]) mark : Except ParseError Sentence) = .ok (.vocative c mark) := by
  have hwords := notMem_of_coordination h
  obtain ⟨w, rest, heq⟩ := List.exists_cons_of_ne_nil (coordinationOver_eq_ok.1 h).1
  have hhead : (c.spelling ++ [Particle.o.word]).head? = some w := by simp [heq]
  have ho : ∀ v ∈ c.spelling, isO v = false := fun v hv ↦ isO_eq_false.2 (hwords v hv).2.2.1
  have hbody : ReadsBody lex (splitBefore isGovernor (c.spelling ++ [Particle.o.word])) (.call c) := by
    rw [splitBefore_append_of_opens (by simp [heq]) (fun v hv ↦ ?_) (by decide) []]
    · exact .call h
    · obtain ⟨hli, -, ho, -⟩ := hwords v (List.mem_of_mem_tail hv)
      exact isGovernor_eq_false.2 ⟨hli, ho⟩
  refine clause_of_body ?_ (.inr ?_) hconj ?_ (takeMood_of_head_ne ?_) ?_ ?_ ?_ hbody
  · exact (Spread.of_forall ho).append (.singleton _) (.inl fun v hv ↦ ho v (List.mem_of_getLast? hv))
  · rw [List.mem_append, not_or]
    exact ⟨fun hmem ↦ (hwords _ hmem).1 rfl, by decide⟩
  · rintro ⟨init, -, htag⟩
    have hlast := congrArg List.getLast? htag
    simp [tag, Particle.word] at hlast
  · rw [hhead]
    simpa using (hwords w (by simp [heq])).2.2.1
  · simp [Particle.word]
  · rw [List.mem_append, not_or]
    exact ⟨fun hmem ↦ (hwords _ hmem).2.1 rfl, by decide⟩
  · simp

theorem clause_exclamation {phrase : Phrase} (h : exclamation lex words = some phrase) (hla : Particle.la.word ∉ words)
    (hconj : ¬ OpensWithConjunction words) (hhead : words.head? ≠ some Particle.li.word) (mark : Option Punctuation) :
    (clause lex words mark : Except ParseError Sentence) = .ok (.exclamation phrase mark) := by
  obtain ⟨w, rest, rfl, -, hrest, -⟩ := exclamation_eq_some.1 h
  have hnot : ∀ v ∈ rest, v ≠ Particle.li.word ∧ v ≠ Particle.o.word ∧ v ≠ "seme" := by
    intro v hv
    rcases hrest v hv with rfl | rfl <;> decide
  have ho : ∀ v ∈ rest, isO v = false := fun v hv ↦ isO_eq_false.2 (hnot v hv).2.1
  have hbody : ReadsBody lex (splitBefore isGovernor (w :: rest)) (.exclamation phrase) := by
    have htail : ∀ v ∈ (w :: rest).tail, isGovernor v = false :=
      fun v hv ↦ isGovernor_eq_false.2 ⟨(hnot v hv).1, (hnot v hv).2.1⟩
    rw [splitBefore_of_tail (by simp) htail]
    exact .exclamation h
  obtain ⟨mood, hmood⟩ : ∃ mood, takeMood .declarative (w :: rest) = (mood, w :: rest) := by
    rcases takeMood_cases .declarative (w :: rest) with ⟨others, heq, hli, -⟩ | ⟨others, -, -, heq⟩ | ⟨-, heq⟩
    · obtain ⟨rfl, rfl⟩ := List.cons.inj heq
      exact absurd rfl (hnot _ hli).1
    · exact ⟨_, heq⟩
    · exact ⟨_, heq⟩
  refine clause_of_body ?_ (.inl (hasInnerO_eq_false ?_)) hconj ?_ hmood ?_ hla (by simp) hbody
  · exact (Spread.of_forall ho).cons w (fun v hv ↦ ho v (List.mem_of_head? hv))
  · exact fun hmem ↦ (hnot _ hmem).2.1 rfl
  · rintro ⟨init, hne, heq⟩
    obtain ⟨v, init, rfl⟩ := List.exists_cons_of_ne_nil hne
    obtain ⟨rfl, rfl⟩ := List.cons.inj heq
    exact (hnot "seme" (by simp [tag])).2.2 rfl
  · intro hlast
    rcases eq_or_ne rest [] with rfl | hne
    · exact hhead (by simpa using hlast)
    · rw [List.getLast?_cons_of_ne_nil hne] at hlast
      exact (hnot _ (List.mem_of_getLast? hlast)).1 rfl

theorem withImpliedLi_exclamation {phrase : Phrase} (h : exclamation lex words = some phrase)
    (hconj : ¬ OpensWithConjunction words) : withImpliedLi lex words = words := by
  obtain ⟨w, rest, rfl, -, hrest, -⟩ := exclamation_eq_some.1 h
  unfold withImpliedLi
  split
  · rfl
  dsimp only
  split
  case isTrue hw =>
    obtain ⟨p, hp, hpc⟩ := (Option.any_eq_true _ _).1 hw
    obtain rfl := Particle.word_of_ofWord? hp
    cases rest with
    | nil => rfl
    | cons v rest => exact absurd ⟨p, hpc, v :: rest, by simp, rfl⟩ hconj
  case isFalse hw =>
    cases rest with
    | nil => rfl
    | cons v rest =>
      have hv : (Particle.ofWord? v).isNone = false := by
        rcases hrest v (by simp) with rfl | rfl <;> simp
      simp [writeLi, hv]

structure Joins (g : Grammar) (runs : List (List String)) (words : List String) : Prop where
  eq : [Particle.la.word].intercalate runs = words
  run : ∀ run ∈ runs, run ≠ [] ∧ Particle.la.word ∉ run ∧ withImpliedLi g.lexicon run = run
  isChain : words.IsChain (MayFollow g.dialect)
  last : words.getLast? ≠ some Particle.li.word

theorem Joins.single (hne : words ≠ []) (hla : Particle.la.word ∉ words) (hli : withImpliedLi g.lexicon words = words)
    (hchain : words.IsChain (MayFollow g.dialect)) (hlast : words.getLast? ≠ some Particle.li.word) : Joins g [words] words :=
  ⟨List.intercalate_singleton, by simpa using ⟨hne, hla, hli⟩, hchain, hlast⟩

theorem Joins.cons {runs : List (List String)} {run : List String} (h : Joins g runs words) (hne : runs ≠ [])
    (hleads : Leads words) (hrun : Tame g.dialect run ∧ Leads run) (hla : Particle.la.word ∉ run)
    (hli : withImpliedLi g.lexicon run = run) : Joins g (run :: runs) (run ++ Particle.la.word :: words) := by
  obtain ⟨htame, hrleads⟩ := hrun
  obtain ⟨w, rest, rfl, hw⟩ := hleads
  refine ⟨?_, List.forall_mem_cons.2 ⟨⟨hrleads.ne_nil, hla, hli⟩, h.run⟩, List.isChain_append.2 ⟨htame.isChain, ?_, ?_⟩, ?_⟩
  · rw [List.intercalate_cons_of_ne_nil hne, h.eq, List.append_assoc, List.singleton_append]
  · exact List.isChain_cons_cons.2 ⟨fun hs ↦ absurd hs hw, h.isChain⟩
  · exact fun v hv u _ ↦ .of_quiet (htame.quiet v hv)
  · have hlast := h.last
    rwa [List.getLast?_append_of_ne_nil _ (by simp), List.getLast?_cons_of_ne_nil (by simp)]

theorem isChain_of_tail {dialect : Dialect} (h : ∀ w ∈ words.tail, ¬ IsStructural w) :
    words.IsChain (MayFollow dialect) := by
  induction words with
  | nil => exact .nil
  | cons v words ih =>
    cases words with
    | nil => exact .singleton v
    | cons w words => exact .cons_cons (fun hs ↦ absurd hs (h w (by simp))) (ih (fun u hu ↦ h u (List.mem_cons_of_mem w hu)))

theorem joins_simple {s : SimpleSentence} (h : s.IsRead g.lexicon) (hs : s.IsRereadable g) :
    (Tame g.dialect s.spelling ∧ Leads s.spelling) ∧ Particle.la.word ∉ s.spelling ∧
      withImpliedLi g.lexicon s.spelling = s.spelling := by
  have hsettled := h.isSettled hs
  exact ⟨hsettled.tame_spelling (h.tame_predicates hs), hsettled.la_notMem_spelling, withImpliedLi_of_mem hsettled.governed⟩

theorem joins_clause {mark : Option Punctuation} {s : Sentence}
    (h : (clause g.lexicon words mark : Except ParseError Sentence) = .ok s) (hs : s.IsRereadable g) :
    (clause g.lexicon s.spelling mark : Except ParseError Sentence) = .ok s ∧ Joins g [s.spelling] s.spelling ∧
      (Leads s.spelling ∨ ∃ phrase mark, s = .exclamation phrase mark) := by
  have hmark := punctuation_of_clause h
  cases isRead_of_clause h with
  | @simple s hread =>
    have hsettled := hread.isSettled hs
    obtain ⟨⟨htame, hleads⟩, hla, hli⟩ := joins_simple hread hs
    refine ⟨?_, .single hleads.ne_nil hla hli htame.isChain (fun hlast ↦ ?_), .inl hleads⟩
    · rw [← hmark]
      exact hsettled.clause_spelling
    · exact (htame.quiet _ hlast).1 ⟨.li, rfl, rfl⟩
  | @vocative run c mark hread =>
    obtain ⟨hen, hconj⟩ := hs
    have hsettled := coordination_spelling hread hen
    obtain ⟨htame, hleads⟩ := tame_coordination hread g.dialect
    rw [← hmark]
    refine ⟨clause_vocative hsettled hconj mark, .single (by simp [Sentence.spelling]) ?_ ?_ ?_ ?_, .inl (hleads.append _)⟩
    · rw [Sentence.spelling, List.mem_append, not_or]
      exact ⟨fun hmem ↦ (notMem_of_coordination hsettled _ hmem).2.1 rfl, by decide⟩
    · exact withImpliedLi_of_mem (.inr (by simp [Sentence.spelling]))
    · exact List.isChain_append.2 ⟨htame.isChain, .singleton _, fun v hv _ _ ↦ .of_quiet (htame.quiet v hv)⟩
    · simp [Sentence.spelling, Particle.word]
  | @exclamation run phrase mark hphrase hla =>
    obtain ⟨hconj, hhead⟩ := hs
    rw [← hmark, Sentence.spelling]
    obtain ⟨heq, hne⟩ := spelling_exclamation hphrase
    rw [heq] at hconj hhead ⊢
    obtain ⟨w, rest, rfl, -, hrest, -⟩ := exclamation_eq_some.1 hphrase
    have hquiet : ∀ v ∈ rest, IsQuiet v := by
      intro v hv
      rcases hrest v hv with rfl | rfl <;> exact isQuiet_word.2 (by decide)
    refine ⟨clause_exclamation hphrase hla hconj hhead mark,
      .single hne hla (withImpliedLi_exclamation hphrase hconj) (isChain_of_tail fun v hv ↦ (hquiet v hv).1) ?_,
      .inr ⟨_, _, rfl⟩⟩
    intro hlast
    rcases eq_or_ne rest [] with rfl | hne
    · exact hhead (by simpa using hlast)
    · rw [List.getLast?_cons_of_ne_nil hne] at hlast
      exact (hquiet _ (List.mem_of_getLast? hlast)).1 ⟨.li, rfl, rfl⟩

theorem isRereadable_context {s : SimpleSentence} {c : Context} :
    { s with contexts := c :: s.contexts }.IsRereadable g ↔ c.IsRereadable g.lexicon ∧ s.IsRereadable g := by
  constructor
  · intro h
    obtain ⟨hc, hcontexts⟩ := List.forall_mem_cons.1 h.contexts
    exact ⟨hc, hcontexts, h.vocatives, h.subject, h.predicates, h.tag, h.exclamation⟩
  · rintro ⟨hc, hs⟩
    exact ⟨List.forall_mem_cons.2 ⟨hc, hs.contexts⟩, hs.vocatives, hs.subject, hs.predicates, hs.tag, hs.exclamation⟩

theorem Joins.context {runs : List (List String)} {run : List String} {c : Context} (h : Joins g runs words)
    (hne : runs ≠ []) (hleads : Leads words) (hread : (context g.lexicon run : Except ParseError Context) = .ok c)
    (hc : c.IsRereadable g.lexicon) :
    Joins g (c.spelling :: runs) (c.spelling ++ Particle.la.word :: words) := by
  obtain ⟨-, himplied, hnot⟩ := context_spelling hread hc
  exact h.cons hne hleads (tame_context hread g.dialect) (fun hmem ↦ (hnot _ hmem).2 rfl) himplied

theorem ReadsClauses.reread {mark : Punctuation} {runs : List (List String)} {preconditions : List Sentence} {s : Sentence}
    (h : ReadsClauses g.lexicon mark runs preconditions s)
    (hpre : ∀ p ∈ preconditions, ∃ simple, p = .simple simple ∧ simple.IsRereadable g) (hs : s.IsRereadable g)
    (hleads : preconditions ≠ [] → Leads s.spelling) :
    ∃ runs', ReadsClauses g.lexicon mark runs' preconditions s ∧ Joins g runs' (assembled preconditions s).spelling ∧
      (Leads (assembled preconditions s).spelling ∨ (preconditions = [] ∧ ∃ phrase mark, s = .exclamation phrase mark)) := by
  simp only [spelling_assembled, Sentence.preconditionSpellings_eq]
  induction h with
  | @conclusion words s h =>
    obtain ⟨hread, hjoins, hlead⟩ := joins_clause h hs
    exact ⟨[s.spelling], .conclusion hread, by simpa using hjoins, hlead.imp (by simp) fun hexcl ↦ ⟨rfl, hexcl⟩⟩
  | @condition words rest p s preconditions hli h hrest ih =>
    obtain ⟨⟨simple, rfl, hp⟩, hothers⟩ := List.forall_mem_cons.1 hpre
    obtain ⟨runs, hruns, hjoins, hlead⟩ := ih hothers hs (fun _ ↦ hleads (by simp))
    -- What follows the `la` must not open with a particle, and an exclamation may.
    have hlead' : Leads (preconditions.flatMap (·.spelling ++ [Particle.la.word]) ++ s.spelling) := by
      rcases hlead with hlead | ⟨rfl, -⟩
      · exact hlead
      · simpa using hleads (by simp)
    have hread : simple.IsRead g.lexicon := by
      cases isRead_of_clause h with
      | simple hread => exact hread
    have hclause := (hread.isSettled hp).clause_spelling
    rw [show simple.punctuation = none from punctuation_of_clause h] at hclause
    obtain ⟨q, hq, hparticle⟩ := exists_li_of_clause hli h
    have hli' : Particle.li.word ∈ simple.spelling := hparticle ▸ SimpleSentence.particle_mem_spelling hq
    obtain ⟨htame, hla, himplied⟩ := joins_simple hread hp
    refine ⟨simple.spelling :: runs, .condition hli' hclause hruns, ?_, .inl ?_⟩
    · simpa [Sentence.spelling] using hjoins.cons hruns.ne_nil hlead' htame hla himplied
    · simpa [Sentence.spelling] using htame.2.append _
  | @contextOfCondition words rest p s preconditions c hne hli h hrest ih =>
    obtain ⟨⟨simple, heq, hp⟩, hothers⟩ := List.forall_mem_cons.1 hpre
    obtain rfl := Sentence.simple.inj heq
    obtain ⟨hc, hp⟩ := isRereadable_context.1 hp
    obtain ⟨runs, hruns, hjoins, hlead⟩ := ih (List.forall_mem_cons.2 ⟨⟨p, rfl, hp⟩, hothers⟩) hs (fun _ ↦ hleads (by simp))
    have hlead' := hlead.resolve_right (by simp)
    obtain ⟨hcontext, -, hnot⟩ := context_spelling h hc
    obtain ⟨-, hcleads⟩ := tame_context h g.dialect
    refine ⟨c.spelling :: runs, .contextOfCondition hcleads.ne_nil (fun hmem ↦ (hnot _ hmem).1 rfl) hcontext hruns, ?_, .inl ?_⟩
    · simpa [Sentence.spelling, SimpleSentence.spelling_context] using hjoins.context hruns.ne_nil hlead' h hc
    · simpa [Sentence.spelling, SimpleSentence.spelling_context] using hcleads.append _
  | @contextOfConclusion words rest s c hne hli h hrest ih =>
    obtain ⟨hc, hs⟩ := isRereadable_context.1 hs
    obtain ⟨runs, hruns, hjoins, hlead⟩ := ih hpre hs (by simp)
    have hlead' := hlead.resolve_right (by simp)
    obtain ⟨hcontext, -, hnot⟩ := context_spelling h hc
    obtain ⟨-, hcleads⟩ := tame_context h g.dialect
    refine ⟨c.spelling :: runs, .contextOfConclusion hcleads.ne_nil (fun hmem ↦ (hnot _ hmem).1 rfl) hcontext hruns, ?_, .inl ?_⟩
    · simpa [Sentence.spelling, SimpleSentence.spelling_context] using hjoins.context hruns.ne_nil hlead' h hc
    · simpa [Sentence.spelling, SimpleSentence.spelling_context] using hcleads.append _

theorem Joins.head_ne_la {runs : List (List String)} (h : Joins g runs words) (hne : runs ≠ []) :
    words.head? ≠ some Particle.la.word := by
  obtain ⟨run, others, rfl⟩ := List.exists_cons_of_ne_nil hne
  obtain ⟨hrun, hla, -⟩ := h.run run (by simp)
  rw [← h.eq, head?_intercalate _ hrun]
  exact fun hhead ↦ hla (List.mem_of_head? hhead)

/-- The words that a sentence is written with pass every check, and are read as it. -/
theorem sentence_spelling {mark : Punctuation} {shown shown' : String} {s : Sentence} (hne : words ≠ [])
    (h : (sentence g.lexicon words mark shown : Except ParseError Sentence) = .ok s) (hs : s.IsRereadable g) :
    s.spelling.getLast? ≠ some Particle.li.word ∧ s.spelling.IsChain (MayFollow g.dialect) ∧
      (∀ w ∈ s.spelling.head?, w ≠ Particle.li.word ∧ w ≠ Particle.la.word) ∧
        (sentence g.lexicon s.spelling mark shown' : Except ParseError Sentence) = .ok s := by
  rcases (sentence_eq_ok hne).1 h with ⟨first, c, rfl, hc, rfl⟩ | ⟨preconditions, conclusion, hread, rfl⟩
  · obtain ⟨htame, w, rest, heq, hw⟩ := tame_coordination hc g.dialect
    refine ⟨by simp [Sentence.spelling, Particle.word], ?_, ?_, ?_⟩
    · exact List.isChain_append.2 ⟨htame.isChain, .singleton _, fun v hv _ _ ↦ .of_quiet (htame.quiet v hv)⟩
    · intro v hv
      obtain rfl : w = v := by simpa [Sentence.spelling, heq] using hv
      refine ⟨?_, ?_⟩
      · rintro rfl
        exact hw ⟨.li, rfl, rfl⟩
      · rintro rfl
        exact hw ⟨.la, rfl, rfl⟩
    · exact (sentence_eq_ok (by simp [Sentence.spelling])).2 (.inl ⟨_, c, rfl, coordination_spelling hc hs, rfl⟩)
  · obtain ⟨hpre, hs', hleads⟩ : (∀ p ∈ preconditions, ∃ simple, p = .simple simple ∧ simple.IsRereadable g) ∧
        conclusion.IsRereadable g ∧ (preconditions ≠ [] → Leads conclusion.spelling) := by
      cases preconditions with
      | nil => exact ⟨by simp, hs, fun h ↦ absurd rfl h⟩
      | cons p preconditions => exact ⟨hs.1, hs.2.1, fun _ ↦ hs.2.2⟩
    obtain ⟨runs, hruns, hjoins, hlead⟩ := hread.reread hpre hs' hleads
    refine ⟨hjoins.last, hjoins.isChain, fun w hw ↦ ⟨?_, ?_⟩, ?_⟩
    · rintro rfl
      rcases hlead with ⟨v, rest, heq, hv⟩ | ⟨rfl, phrase, mark, rfl⟩
      · obtain rfl : v = Particle.li.word := by simpa [heq] using hw
        exact hv ⟨.li, rfl, rfl⟩
      · exact hs'.2 hw
    · rintro rfl
      exact hjoins.head_ne_la hruns.ne_nil hw
    · rw [← hjoins.eq]
      exact sentence_intercalate hruns (fun run hrun ↦ (hjoins.run run hrun).1) (fun run hrun ↦ (hjoins.run run hrun).2.1)
        (fun run hrun ↦ (hjoins.run run hrun).2.2)

end Reading

theorem Grammar.parse_text {text shown shown' : String} {s : Sentence} (h : g.parse text shown = .ok s)
    (hs : s.IsRereadable g) (hcomment : IsComment s.text → ∃ comment, s = .comment comment) :
    g.parse s.text shown' = .ok s := by
  obtain ⟨hli, hblank, ⟨hlooks, rfl⟩ | ⟨-, -, -, -, hne, mark, -, hread⟩⟩ := Grammar.parse_eq_ok.1 h
  · exact Grammar.parse_eq_ok.2 ⟨hli, hblank, .inl ⟨hlooks, rfl⟩⟩
  · obtain ⟨htext, hsolid, hspelling⟩ := text_of_sentence (solid_wordsOf text) hne hread
    obtain ⟨hlast, hchain, hhead, hagain⟩ := @sentence_spelling g _ _ shown shown' s hne hread hs
    have hnot : ¬ IsComment s.text := by
      intro hlooks
      obtain ⟨comment, rfl⟩ := hcomment hlooks
      exact hspelling rfl
    rw [htext] at hnot ⊢
    exact (Grammar.parse_marked hsolid hspelling).2 ⟨hlast, .inr ⟨hnot, hchain, hhead, hagain⟩⟩

end TokiPona
