import Mathlib.Data.List.TakeWhile
import TokiPona.Proofs.Adjacency
import TokiPona.Proofs.Clause

namespace TokiPona

def Chain.IsSettled (lex : Lexicon) (c : Chain) : Prop :=
  (Reading.coordination lex c.spelling : Except ParseError Chain) = .ok c

/-- A predicate that is read from its spelling, in which no other clause begins. -/
structure Predicate.IsSettled (lex : Lexicon) (p : Predicate) : Prop where
  reads : Reading.ReadsPredicate lex p.spelling p
  tail : ∀ w ∈ p.spelling.tail, w ≠ Particle.li.word ∧ w ≠ Particle.la.word ∧ w ≠ Particle.o.word

/-- The shapes of a simple sentence, contexts apart. -/
inductive SimpleSentence.HasShape (lex : Lexicon) (s : SimpleSentence) : Prop
  /-- `jan Sonja o, taso mi li moku.` -/
  | statement (subject : Chain) : s.mood = .declarative → s.placeholder = false → s.subject = some subject →
      (s.conjunction = none → ∀ w ∈ subject.spelling.head?, ∀ p : Particle, p.isConjunction = true → w ≠ p.word) →
      (∀ p ∈ s.predicates, p.particle = .li) → HasShape lex s
  /-- `jan o moku.` -/
  | request (subject : Chain) : s.mood = .declarative → s.placeholder = false → s.vocatives = [] →
      s.subject = some subject →
      (s.conjunction = none → ∀ w ∈ subject.spelling.head?, ∀ p : Particle, p.isConjunction = true → w ≠ p.word) →
      (∀ p ∈ s.predicates, p.particle = .o) → HasShape lex s
  /-- `o moku!` -/
  | command : s.mood = .imperative → s.placeholder = false → s.vocatives = [] → s.subject = none →
      (∀ p ∈ s.predicates, p.particle = .o) → HasShape lex s
  /-- `o mi mute li moku.` -/
  | wish (subject : Chain) : s.mood = .hortative → s.placeholder = false → s.vocatives = [] → s.conjunction = none →
      s.subject = some subject → (∀ p ∈ s.predicates, p.particle = .li) → HasShape lex s
  /-- `jan Mato o o moku li pali!` -/
  | told (subject : Chain) (first : Predicate) (rest : List Predicate) : s.mood = .imperative → s.placeholder = true →
      s.vocatives ≠ [] → s.conjunction = none → s.subject = some subject →
      (Reading.coordination lex Reading.placeholderSubject : Except ParseError Chain) = .ok subject →
      s.predicates = first :: rest → first.particle = .o → HasShape lex s

structure SimpleSentence.IsFormed (lex : Lexicon) (s : SimpleSentence) : Prop where
  contexts : s.contexts = []
  conjunction : ∀ p ∈ s.conjunction, p.isConjunction = true
  predicates : s.predicates ≠ []
  shape : s.HasShape lex

open Reading

variable {lex : Lexicon} {words : List String}

section

variable {p : Predicate} {predicates : List Predicate}

theorem Predicate.IsSettled.spelling_eq (h : p.IsSettled lex) :
    ∃ tail, p.spelling = p.particle.word :: tail ∧ tail ≠ [] ∧ p.particle.isGoverning = true := by
  obtain ⟨particle, tail, hgov, hne, heq⟩ := governed_of_predicate (predicate_eq_ok.2 h.reads)
  obtain ⟨body, tail', hclause, -, -⟩ := h.reads.mem_spelling
  have hword : p.particle.word = particle.word := by
    rw [hclause] at heq
    exact (List.cons.inj heq).1
  obtain rfl : p.particle = particle := Particle.word_inj.1 hword
  exact ⟨tail, heq, hne, hgov⟩

theorem Predicate.IsSettled.opens (h : p.IsSettled lex) : Opens isGovernor p.spelling := by
  obtain ⟨tail, heq, -, hgov⟩ := h.spelling_eq
  refine ⟨_, tail, heq, ?_, fun w hw ↦ ?_⟩
  · rw [isGovernor_eq_true]
    cases hp : p.particle <;> simp_all [Particle.isGoverning]
  · obtain ⟨hli, -, ho⟩ := h.tail w (by simpa [heq] using hw)
    exact isGovernor_eq_false.2 ⟨hli, ho⟩

theorem Predicate.IsSettled.notMem (h : p.IsSettled lex) {q : Particle} (hq : q = .li ∨ q = .la ∨ q = .o)
    (hne : p.particle ≠ q) :
    q.word ∉ p.spelling := by
  obtain ⟨tail, heq, -, -⟩ := h.spelling_eq
  intro hmem
  rw [heq] at hmem
  rcases List.mem_cons.1 hmem with hword | hmem
  · exact hne (Particle.word_inj.1 hword.symm)
  · obtain ⟨hli, hla, ho⟩ := h.tail q.word (by simpa [heq] using hmem)
    rcases hq with rfl | rfl | rfl
    · exact hli rfl
    · exact hla rfl
    · exact ho rfl

theorem Predicate.IsSettled.getLast? (h : p.IsSettled lex) :
    ∀ w ∈ p.spelling.getLast?, w ≠ Particle.li.word ∧ w ≠ Particle.o.word := by
  obtain ⟨tail, heq, hne, -⟩ := h.spelling_eq
  intro w hw
  rw [heq, List.getLast?_cons_of_ne_nil hne] at hw
  obtain ⟨hli, -, ho⟩ := h.tail w (by simpa [heq] using List.mem_of_getLast? hw)
  exact ⟨hli, ho⟩

variable (h : ∀ p ∈ predicates, p.IsSettled lex)

include h

theorem splitBefore_predicates {first : List String} (hfirst : first ≠ [])
    (htail : ∀ w ∈ first.tail, isGovernor w = false) :
    splitBefore isGovernor (first ++ predicates.flatMap Predicate.spelling) = first :: predicates.map Predicate.spelling := by
  rw [List.flatMap_def]
  apply splitBefore_append_flatten hfirst htail
  intro piece hpiece
  obtain ⟨p, hp, rfl⟩ := List.mem_map.1 hpiece
  exact (h p hp).opens

theorem readsPredicates : List.Forall₂ (ReadsPredicate lex) (predicates.map Predicate.spelling) predicates := by
  rw [List.forall₂_map_left_iff, List.forall₂_same]
  exact fun p hp ↦ (h p hp).reads

theorem notMem_predicates {q : Particle} (hq : q = .li ∨ q = .la ∨ q = .o) (hne : ∀ p ∈ predicates, p.particle ≠ q) :
    q.word ∉ predicates.flatMap Predicate.spelling := by
  intro hmem
  obtain ⟨p, hp, hmem⟩ := List.mem_flatMap.1 hmem
  exact (h p hp).notMem hq (hne p hp) hmem

theorem getLast?_predicates (hne : predicates ≠ []) (words : List String) :
    ∀ w ∈ (words ++ predicates.flatMap Predicate.spelling).getLast?, w ≠ Particle.li.word ∧ w ≠ Particle.o.word := by
  obtain ⟨init, last, rfl⟩ : ∃ init last, predicates = init ++ [last] :=
    ⟨_, _, (List.dropLast_concat_getLast hne).symm⟩
  have hlast := h last (by simp)
  obtain ⟨tail, heq, -, -⟩ := hlast.spelling_eq
  intro w hw
  rw [List.flatMap_append, ← List.append_assoc, List.flatMap_singleton, List.getLast?_append_of_ne_nil _ (by simp [heq])] at hw
  exact hlast.getLast? w hw

theorem spread_predicates : Spread (predicates.flatMap Predicate.spelling) := by
  induction predicates with
  | nil => exact .nil
  | cons p predicates ih =>
    have hp := h p (by simp)
    obtain ⟨tail, heq, -, -⟩ := hp.spelling_eq
    rw [List.flatMap_cons]
    refine Spread.append ?_ (ih (fun q hq ↦ h q (by simp [hq]))) (.inl fun w hw ↦ isO_eq_false.2 (hp.getLast? w hw).2)
    have htail : ∀ w ∈ tail, isO w = false := fun w hw ↦ isO_eq_false.2 (hp.tail w (by simpa [heq] using hw)).2.2
    rw [heq]
    exact (Spread.of_forall htail).cons _ (fun w hw ↦ htail w (List.mem_of_head? hw))

end

namespace SimpleSentence

def body (s : SimpleSentence) : List String :=
  (if s.mood = .hortative then [Particle.o.word] else []) ++ s.writtenSubject.toList.flatMap Chain.spelling ++
    s.predicates.flatMap Predicate.spelling

def ending (s : SimpleSentence) : List String :=
  s.conjunction.toList.map Particle.word ++ (s.body ++ if s.tagQuestion then tag else [])

theorem spelling_eq (s : SimpleSentence) : s.spelling = s.contexts.flatMap (·.spelling ++ [Particle.la.word]) ++
    (s.vocatives.flatMap (·.spelling ++ [Particle.o.word]) ++ s.ending) := by
  simp [spelling, ending, body, tag]

end SimpleSentence

theorem Reading.ReadsOpened.of_ending {mark : Option Punctuation} {rest : OpenedClause} {conjunction : Option Particle}
    {tagQuestion : Bool} {mood : Mood} {untagged core : List String} {b : Body}
    (hwords : rest.words = conjunction.toList.map Particle.word ++ (untagged ++ if tagQuestion then tag else []))
    (hconj : ∀ p ∈ conjunction, p.isConjunction = true)
    (hnone : conjunction = none → ∀ w ∈ untagged.head?, ∀ p : Particle, p.isConjunction = true → w ≠ p.word)
    (htag : tagQuestion = false → ¬ tag <:+ untagged) (hmood : takeMood rest.mood untagged = (mood, core))
    (hlast : untagged.getLast? ≠ some Particle.li.word) (hla : Particle.la.word ∉ untagged) (hne : core ≠ [])
    (hbody : ReadsBody lex (splitBefore isGovernor core) b) :
    ReadsOpened lex mark rest (b.sentence mark rest conjunction tagQuestion mood) := by
  have hune : untagged ≠ [] := by
    rintro rfl
    exact hne (Prod.mk.inj hmood).2.symm
  have hconj' : takeConjunction rest.words = (conjunction, untagged ++ if tagQuestion then tag else []) := by
    rw [hwords]
    cases conjunction with
    | some p => exact takeConjunction_cons (hconj p rfl) (by simp [hune])
    | none =>
      apply takeConjunction_of_not
      rintro ⟨p, hp, others, -, heq⟩
      obtain ⟨w, untagged, rfl⟩ := List.exists_cons_of_ne_nil hune
      exact hnone rfl w rfl p hp (List.cons.inj heq).1
  refine .intro hconj' ?_ hmood hlast hla hne hbody
  cases tagQuestion with
  | true => exact takeTag_append hune
  | false =>
    simp only [Bool.false_eq_true, ↓reduceIte, List.append_nil]
    apply takeTag_of_not
    rintro ⟨init, -, heq⟩
    exact htag rfl ⟨init, heq.symm⟩

section

variable {predicates : List Predicate} (hpredicates : ∀ p ∈ predicates, p.IsSettled lex) (hne : predicates ≠ [])

include hpredicates hne

theorem Reading.readsBody_stated {first : List String} {c : Chain}
    (hc : (coordination lex first : Except ParseError Chain) = .ok c) :
    ReadsBody lex (splitBefore isGovernor (first ++ predicates.flatMap Predicate.spelling))
      (.predication (some c) predicates) := by
  rw [splitBefore_predicates hpredicates (coordinationOver_eq_ok.1 hc).1]
  · exact .statement hc (by simpa using hne) (readsPredicates hpredicates)
  · intro w hw
    obtain ⟨hli, -, ho, -⟩ := notMem_of_coordination hc w (List.mem_of_mem_tail hw)
    exact isGovernor_eq_false.2 ⟨hli, ho⟩

theorem Reading.readsBody_commanded (ho : ∀ p ∈ predicates, p.particle = .o)
    (hexclamation : ∀ p, predicates = [p] → exclamation lex p.spelling = none) :
    ReadsBody lex (splitBefore isGovernor (predicates.flatMap Predicate.spelling)) (.predication none predicates) := by
  obtain ⟨p, rest, rfl⟩ := List.exists_cons_of_ne_nil hne
  have hp := hpredicates p (by simp)
  obtain ⟨tail, heq, -, -⟩ := hp.spelling_eq
  have hrest := fun q hq ↦ hpredicates q (List.mem_cons_of_mem p hq)
  rw [List.flatMap_cons, splitBefore_predicates hrest (by simp [heq])]
  · refine .command (by simp [heq, ho p (by simp)]) (fun hnil ↦ ?_) (readsPredicates hpredicates)
    rw [List.map_eq_nil_iff.1 hnil] at hexclamation
    exact hexclamation p rfl
  · intro w hw
    obtain ⟨hli, -, ho⟩ := hp.tail w hw
    exact isGovernor_eq_false.2 ⟨hli, ho⟩

end

/-- The conditions under which a formed sentence is read again from its spelling. -/
structure SimpleSentence.IsSettled (lex : Lexicon) (s : SimpleSentence) : Prop extends s.IsFormed lex where
  vocatives_settled : ∀ c ∈ s.vocatives, c.IsSettled lex
  subject_settled : ∀ c ∈ s.writtenSubject, c.IsSettled lex
  predicates_settled : ∀ p ∈ s.predicates, p.IsSettled lex
  tag_settled : s.tagQuestion = false → ¬ tag <:+ s.body
  exclamation : s.subject = none → ∀ p, s.predicates = [p] → Reading.exclamation lex p.spelling = none

namespace SimpleSentence.IsSettled

variable {s : SimpleSentence}

theorem last_ne_li (h : s.IsSettled lex) : s.body.getLast? ≠ some Particle.li.word :=
  fun hlast ↦ (getLast?_predicates h.predicates_settled h.predicates _ _ hlast).1 rfl

theorem la_notMem (h : s.IsSettled lex) : Particle.la.word ∉ s.body := by
  simp only [body, List.mem_append, not_or]
  refine ⟨⟨?_, ?_⟩, ?_⟩
  · split <;> simp [Particle.word]
  · intro hmem
    obtain ⟨c, hc, hmem⟩ := List.mem_flatMap.1 hmem
    exact (notMem_of_coordination (h.subject_settled c (by simpa using hc)) _ hmem).2.1 rfl
  · apply notMem_predicates h.predicates_settled (by simp)
    intro p hp
    obtain ⟨-, -, -, hgov⟩ := (h.predicates_settled p hp).spelling_eq
    rintro heq
    simp [heq, Particle.isGoverning] at hgov

theorem subject_read (h : s.IsSettled lex) (hplaceholder : s.placeholder = false) {c : Chain} (hc : s.subject = some c) :
    (coordination lex c.spelling : Except ParseError Chain) = .ok c :=
  h.subject_settled c (by simp [writtenSubject, hplaceholder, hc])

theorem body_stated (hplaceholder : s.placeholder = false) {c : Chain} (hc : s.subject = some c)
    (hmood : s.mood ≠ .hortative) : s.body = c.spelling ++ s.predicates.flatMap Predicate.spelling := by
  simp [body, hmood, writtenSubject, hplaceholder, hc]

theorem sentence_eq (h : s.IsSettled lex) (hplaceholder : s.placeholder = false) (words : List String) :
    (Body.predication s.subject s.predicates).sentence s.punctuation { vocatives := s.vocatives, words := words }
      s.conjunction s.tagQuestion s.mood = .simple s := by
  have hcontexts := h.contexts
  cases s
  simp_all [Body.sentence]

theorem readsOpened_declarative (h : s.IsSettled lex) (hplaceholder : s.placeholder = false) {c : Chain}
    (hc : s.subject = some c) (hmood : s.mood = .declarative)
    (hnone : s.conjunction = none → ∀ w ∈ c.spelling.head?, ∀ p : Particle, p.isConjunction = true → w ≠ p.word) :
    ReadsOpened lex s.punctuation { vocatives := s.vocatives, words := s.ending } (.simple s) := by
  have hread := h.subject_read hplaceholder hc
  obtain ⟨w, rest, heq⟩ := List.exists_cons_of_ne_nil (coordinationOver_eq_ok.1 hread).1
  have hbody := body_stated hplaceholder hc (by simp [hmood])
  have hhead : s.body.head? = some w := by simp [hbody, heq]
  have htake : takeMood .declarative s.body = (s.mood, s.body) := by
    rw [hmood]
    apply takeMood_of_head_ne
    rw [hhead]
    simpa using (notMem_of_coordination hread w (by simp [heq])).2.2.1
  rw [← h.sentence_eq hplaceholder s.ending]
  refine .of_ending rfl h.conjunction ?_ h.tag_settled htake h.last_ne_li h.la_notMem ?_ ?_
  · rw [hhead]
    simpa [heq] using hnone
  · exact fun hnil ↦ by simp [hnil] at hhead
  · rw [hbody, hc]
    exact readsBody_stated h.predicates_settled h.predicates hread

theorem readsOpened_imperative (h : s.IsSettled lex) (hplaceholder : s.placeholder = false) (hsubject : s.subject = none)
    (hmood : s.mood = .imperative) (ho : ∀ p ∈ s.predicates, p.particle = .o) :
    ReadsOpened lex s.punctuation { vocatives := s.vocatives, words := s.ending } (.simple s) := by
  have hbody : s.body = s.predicates.flatMap Predicate.spelling := by
    simp [body, hmood, writtenSubject, hplaceholder, hsubject]
  have hli : Particle.li.word ∉ s.body := by
    rw [hbody]
    exact notMem_predicates h.predicates_settled (by simp) (fun p hp ↦ by simp [ho p hp])
  obtain ⟨rest, hrest⟩ : ∃ rest, s.body = Particle.o.word :: rest := by
    obtain ⟨p, predicates, heq⟩ := List.exists_cons_of_ne_nil h.predicates
    obtain ⟨tail, hp, -, -⟩ := (h.predicates_settled p (by simp [heq])).spelling_eq
    exact ⟨_, by rw [hbody, heq, List.flatMap_cons, hp, ho p (by simp [heq])]; rfl⟩
  have htake : takeMood .declarative s.body = (s.mood, s.body) := by
    rw [hmood]
    rw [hrest] at hli ⊢
    exact takeMood_imperative (fun hmem ↦ hli (by simp [hmem]))
  rw [← h.sentence_eq hplaceholder s.ending]
  refine .of_ending rfl h.conjunction ?_ h.tag_settled htake h.last_ne_li h.la_notMem (by simp [hrest]) ?_
  · intro _ w hw p hp
    obtain rfl : Particle.o.word = w := by simpa [hrest] using hw
    cases p <;> simp [Particle.isConjunction] at hp <;> decide
  · rw [hbody, hsubject]
    exact readsBody_commanded h.predicates_settled h.predicates ho (h.exclamation hsubject)

theorem readsOpened_hortative (h : s.IsSettled lex) (hplaceholder : s.placeholder = false) {c : Chain}
    (hc : s.subject = some c) (hmood : s.mood = .hortative) (hli : ∀ p ∈ s.predicates, p.particle = .li) :
    ReadsOpened lex s.punctuation { vocatives := s.vocatives, words := s.ending } (.simple s) := by
  have hread := h.subject_read hplaceholder hc
  have hbody : s.body = Particle.o.word :: (c.spelling ++ s.predicates.flatMap Predicate.spelling) := by
    simp [body, hmood, writtenSubject, hplaceholder, hc]
  have hmem : Particle.li.word ∈ c.spelling ++ s.predicates.flatMap Predicate.spelling := by
    obtain ⟨p, predicates, heq⟩ := List.exists_cons_of_ne_nil h.predicates
    obtain ⟨tail, hp, -, -⟩ := (h.predicates_settled p (by simp [heq])).spelling_eq
    simp [heq, hp, hli p (by simp [heq])]
  rw [← h.sentence_eq hplaceholder s.ending]
  refine .of_ending rfl h.conjunction ?_ h.tag_settled ?_ h.last_ne_li h.la_notMem (List.ne_nil_of_mem hmem) ?_
  · intro _ w hw p hp
    obtain rfl : Particle.o.word = w := by simpa [hbody] using hw
    cases p <;> simp [Particle.isConjunction] at hp <;> decide
  · rw [hmood, hbody]
    exact takeMood_hortative hmem
  · rw [hc]
    exact readsBody_stated h.predicates_settled h.predicates hread

theorem notMem_ending (h : s.IsSettled lex) {q : Particle} (hq : q = .li ∨ q = .o) (hbody : q.word ∉ s.body) :
    q.word ∉ s.ending := by
  simp only [ending, List.mem_append, not_or]
  refine ⟨?_, hbody, ?_⟩
  · intro hmem
    obtain ⟨p, hp, heq⟩ := List.mem_map.1 hmem
    have hconj := h.conjunction p (by simpa using hp)
    obtain rfl : p = q := Particle.word_inj.1 heq
    rcases hq with rfl | rfl <;> simp [Particle.isConjunction] at hconj
  · rcases hq with rfl | rfl <;> split <;> simp [tag, Particle.word]

theorem o_notMem_ending (h : s.IsSettled lex) (hplaceholder : s.placeholder = false) {c : Chain}
    (hc : s.subject = some c) (hmood : s.mood ≠ .hortative) (hli : ∀ p ∈ s.predicates, p.particle = .li) :
    Particle.o.word ∉ s.ending := by
  apply h.notMem_ending (by simp)
  rw [body_stated hplaceholder hc hmood, List.mem_append, not_or]
  refine ⟨fun hmem ↦ (notMem_of_coordination (h.subject_read hplaceholder hc) _ hmem).2.2.1 rfl, ?_⟩
  exact notMem_predicates h.predicates_settled (by simp) (fun p hp ↦ by simp [hli p hp])

theorem li_notMem_ending (h : s.IsSettled lex) (hmood : s.mood ≠ .hortative)
    (ho : ∀ p ∈ s.predicates, p.particle = .o) : Particle.li.word ∉ s.ending := by
  apply h.notMem_ending (by simp)
  simp only [body, hmood, List.mem_append, not_or, ↓reduceIte, List.not_mem_nil, not_false_eq_true, true_and]
  refine ⟨fun hmem ↦ ?_, notMem_predicates h.predicates_settled (by simp) (fun p hp ↦ by simp [ho p hp])⟩
  obtain ⟨c, hc, hmem⟩ := List.mem_flatMap.1 hmem
  exact (notMem_of_coordination (h.subject_settled c (by simpa using hc)) _ hmem).1 rfl

theorem spread_ending (h : s.IsSettled lex) (hmood : s.mood ≠ .hortative) : Spread s.ending := by
  have hconj : ∀ w ∈ s.conjunction.toList.map Particle.word, isO w = false := by
    intro w hw
    obtain ⟨p, hp, rfl⟩ := List.mem_map.1 hw
    have := h.conjunction p (by simpa using hp)
    cases p <;> simp [Particle.isConjunction] at this <;> decide
  have htag : ∀ w ∈ (if s.tagQuestion then tag else []), isO w = false := by
    split <;> simp [tag, isO, Particle.word]
  have hsubject : ∀ w ∈ s.writtenSubject.toList.flatMap Chain.spelling, isO w = false := by
    intro w hw
    obtain ⟨c, hc, hw⟩ := List.mem_flatMap.1 hw
    exact isO_eq_false.2 (notMem_of_coordination (h.subject_settled c (by simpa using hc)) w hw).2.2.1
  have hbody : Spread s.body := by
    simp only [body, hmood, ↓reduceIte, List.nil_append]
    exact (Spread.of_forall hsubject).append (spread_predicates h.predicates_settled)
      (.inl fun w hw ↦ hsubject w (List.mem_of_getLast? hw))
  have hrest : Spread (s.body ++ if s.tagQuestion then tag else []) :=
    hbody.append (.of_forall htag) (.inr fun w hw ↦ htag w (List.mem_of_head? hw))
  exact (Spread.of_forall hconj).append hrest (.inl fun w hw ↦ hconj w (List.mem_of_getLast? hw))

theorem spelling_eq_ending (h : s.IsSettled lex) (hvocatives : s.vocatives = []) : s.spelling = s.ending := by
  simp [spelling_eq, h.contexts, hvocatives]

theorem opened_of_spread (h : s.IsSettled lex) (hvocatives : s.vocatives = []) (hspread : Spread s.ending)
    (ho : hasInnerO s.ending = false ∨ Particle.li.word ∉ s.ending) :
    Opened lex s.spelling (.clause { vocatives := s.vocatives, words := s.ending }) := by
  rw [h.spelling_eq_ending hvocatives, hvocatives]
  exact .of_spread hspread ho

theorem flatMap_calls (vocatives : List Chain) (words : List String) :
    vocatives.flatMap (·.spelling ++ [Particle.o.word]) ++ words =
      [Particle.o.word].intercalate (vocatives.map Chain.spelling ++ [words]) := by
  rw [intercalate_eq_flatMap, List.flatMap_map]

theorem calls_settled (h : s.IsSettled lex) :
    ∀ run ∈ s.vocatives.map Chain.spelling, run ≠ [] ∧ ∀ w ∈ run, isO w = false := by
  intro run hrun
  obtain ⟨c, hc, rfl⟩ := List.mem_map.1 hrun
  have hread := h.vocatives_settled c hc
  exact ⟨(coordinationOver_eq_ok.1 hread).1, fun w hw ↦ isO_eq_false.2 (notMem_of_coordination hread w hw).2.2.1⟩

theorem addressees_spelling (h : s.IsSettled lex) :
    (addressees lex (s.vocatives.map Chain.spelling) : Except ParseError (List Chain)) = .ok s.vocatives := by
  have hfilter : (s.vocatives.map Chain.spelling).filter (!·.isEmpty) = s.vocatives.map Chain.spelling := by
    rw [List.filter_eq_self]
    intro run hrun
    simpa using (h.calls_settled run hrun).1
  rw [addressees, hfilter, mapM_eq_ok, List.forall₂_map_left_iff, List.forall₂_same]
  exact h.vocatives_settled

theorem ending_not_structural (h : s.IsSettled lex) (hplaceholder : s.placeholder = false) {c : Chain}
    (hc : s.subject = some c) (hmood : s.mood = .declarative) :
    (s.ending.head?.bind Particle.ofWord?).filter Particle.isStructural = none := by
  have hread := h.subject_read hplaceholder hc
  rw [Option.filter_eq_none_iff]
  intro p hp hstruct
  obtain ⟨w, hw, hp⟩ := Option.bind_eq_some_iff.1 hp
  obtain rfl := Particle.word_of_ofWord? hp
  rw [ending, body_stated hplaceholder hc (by simp [hmood])] at hw
  cases hconj : s.conjunction with
  | some q =>
    have hq := h.conjunction q hconj
    have heq : q.word = p.word := by simpa [hconj] using hw
    obtain rfl : q = p := Particle.word_inj.1 heq
    cases q <;> simp [Particle.isConjunction] at hq <;> simp [Particle.isStructural] at hstruct
  | none =>
    obtain ⟨v, rest, heq, hv⟩ := (tame_coordination hread {}).2
    have hvp : v = p.word := by simpa [hconj, heq] using hw
    exact hv ⟨p, hstruct, hvp⟩

theorem opened_wish (h : s.IsSettled lex) (hvocatives : s.vocatives = []) (hconj : s.conjunction = none)
    (hplaceholder : s.placeholder = false) {c : Chain} (hc : s.subject = some c) (hmood : s.mood = .hortative)
    (hli : ∀ p ∈ s.predicates, p.particle = .li) :
    Opened lex s.spelling (.clause { vocatives := s.vocatives, words := s.ending }) := by
  have hread := h.subject_read hplaceholder hc
  obtain ⟨rest, heq, hrest⟩ : ∃ rest, s.ending = Particle.o.word :: rest ∧ ∀ w ∈ rest, isO w = false := by
    refine ⟨c.spelling ++ s.predicates.flatMap Predicate.spelling ++ if s.tagQuestion then tag else [], ?_, ?_⟩
    · simp [ending, body, hconj, hmood, writtenSubject, hplaceholder, hc]
    · intro w hw
      rw [isO_eq_false]
      rintro rfl
      simp only [List.mem_append] at hw
      rcases hw with (hw | hw) | hw
      · exact (notMem_of_coordination hread _ hw).2.2.1 rfl
      · exact notMem_predicates h.predicates_settled (by simp) (fun p hp ↦ by simp [hli p hp]) hw
      · split at hw <;> simp [tag, Particle.word] at hw
  refine h.opened_of_spread hvocatives ?_ (.inl (hasInnerO_eq_false ?_))
  · rw [heq]
    exact (Spread.of_forall hrest).cons _ (fun w hw ↦ hrest w (List.mem_of_head? hw))
  · rw [heq]
    exact fun hmem ↦ absurd (hrest _ hmem) (by decide)

theorem opened_calls (h : s.IsSettled lex) (hplaceholder : s.placeholder = false) {c : Chain}
    (hc : s.subject = some c) (hmood : s.mood = .declarative) (hli : ∀ p ∈ s.predicates, p.particle = .li)
    (hvocatives : s.vocatives ≠ []) :
    Opened lex s.spelling (.clause { vocatives := s.vocatives, words := s.ending }) := by
  have hread := h.subject_read hplaceholder hc
  have ho := h.o_notMem_ending hplaceholder hc (by simp [hmood]) hli
  have hbody := body_stated hplaceholder hc (by simp [hmood])
  have hending : s.ending ≠ [] := by
    simp [ending, hbody, (coordinationOver_eq_ok.1 hread).1]
  have hruns : ∀ run ∈ s.vocatives.map Chain.spelling ++ [s.ending], run ≠ [] ∧ ∀ w ∈ run, isO w = false := by
    intro run hrun
    rcases List.mem_append.1 hrun with hrun | hrun
    · exact h.calls_settled run hrun
    · rw [List.mem_singleton.1 hrun]
      refine ⟨hending, fun w hw ↦ isO_eq_false.2 ?_⟩
      rintro rfl
      exact ho hw
  have hwords : s.spelling = [Particle.o.word].intercalate (s.vocatives.map Chain.spelling ++ [s.ending]) := by
    rw [spelling_eq, h.contexts, List.flatMap_nil, List.nil_append, flatMap_calls]
  have hsplit : splitDropping isO s.spelling = s.vocatives.map Chain.spelling ++ [s.ending] := by
    rw [hwords]
    exact splitDropping_intercalate isO_word (by simp) (fun run hrun ↦ (hruns run hrun).2)
  have hafter : afterLastO s.spelling = s.ending := by simp [afterLastO, hsplit]
  -- A run with a `li` or an `e` would be passed over, and none of the addressees has one.
  have hcalls : callRuns s.spelling = s.vocatives.map Chain.spelling := by
    rw [callRuns, hsplit, List.dropLast_concat, List.takeWhile_eq_self_iff]
    intro run hrun
    obtain ⟨v, hv, rfl⟩ := List.mem_map.1 hrun
    have hwords := notMem_of_coordination (h.vocatives_settled v hv)
    have hnli : Particle.li.isIn v.spelling = false := Particle.isIn_eq_false.2 (fun hmem ↦ (hwords _ hmem).1 rfl)
    have hne : Particle.e.isIn v.spelling = false := Particle.isIn_eq_false.2 (fun hmem ↦ (hwords _ hmem).2.2.2 rfl)
    simp [hnli, hne]
  rw [← hafter]
  refine .calls s.vocatives (fun before after hbefore ↦ ?_) ?_ ?_ ?_ ?_
  · rw [splitDoubleO_of_spread (hwords ▸ spread_intercalate hruns)] at hbefore
    simp at hbefore
  · obtain ⟨v, vocatives, heq⟩ := List.exists_cons_of_ne_nil hvocatives
    rw [hwords, heq, List.map_cons, List.cons_append, List.intercalate_cons_of_ne_nil (by simp), List.append_assoc]
    refine hasInnerO_append (h.calls_settled v.spelling (by simp [heq])).1 ?_
    rw [← flatMap_calls]
    simp [hending]
  · obtain ⟨p, predicates, heq⟩ := List.exists_cons_of_ne_nil h.predicates
    obtain ⟨tail, hp, -, -⟩ := (h.predicates_settled p (by simp [heq])).spelling_eq
    apply Particle.isIn_iff.2
    simp [spelling_eq, ending, body, heq, hp, hli p (by simp [heq])]
  · rw [hcalls]
    exact h.addressees_spelling
  · rw [hafter]
    exact h.ending_not_structural hplaceholder hc hmood

theorem body_told (hplaceholder : s.placeholder = true) (hmood : s.mood = .imperative) :
    s.body = s.predicates.flatMap Predicate.spelling := by
  simp [body, hmood, writtenSubject, hplaceholder]

theorem opened_told (h : s.IsSettled lex) {first : Predicate} {rest : List Predicate} (hvocatives : s.vocatives ≠ [])
    (hplaceholder : s.placeholder = true) (hmood : s.mood = .imperative) (hconj : s.conjunction = none)
    (hpredicates : s.predicates = first :: rest) (ho : first.particle = .o) :
    Opened lex s.spelling (.clause ⟨s.vocatives, .imperative, true, placeholderSubject ++ s.ending⟩) := by
  obtain ⟨tail, hfirst, htail, -⟩ := (h.predicates_settled first (by simp [hpredicates])).spelling_eq
  obtain ⟨after, hafter, hending⟩ : ∃ after, after ≠ [] ∧ s.ending = Particle.o.word :: after := by
    refine ⟨tail ++ (rest.flatMap Predicate.spelling ++ if s.tagQuestion then tag else []), by simp [htail], ?_⟩
    simp [ending, body_told hplaceholder hmood, hconj, hpredicates, hfirst, ho]
  have hruns := h.calls_settled
  have hne : s.vocatives.map Chain.spelling ≠ [] := by simpa using hvocatives
  have hwords : s.spelling = [Particle.o.word].intercalate (s.vocatives.map Chain.spelling) ++
      Particle.o.word :: Particle.o.word :: after := by
    rw [spelling_eq, h.contexts, List.flatMap_nil, List.nil_append, flatMap_calls, hending, intercalate_concat _ hne]
  rw [hending]
  refine .command ([Particle.o.word].intercalate (s.vocatives.map Chain.spelling)) after s.vocatives ?_ ?_ hafter ?_
  · rw [hwords]
    refine splitDoubleO_append (spread_intercalate hruns) (fun w hw ↦ ?_) after
    obtain ⟨run, hrun, hw⟩ := mem_of_getLast?_intercalate (fun run hrun ↦ (hruns run hrun).1) hw
    exact (hruns run hrun).2 w hw
  · exact intercalate_ne_nil _ hne (fun run hrun ↦ (hruns run hrun).1)
  · rw [splitDropping_intercalate isO_word hne (fun run hrun ↦ (hruns run hrun).2)]
    exact h.addressees_spelling

theorem readsOpened_told (h : s.IsSettled lex) {c : Chain} (hplaceholder : s.placeholder = true)
    (hmood : s.mood = .imperative) (hconj : s.conjunction = none) (hc : s.subject = some c)
    (hread : (coordination lex placeholderSubject : Except ParseError Chain) = .ok c) :
    ReadsOpened lex s.punctuation ⟨s.vocatives, .imperative, true, placeholderSubject ++ s.ending⟩ (.simple s) := by
  have hbody := body_told hplaceholder hmood
  have hsentence : (Body.predication (some c) s.predicates).sentence s.punctuation
      ⟨s.vocatives, .imperative, true, placeholderSubject ++ s.ending⟩ s.conjunction s.tagQuestion .imperative =
        .simple s := by
    have hcontexts := h.contexts
    cases s
    simp_all [Body.sentence]
  have hhead : (placeholderSubject ++ s.body).head? = some "jan" := rfl
  have htake : takeMood .imperative (placeholderSubject ++ s.body) = (.imperative, placeholderSubject ++ s.body) :=
    takeMood_of_head_ne (by rw [hhead]; decide)
  rw [← hsentence]
  refine .of_ending ?_ h.conjunction ?_ (fun htag hsuffix ↦ h.tag_settled htag ?_) htake ?_ ?_
    (by simp [placeholderSubject]) ?_
  · simp [ending, hconj]
  · intro _ w hw p hp
    obtain rfl : "jan" = w := by simpa [hhead] using hw
    cases p <;> simp [Particle.isConjunction] at hp <;> decide
  · -- The predicates are longer than a tag, so the placeholder has no part in it.
    refine List.suffix_of_suffix_length_le hsuffix (List.suffix_append _ _) ?_
    obtain ⟨p, predicates, heq⟩ := List.exists_cons_of_ne_nil h.predicates
    obtain ⟨tail, hp, htail, -⟩ := (h.predicates_settled p (by simp [heq])).spelling_eq
    have hlength := List.length_pos_iff.2 htail
    simp only [hbody, heq, hp, List.flatMap_cons, tag, List.length_append, List.length_cons, List.length_nil]
    omega
  · rw [hbody]
    exact fun hlast ↦ (getLast?_predicates h.predicates_settled h.predicates _ _ hlast).1 rfl
  · rw [List.mem_append, not_or]
    exact ⟨by decide, h.la_notMem⟩
  · rw [hbody]
    exact readsBody_stated h.predicates_settled h.predicates hread

theorem clause_spelling (h : s.IsSettled lex) :
    (clause lex s.spelling s.punctuation : Except ParseError Sentence) = .ok (.simple s) := by
  rw [clause_eq_ok]
  right
  cases h.shape with
  | statement subject hmood hplaceholder hsubject hnone hli =>
    refine ⟨_, ?_, h.readsOpened_declarative hplaceholder hsubject hmood hnone⟩
    by_cases hvocatives : s.vocatives = []
    · have ho := h.o_notMem_ending hplaceholder hsubject (by simp [hmood]) hli
      refine h.opened_of_spread hvocatives (h.spread_ending (by simp [hmood])) (.inl (hasInnerO_eq_false ?_))
      exact fun hmem ↦ ho (List.mem_of_mem_tail hmem)
    · exact h.opened_calls hplaceholder hsubject hmood hli hvocatives
  | request subject hmood hplaceholder hvocatives hsubject hnone ho =>
    refine ⟨_, ?_, h.readsOpened_declarative hplaceholder hsubject hmood hnone⟩
    exact h.opened_of_spread hvocatives (h.spread_ending (by simp [hmood])) (.inr (h.li_notMem_ending (by simp [hmood]) ho))
  | command hmood hplaceholder hvocatives hsubject ho =>
    refine ⟨_, ?_, h.readsOpened_imperative hplaceholder hsubject hmood ho⟩
    exact h.opened_of_spread hvocatives (h.spread_ending (by simp [hmood])) (.inr (h.li_notMem_ending (by simp [hmood]) ho))
  | wish subject hmood hplaceholder hvocatives hconj hsubject hli =>
    refine ⟨_, ?_, h.readsOpened_hortative hplaceholder hsubject hmood hli⟩
    exact h.opened_wish hvocatives hconj hplaceholder hsubject hmood hli
  | told subject first rest hmood hplaceholder hvocatives hconj hsubject hread hpredicates ho =>
    exact ⟨_, h.opened_told hvocatives hplaceholder hmood hconj hpredicates ho,
      h.readsOpened_told hplaceholder hmood hconj hsubject hread⟩

end SimpleSentence.IsSettled

end TokiPona
