import TokiPona.Proofs.Opening
import TokiPona.Proofs.Predicate

namespace TokiPona.Reading

variable {lex : Lexicon} {words : List String}

def OpensWithConjunction (words : List String) : Prop :=
  ∃ p : Particle, p.isConjunction = true ∧ ∃ rest, rest ≠ [] ∧ words = p.word :: rest

theorem takeConjunction_cons {p : Particle} (hp : p.isConjunction = true) {rest : List String} (hne : rest ≠ []) :
    takeConjunction (p.word :: rest) = (some p, rest) := by
  obtain ⟨v, rest, rfl⟩ := List.exists_cons_of_ne_nil hne
  have hfilter : (some p).filter Particle.isConjunction = some p := by simp [Option.filter, hp]
  simp [takeConjunction, hfilter]

theorem takeConjunction_of_not (h : ¬ OpensWithConjunction words) : takeConjunction words = (none, words) := by
  unfold takeConjunction
  split
  case _ w v rest =>
    split
    case _ p hp =>
      obtain ⟨hw, hconj⟩ := Option.filter_eq_some_iff.1 hp
      exact absurd ⟨p, hconj, v :: rest, by simp, by rw [Particle.word_of_ofWord? hw]⟩ h
    · rfl
  · rfl

theorem takeConjunction_cases (words : List String) :
    (∃ p rest, p.isConjunction = true ∧ rest ≠ [] ∧ words = p.word :: rest ∧ takeConjunction words = (some p, rest)) ∨
      (¬ OpensWithConjunction words ∧ takeConjunction words = (none, words)) := by
  by_cases h : OpensWithConjunction words
  · obtain ⟨p, hp, rest, hne, rfl⟩ := h
    exact .inl ⟨p, rest, hp, hne, rfl, takeConjunction_cons hp hne⟩
  · exact .inr ⟨h, takeConjunction_of_not h⟩

def tag : List String := [Particle.anu.word, "seme"]

def EndsInTag (words : List String) : Prop := ∃ init, init ≠ [] ∧ words = init ++ tag

theorem takeTag_append {init : List String} (hne : init ≠ []) : takeTag (init ++ tag) = (true, init) := by
  obtain ⟨front, last, rfl⟩ : ∃ front last, init = front ++ [last] :=
    ⟨_, _, (List.dropLast_concat_getLast hne).symm⟩
  simp [takeTag, tag]

theorem takeTag_of_not (h : ¬ EndsInTag words) : takeTag words = (false, words) := by
  unfold takeTag
  split
  case _ w v u rest hrev =>
    split
    case isTrue htag =>
      obtain ⟨rfl, rfl⟩ : v = Particle.anu.word ∧ w = "seme" := by simpa using htag
      refine absurd ⟨(u :: rest).reverse, by simp, ?_⟩ h
      rw [← List.reverse_eq_iff.2 hrev.symm]
      simp [tag]
    · rfl
  · rfl

theorem takeTag_cases (words : List String) :
    (∃ init, init ≠ [] ∧ words = init ++ tag ∧ takeTag words = (true, init)) ∨
      (¬ EndsInTag words ∧ takeTag words = (false, words)) := by
  by_cases h : EndsInTag words
  · obtain ⟨init, hne, rfl⟩ := h
    exact .inl ⟨init, hne, rfl, takeTag_append hne⟩
  · exact .inr ⟨h, takeTag_of_not h⟩

theorem takeMood_of_head_ne {mood : Mood} (h : words.head? ≠ some Particle.o.word) :
    takeMood mood words = (mood, words) := by
  have hany : words.head?.any isO = false := by
    cases hhead : words.head? <;> simp_all [isO]
  simp [takeMood, hany]

theorem takeMood_hortative {mood : Mood} {rest : List String} (h : Particle.li.word ∈ rest) :
    takeMood mood (Particle.o.word :: rest) = (.hortative, rest) := by
  have hli : Particle.li.isIn (Particle.o.word :: rest) = true := Particle.isIn_iff.2 (by simp [h])
  simp [takeMood, hli, isO]

theorem takeMood_imperative {mood : Mood} {rest : List String} (h : Particle.li.word ∉ rest) :
    takeMood mood (Particle.o.word :: rest) = (.imperative, Particle.o.word :: rest) := by
  have hli : Particle.li.isIn (Particle.o.word :: rest) = false := by
    rw [Particle.isIn_eq_false, List.mem_cons, not_or]
    exact ⟨by decide, h⟩
  simp [takeMood, hli, isO]

theorem takeMood_cases (mood : Mood) (words : List String) :
    (∃ rest, words = Particle.o.word :: rest ∧ Particle.li.word ∈ rest ∧ takeMood mood words = (.hortative, rest)) ∨
      (∃ rest, words = Particle.o.word :: rest ∧ Particle.li.word ∉ rest ∧ takeMood mood words = (.imperative, words)) ∨
      (words.head? ≠ some Particle.o.word ∧ takeMood mood words = (mood, words)) := by
  by_cases h : words.head? = some Particle.o.word
  · obtain ⟨rest, rfl⟩ := List.head?_eq_some_iff.1 h
    by_cases hli : Particle.li.word ∈ rest
    · exact .inl ⟨rest, rfl, hli, takeMood_hortative hli⟩
    · exact .inr (.inl ⟨rest, rfl, hli, takeMood_imperative hli⟩)
  · exact .inr (.inr ⟨h, takeMood_of_head_ne h⟩)

theorem takeMood_eq {mood : Mood} {core : List String} (hmood : takeMood .declarative words = (mood, core)) :
    words = (if mood = .hortative then [Particle.o.word] else []) ++ core := by
  rcases takeMood_cases .declarative words with ⟨rest, rfl, -, heq⟩ | ⟨rest, -, -, heq⟩ | ⟨-, heq⟩
  all_goals
    obtain ⟨rfl, rfl⟩ := Prod.mk.inj (hmood.symm.trans heq)
    simp

theorem mem_of_mem_takeConjunction {w : String} (h : w ∈ (takeConjunction words).2) :
    w ∈ words := by
  unfold takeConjunction at h
  split at h
  · split at h
    · exact List.mem_cons_of_mem _ h
    · exact h
  · exact h

theorem mem_of_mem_takeTag {w : String} (h : w ∈ (takeTag words).2) : w ∈ words := by
  unfold takeTag at h
  split at h
  case _ t v u rest hrev =>
    split at h
    · rw [← List.mem_reverse, hrev]
      simp only [List.mem_reverse, List.mem_cons] at h ⊢
      tauto
    · exact h
  · exact h

theorem mem_of_mem_takeMood {mood : Mood} {w : String} (h : w ∈ (takeMood mood words).2) :
    w ∈ words := by
  unfold takeMood at h
  split at h
  · split at h
    · exact List.mem_of_mem_drop h
    · exact h
  · exact h

theorem mem_of_mem_core {conjunction : Option Particle} {tagQuestion : Bool} {mood mood' : Mood}
    {unjoined untagged core : List String} (hconj : takeConjunction words = (conjunction, unjoined))
    (htag : takeTag unjoined = (tagQuestion, untagged)) (hmood : takeMood mood untagged = (mood', core)) {w : String}
    (h : w ∈ core) : w ∈ words := by
  have huntagged : w ∈ untagged := mem_of_mem_takeMood (by rwa [hmood] : w ∈ (takeMood mood untagged).2)
  have hunjoined : w ∈ unjoined := mem_of_mem_takeTag (by rwa [htag] : w ∈ (takeTag unjoined).2)
  exact mem_of_mem_takeConjunction (by rwa [hconj] : w ∈ (takeConjunction words).2)

def isGovernor (w : String) : Bool := isLi w || isO w

theorem isGovernor_eq_true {w : String} : isGovernor w = true ↔ w = Particle.li.word ∨ w = Particle.o.word := by
  simp [isGovernor, isLi, isO]

theorem isGovernor_eq_false {w : String} : isGovernor w = false ↔ w ≠ Particle.li.word ∧ w ≠ Particle.o.word := by
  simp [isGovernor, isLi, isO]

theorem isQuiet_tag : ∀ w ∈ tag, IsQuiet w := by
  have hseme : IsPhraseWord "seme" := by simp [IsPhraseWord, Particle.word]
  simpa [tag] using ⟨isQuiet_word.2 (by decide), hseme.isQuiet⟩

theorem notMem_of_coordination {c : Chain} (h : (coordination lex words : Except ParseError Chain) = .ok c) :
    ∀ w ∈ words, w ≠ Particle.li.word ∧ w ≠ Particle.la.word ∧ w ≠ Particle.o.word ∧ w ≠ Particle.e.word := by
  intro w hw
  rcases mem_of_coordination h w hw with rfl | rfl | hword
  · decide
  · decide
  · exact ⟨hword .li (by simp), hword .la (by simp), hword .o (by simp), hword .e (by simp)⟩

theorem takeTag_told {after untagged : List String} {tagQuestion : Bool} (hne : after ≠ [])
    (h : takeTag (placeholderSubject ++ Particle.o.word :: after) = (tagQuestion, untagged)) :
    ∃ told, untagged = placeholderSubject ++ Particle.o.word :: told ∧ after = told ++ if tagQuestion then tag else [] := by
  rcases takeTag_cases (placeholderSubject ++ Particle.o.word :: after) with ⟨init, hinit, heq, htake⟩ | ⟨-, htake⟩
  · obtain ⟨rfl, rfl⟩ := Prod.mk.inj (h.symm.trans htake)
    rcases List.append_eq_append_iff.1 heq with ⟨rest, rfl, hrest⟩ | ⟨rest, hrest, htag⟩
    · cases rest with
      | nil => simp [tag, Particle.word] at hrest
      | cons w told =>
        obtain ⟨rfl, rfl⟩ := List.cons.inj hrest
        exact ⟨told, rfl, by simp⟩
    · cases rest with
      | nil => simp [tag, Particle.word] at htag
      | cons w rest =>
        have hw : Particle.anu.word ∈ placeholderSubject := by
          rw [hrest, (List.cons.inj htag).1]
          simp
        exact absurd hw (by decide)
  · obtain ⟨rfl, rfl⟩ := Prod.mk.inj (h.symm.trans htake)
    exact ⟨after, rfl, by simp⟩

theorem take_told {after unjoined untagged core : List String} {conjunction : Option Particle} {tagQuestion : Bool}
    {mood : Mood} (hne : after ≠ [])
    (hconj : takeConjunction (placeholderSubject ++ Particle.o.word :: after) = (conjunction, unjoined))
    (htag : takeTag unjoined = (tagQuestion, untagged)) (hmood : takeMood .imperative untagged = (mood, core)) :
    conjunction = none ∧ unjoined = placeholderSubject ++ Particle.o.word :: after ∧ mood = .imperative ∧
      core = untagged ∧ ∃ told, untagged = placeholderSubject ++ Particle.o.word :: told ∧
        after = told ++ if tagQuestion then tag else [] := by
  obtain ⟨rfl, rfl⟩ : none = conjunction ∧ placeholderSubject ++ Particle.o.word :: after = unjoined := Prod.mk.inj hconj
  obtain ⟨told, rfl, hafter⟩ := takeTag_told hne htag
  obtain ⟨rfl, rfl⟩ : Mood.imperative = mood ∧ placeholderSubject ++ Particle.o.word :: told = core := Prod.mk.inj hmood
  exact ⟨rfl, rfl, rfl, rfl, told, rfl, hafter⟩

theorem splitBefore_told (told : List String) : splitBefore isGovernor (placeholderSubject ++ Particle.o.word :: told) =
    placeholderSubject :: splitBefore isGovernor (Particle.o.word :: told) :=
  splitBefore_append_of_opens (by simp [placeholderSubject]) (by decide) (by decide) told

theorem exclamation_eq_some {phrase : Phrase} : exclamation lex words = some phrase ↔
    ∃ w rest, words = w :: rest ∧ lex.isInterjection w = true ∧
      (∀ v ∈ rest, v = Particle.a.word ∨ v = Particle.kin.word) ∧ phrase = ⟨.word w, rest.map .word, []⟩ := by
  cases words with
  | nil => simp [exclamation]
  | cons w rest =>
    rw [exclamation]
    split
    case isTrue h =>
      simp only [Bool.and_eq_true, List.all_eq_true, Bool.or_eq_true, beq_iff_eq] at h
      simp only [Option.some.injEq, List.cons.injEq, ↓existsAndEq, and_true, exists_eq_left']
      exact ⟨fun heq ↦ ⟨h.1, h.2, heq.symm⟩, fun heq ↦ heq.2.2.symm⟩
    case isFalse h =>
      simp only [Bool.and_eq_true, List.all_eq_true, Bool.or_eq_true, beq_iff_eq] at h
      simp only [reduceCtorEq, List.cons.injEq, false_iff, not_exists, not_and]
      rintro v others ⟨rfl, rfl⟩ hw hothers
      exact absurd ⟨hw, hothers⟩ h

inductive ReadsBody (lex : Lexicon) : List (List String) → Body → Prop
  | exclamation {only : List String} {phrase : Phrase} (h : exclamation lex only = some phrase) :
      ReadsBody lex [only] (.exclamation phrase)
  | call {addressee : List String} {c : Chain} (h : (coordination lex addressee : Except ParseError Chain) = .ok c) :
      ReadsBody lex [addressee, [Particle.o.word]] (.call c)
  | command {first : List String} {rest : List (List String)} {predicates : List Predicate}
      (hfirst : first.head? = some Particle.o.word) (hexclamation : rest = [] → exclamation lex first = none)
      (hpredicates : List.Forall₂ (ReadsPredicate lex) (first :: rest) predicates) :
      ReadsBody lex (first :: rest) (.predication none predicates)
  | statement {first : List String} {rest : List (List String)} {subject : Chain} {predicates : List Predicate}
      (hsubject : (coordination lex first : Except ParseError Chain) = .ok subject) (hne : rest ≠ [])
      (hpredicates : List.Forall₂ (ReadsPredicate lex) rest predicates) :
      ReadsBody lex (first :: rest) (.predication (some subject) predicates)

theorem ReadsBody.of_told {told : List String} {b : Body}
    (h : ReadsBody lex (splitBefore isGovernor (placeholderSubject ++ Particle.o.word :: told)) b) :
    ∃ subject, (coordination lex placeholderSubject : Except ParseError Chain) = .ok subject ∧
      ((told = [] ∧ b = .call subject) ∨
        ∃ predicates, List.Forall₂ (ReadsPredicate lex) (splitBefore isGovernor (Particle.o.word :: told)) predicates ∧
          b = .predication (some subject) predicates) := by
  have hflat := flatten_splitBefore isGovernor (Particle.o.word :: told)
  rw [splitBefore_told] at h
  generalize splitBefore isGovernor (Particle.o.word :: told) = parts at h hflat ⊢
  cases h with
  | exclamation => simp at hflat
  | call hsubject => exact ⟨_, hsubject, .inl ⟨by simpa using hflat.symm, rfl⟩⟩
  | command hfirst => exact absurd hfirst (by decide)
  | statement hsubject _ hpredicates => exact ⟨_, hsubject, .inr ⟨_, hpredicates, rfl⟩⟩

theorem predication_eq_ok {whole : List String} {subject : Option Chain} {parts : List (List String)} {b : Body} :
    (predication lex whole subject parts : Except ParseError Body) = .ok b ↔
      parts ≠ [] ∧ ∃ predicates, List.Forall₂ (ReadsPredicate lex) parts predicates ∧
        b = .predication subject predicates := by
  unfold predication
  cases parts with
  | nil => simp
  | cons part parts =>
    simp only [List.isEmpty_cons, Bool.false_eq_true, ↓reduceIte, map_eq_ok, mapM_eq_ok, predicate_eq_ok, ne_eq,
      reduceCtorEq, not_false_eq_true, true_and]
    exact exists_congr (fun predicates ↦ and_congr_right (fun _ ↦ eq_comm))

theorem statement_eq_ok {whole : List String} {parts : List (List String)} {b : Body} :
    (statement lex whole parts : Except ParseError Body) = .ok b ↔
      ∃ first rest, parts = first :: rest ∧ ((first.head? = some Particle.o.word ∧ ∃ predicates,
        List.Forall₂ (ReadsPredicate lex) (first :: rest) predicates ∧ b = .predication none predicates) ∨
          ∃ subject, (coordination lex first : Except ParseError Chain) = .ok subject ∧ rest ≠ [] ∧
            ∃ predicates, List.Forall₂ (ReadsPredicate lex) rest predicates ∧
              b = .predication (some subject) predicates) := by
  cases parts with
  | nil => simp [statement, predication_eq_ok]
  | cons first rest =>
    simp only [List.cons.injEq, ↓existsAndEq, and_true, true_and, statement]
    by_cases hfirst : first.head? = some Particle.o.word
    · have hany : first.head?.any isO = true := by simp [hfirst, isO]
      have hsubject : ¬ ∃ subject, (coordination lex first : Except ParseError Chain) = .ok subject := by
        rintro ⟨subject, h⟩
        exact (notMem_of_coordination h _ (List.mem_of_head? hfirst)).2.2.1 rfl
      rw [if_pos hany, predication_eq_ok]
      simp only [hfirst, ne_eq, reduceCtorEq, not_false_eq_true, true_and]
      refine ⟨.inl, fun h ↦ h.resolve_right ?_⟩
      rintro ⟨subject, h, -⟩
      exact hsubject ⟨subject, h⟩
    · have hany : ¬ first.head?.any isO = true := by
        cases hhead : first.head? <;> simp_all [isO]
      rw [if_neg hany, bind_eq_ok]
      simp only [hfirst, false_and, false_or, predication_eq_ok]

theorem ReadsPredicate.ne_singleton {clause : List String} {p : Predicate} (h : ReadsPredicate lex clause p) (w : String) :
    clause ≠ [w] := by
  rintro rfl
  obtain ⟨particle, words, -, hne, heq⟩ := governed_of_predicate (predicate_eq_ok.2 h)
  exact hne (List.cons.inj heq).2.symm

theorem body_eq_statement {whole first : List String} {rest : List (List String)}
    (hexclamation : rest = [] → exclamation lex first = none)
    (hpredicates : ∃ predicates, List.Forall₂ (ReadsPredicate lex) rest predicates) :
    (body lex whole (first :: rest) : Except ParseError Body) = statement lex whole (first :: rest) := by
  obtain ⟨predicates, hpredicates⟩ := hpredicates
  unfold body
  split
  case _ only heq =>
    obtain ⟨rfl, rfl⟩ := List.cons.inj heq
    rw [hexclamation rfl]
  case _ addressee w heq =>
    obtain ⟨rfl, rfl⟩ := List.cons.inj heq
    obtain ⟨p, -, hp⟩ := forall₂_exists_of_mem hpredicates (List.mem_singleton.2 rfl)
    exact absurd rfl (hp.ne_singleton w)
  · rfl

theorem body_eq_ok {whole : List String} {parts : List (List String)} {b : Body} :
    (body lex whole parts : Except ParseError Body) = .ok b ↔ ReadsBody lex parts b := by
  have hstatement (hexcl : ∀ only, parts = [only] → exclamation lex only = none)
      (h : (statement lex whole parts : Except ParseError Body) = .ok b) : ReadsBody lex parts b := by
    obtain ⟨first, rest, rfl, ⟨hfirst, predicates, hpredicates, rfl⟩ | ⟨subject, hsubject, hne, predicates, hpredicates,
      rfl⟩⟩ := statement_eq_ok.1 h
    · exact .command hfirst (fun hnil ↦ hexcl first (by rw [hnil])) hpredicates
    · exact .statement hsubject hne hpredicates
  constructor
  · intro h
    unfold body at h
    split at h
    case _ only =>
      split at h
      case _ phrase hphrase =>
        obtain rfl := pure_eq_ok.1 h
        exact .exclamation hphrase
      case _ hnone =>
        refine hstatement (fun only' heq ↦ ?_) h
        rwa [List.singleton_inj.1 heq] at hnone
    case _ addressee w =>
      split at h
      case isTrue hw =>
        obtain ⟨c, hc, rfl⟩ := map_eq_ok.1 h
        obtain rfl : w = Particle.o.word := by simpa [isO] using hw
        exact .call hc
      case isFalse hw => exact hstatement (by simp) h
    case _ hone htwo => exact hstatement (fun only heq ↦ absurd heq (hone only)) h
  · intro h
    cases h with
    | exclamation h => simp [body, h]
    | call h => simp [body, h, isO]
    | @command first rest predicates hfirst hexclamation hpredicates =>
      obtain ⟨-, others, -, hothers, -⟩ := List.forall₂_cons_left_iff.1 hpredicates
      rw [body_eq_statement hexclamation ⟨others, hothers⟩]
      exact statement_eq_ok.2 ⟨first, rest, rfl, .inl ⟨hfirst, _, hpredicates, rfl⟩⟩
    | @statement first rest subject predicates hsubject hne hpredicates =>
      rw [body_eq_statement (fun hnil ↦ absurd hnil hne) ⟨_, hpredicates⟩]
      exact statement_eq_ok.2 ⟨first, rest, rfl, .inr ⟨subject, hsubject, hne, _, hpredicates, rfl⟩⟩

/-- The sentence that a body is, with all that was taken off before it. -/
def Body.sentence (mark : Option Punctuation) (clause : OpenedClause) (conjunction : Option Particle)
    (tagQuestion : Bool) (mood : Mood) : Body → Sentence
  | .exclamation phrase => .exclamation phrase mark
  | .call addressee => .vocative addressee mark
  | .predication subject predicates =>
    .simple
      { subject, predicates, punctuation := mark, conjunction, vocatives := clause.vocatives, tagQuestion, mood,
        placeholder := clause.placeholder }

/-- How an opened clause is read: what comes off its ends, and what its parts say. -/
inductive ReadsOpened (lex : Lexicon) (mark : Option Punctuation) (rest : OpenedClause) : Sentence → Prop
  | intro {conjunction : Option Particle} {tagQuestion : Bool} {mood : Mood} {unjoined untagged core : List String}
      {b : Body} (hconj : takeConjunction rest.words = (conjunction, unjoined))
      (htag : takeTag unjoined = (tagQuestion, untagged)) (hmood : takeMood rest.mood untagged = (mood, core))
      (hlast : untagged.getLast? ≠ some Particle.li.word) (hla : Particle.la.word ∉ untagged) (hne : core ≠ [])
      (hbody : ReadsBody lex (splitBefore isGovernor core) b) :
      ReadsOpened lex mark rest (b.sentence mark rest conjunction tagQuestion mood)

theorem ReadsOpened.of_simple {mark : Option Punctuation} {rest : OpenedClause} {s : SimpleSentence}
    (h : ReadsOpened lex mark rest (.simple s)) :
    ∃ unjoined untagged core, takeConjunction rest.words = (s.conjunction, unjoined) ∧
      takeTag unjoined = (s.tagQuestion, untagged) ∧ takeMood rest.mood untagged = (s.mood, core) ∧
      Particle.la.word ∉ untagged ∧ ReadsBody lex (splitBefore isGovernor core) (.predication s.subject s.predicates) := by
  generalize hs : Sentence.simple s = sentence at h
  obtain ⟨hconj, htag, hmood, -, hla, -, hbody⟩ := h
  rename_i conjunction tagQuestion mood unjoined untagged core b
  cases b with
  | exclamation => simp [Body.sentence] at hs
  | call => simp [Body.sentence] at hs
  | predication subject predicates =>
    obtain rfl := Sentence.simple.inj hs
    exact ⟨unjoined, untagged, core, hconj, htag, hmood, hla, hbody⟩

theorem openedClause_eq_ok {whole : List String} {mark : Option Punctuation} {rest : OpenedClause} {s : Sentence} :
    (openedClause lex whole mark rest : Except ParseError Sentence) = .ok s ↔
      ReadsOpened lex mark rest s := by
  have hli (ws : List String) : ws.getLast?.any isLi = true ↔ ws.getLast? = some Particle.li.word := by
    cases ws.getLast? <;> simp [isLi]
  constructor
  · intro h
    rcases hconj : takeConjunction rest.words with ⟨conjunction, unjoined⟩
    rcases htag : takeTag unjoined with ⟨tagQuestion, untagged⟩
    rcases hmood : takeMood rest.mood untagged with ⟨mood, core⟩
    simp only [openedClause, hconj, htag, hmood] at h
    split at h
    · exact absurd h throw_ne_ok
    case isFalse hlast =>
    split at h
    · exact absurd h throw_ne_ok
    case isFalse hla =>
    split at h
    · exact absurd h throw_ne_ok
    case isFalse hne =>
    obtain ⟨b, hb, h⟩ := bind_eq_ok.1 h
    have hs : b.sentence mark rest conjunction tagQuestion mood = s := by
      cases b <;> exact pure_eq_ok.1 h
    rw [← hs]
    exact .intro hconj htag hmood ((hli _).not.1 hlast) (Particle.isIn_iff.not.1 hla) (by simpa using hne)
      (body_eq_ok.1 hb)
  · intro h
    cases h with
    | @intro _ _ _ _ _ _ b hconj htag hmood hlast hla hne hbody =>
      simp only [openedClause, hconj, htag, hmood]
      rw [if_neg ((hli _).not.2 hlast), if_neg (Particle.isIn_iff.not.2 hla), if_neg (by simpa using hne)]
      refine bind_eq_ok.2 ⟨b, body_eq_ok.2 hbody, ?_⟩
      cases b <;> rfl

theorem clause_eq_ok {mark : Option Punctuation} {s : Sentence} :
    (clause lex words mark : Except ParseError Sentence) = .ok s ↔
      (∃ addressee, Opened lex words (.call addressee) ∧ s = .vocative addressee mark) ∨
        ∃ rest, Opened lex words (.clause rest) ∧ ReadsOpened lex mark rest s := by
  rw [clause, bind_eq_ok]
  constructor
  · rintro ⟨o, ho, h⟩
    rw [openClause_eq_ok] at ho
    cases o with
    | call addressee => exact .inl ⟨addressee, ho, (pure_eq_ok.1 h).symm⟩
    | clause rest => exact .inr ⟨rest, ho, openedClause_eq_ok.1 h⟩
  · rintro (⟨addressee, ho, rfl⟩ | ⟨rest, ho, h⟩)
    · exact ⟨_, openClause_eq_ok.2 ho, rfl⟩
    · exact ⟨_, openClause_eq_ok.2 ho, openedClause_eq_ok.2 h⟩

end TokiPona.Reading
