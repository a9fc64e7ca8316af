import Mathlib.Data.List.Chain
import TokiPona.Reading.Adjacency
import TokiPona.Proofs.Predicate
import TokiPona.Proofs.Token

namespace TokiPona.Reading

def MayFollow (dialect : Dialect) (v w : String) : Prop :=
  IsStructural w → IsQuiet v ∨ (v = Particle.li.word ∧ w = Particle.pi.word ∧ dialect.liPi = true)

theorem structural?_ofWord {pos : Nat} {w : String} {p : Particle} :
    structural? (.ofWord pos w) = some p ↔ p.isStructural = true ∧ w = p.word := by
  unfold structural? Token.particle? Token.ofWord
  rw [Option.filter_eq_some_iff]
  by_cases hw : Word.isPreposition w = true
  · have hne : w ≠ p.word := by
      rintro rfl
      simp [isPreposition_word] at hw
    simp [hw, hne]
  · simp only [hw, Bool.false_eq_true, ↓reduceIte]
    constructor
    · exact fun ⟨hp, hs⟩ ↦ ⟨hs, (Particle.word_of_ofWord? hp).symm⟩
    · rintro ⟨hs, rfl⟩
      exact ⟨Particle.ofWord?_word p, hs⟩

theorem is_ofWord {pos : Nat} {w : String} {p : Particle} : (Token.ofWord pos w).is p = true ↔ w = p.word := by
  unfold Token.is Token.ofWord
  by_cases hw : Word.isPreposition w = true
  · have hne : w ≠ p.word := by
      rintro rfl
      simp [isPreposition_word] at hw
    simp [hw, hne]
  · simp [hw]

theorem particle?_ofWord (pos : Nat) (w : String) : (Token.ofWord pos w).particle? = Particle.ofWord? w := by
  unfold Token.particle? Token.ofWord
  split
  · rfl
  case _ hkind =>
    have hw : Word.isPreposition w = true := by
      by_contra hw
      exact hkind (by simp [hw])
    exact (ofWord?_of_isPreposition hw).symm

/-- What the check of particles asks of two neighbours. -/
def TokenMayFollow (dialect : Dialect) (s t : Token) : Prop :=
  ∀ q, structural? t = some q →
    s.is .o = false ∧ ∀ p, structural? s = some p → p = .li ∧ q = .pi ∧ dialect.liPi = true

theorem forall_neighbours {R : Token → Token → Prop} {tokens : List Token} :
    (∀ pair ∈ neighbours tokens, R pair.1 pair.2) ↔ tokens.IsChain R := by
  induction tokens with
  | nil => simp [neighbours]
  | cons s tokens ih =>
    cases tokens with
    | nil => simp [neighbours]
    | cons t tokens =>
      have hcons : neighbours (s :: t :: tokens) = (s, t) :: neighbours (t :: tokens) := rfl
      rw [hcons, List.forall_mem_cons, ih, List.isChain_cons_cons]

theorem adjacencyError?_eq_none {dialect : Dialect} {text : String} {tokens : List Token} :
    adjacencyError? dialect text tokens = none ↔ tokens.IsChain (TokenMayFollow dialect) := by
  rw [← forall_neighbours]
  simp only [adjacencyError?, doubled?, afterO?, clash?, Option.or_eq_none_iff, Option.map_eq_none_iff,
    List.findSome?_eq_none_iff]
  constructor
  · rintro ⟨-, hafter, hclash⟩ ⟨s, t⟩ hpair q hq
    have hafter' := hafter (s, t) hpair
    have hclash' := hclash (s, t) hpair
    refine ⟨?_, fun p hp ↦ ?_⟩
    · by_contra ho
      simp_all
    · simpa [hp, hq, and_assoc] using hclash'
  · intro h
    refine ⟨fun ⟨s, t⟩ hpair ↦ ?_, fun ⟨s, t⟩ hpair ↦ ?_, fun ⟨s, t⟩ hpair ↦ ?_⟩
    all_goals
      cases ht : structural? t with
      | none => cases hs : structural? s <;> simp_all
      | some q =>
        obtain ⟨ho, hboth⟩ := h (s, t) hpair q ht
        cases hs : structural? s with
        | none => simp_all
        | some p =>
          obtain ⟨rfl, rfl, hd⟩ := hboth p hs
          simp_all

theorem mayFollow_ofWord {dialect : Dialect} {pos pos' : Nat} {v w : String} :
    TokenMayFollow dialect (.ofWord pos v) (.ofWord pos' w) ↔ MayFollow dialect v w := by
  constructor
  · rintro h ⟨q, hq, rfl⟩
    obtain ⟨ho, hboth⟩ := h q (structural?_ofWord.2 ⟨hq, rfl⟩)
    by_cases hv : IsStructural v
    · obtain ⟨p, hp, rfl⟩ := hv
      obtain ⟨rfl, rfl, hd⟩ := hboth p (structural?_ofWord.2 ⟨hp, rfl⟩)
      exact .inr ⟨rfl, rfl, hd⟩
    · refine .inl ⟨hv, fun heq ↦ ?_⟩
      rw [is_ofWord.2 heq] at ho
      simp at ho
  · intro h q hq
    obtain ⟨hs, rfl⟩ := structural?_ofWord.1 hq
    rcases h ⟨q, hs, rfl⟩ with ⟨hv, ho⟩ | ⟨rfl, heq, hd⟩
    · refine ⟨by simpa using is_ofWord.not.2 ho, fun p hp ↦ absurd ?_ hv⟩
      exact ⟨p, structural?_ofWord.1 hp⟩
    · have hq : q = .pi := Particle.word_inj.1 heq
      refine ⟨by simpa using is_ofWord.not.2 (by decide), fun p hp ↦ ⟨?_, hq, hd⟩⟩
      exact (Particle.word_inj.1 (structural?_ofWord.1 hp).2).symm

theorem adjacencyError?_ofWords {dialect : Dialect} {text : String} {words : List String} {mark : Char} {pos : Nat} :
    adjacencyError? dialect text (Token.ofWords 0 words ++ [⟨String.singleton mark, .punctuation mark, pos⟩]) = none ↔
      words.IsChain (MayFollow dialect) := by
  have hwords (start : Nat) : (Token.ofWords start words).IsChain (TokenMayFollow dialect) ↔
      words.IsChain (MayFollow dialect) := by
    induction words generalizing start with
    | nil => simp [Token.ofWords]
    | cons v words ih =>
      cases words with
      | nil => simp [Token.ofWords]
      | cons w words =>
        have ih' := ih (start + v.utf8ByteSize + 1)
        rw [Token.ofWords, Token.ofWords, List.isChain_cons_cons, List.isChain_cons_cons, mayFollow_ofWord]
        rw [Token.ofWords] at ih'
        rw [ih']
  rw [adjacencyError?_eq_none, List.isChain_append, hwords]
  have hmark : ∀ s, TokenMayFollow dialect s ⟨String.singleton mark, .punctuation mark, pos⟩ := by
    intro s q hq
    simp [structural?, Token.particle?] at hq
  simp [hmark]

/-- A run whose neighbours go together, and after which any word may stand. -/
structure Tame (dialect : Dialect) (words : List String) : Prop where
  isChain : words.IsChain (MayFollow dialect)
  quiet : ∀ w ∈ words.getLast?, IsQuiet w

/-- A run that may stand after any word. -/
def Leads (words : List String) : Prop := ∃ w rest, words = w :: rest ∧ ¬ IsStructural w

section

variable {dialect : Dialect} {words words' : List String}

theorem MayFollow.of_quiet {v w : String} (h : IsQuiet v) : MayFollow dialect v w := fun _ ↦ .inl h

theorem leads_iff : Leads words ↔ ∃ w ∈ words.head?, ¬ IsStructural w := by
  constructor
  · rintro ⟨w, rest, rfl, hw⟩
    exact ⟨w, rfl, hw⟩
  · rintro ⟨w, hhead, hw⟩
    obtain ⟨rest, rfl⟩ := List.head?_eq_some_iff.1 hhead
    exact ⟨w, rest, rfl, hw⟩

theorem Leads.ne_nil (h : Leads words) : words ≠ [] := by
  obtain ⟨w, rest, rfl, -⟩ := h
  simp

theorem Leads.append (h : Leads words) (words' : List String) : Leads (words ++ words') := by
  obtain ⟨w, rest, rfl, hw⟩ := h
  exact ⟨w, rest ++ words', rfl, hw⟩

theorem Tame.nil : Tame dialect [] := ⟨.nil, by simp⟩

theorem Tame.append (h : Tame dialect words) (h' : Tame dialect words') : Tame dialect (words ++ words') := by
  refine ⟨List.isChain_append.2 ⟨h.isChain, h'.isChain, fun v hv w _ ↦ .of_quiet (h.quiet v hv)⟩, ?_⟩
  intro w hw
  rw [List.getLast?_append, Option.mem_def, Option.or_eq_some_iff] at hw
  rcases hw with hw | ⟨-, hw⟩
  · exact h'.quiet w hw
  · exact h.quiet w hw

theorem Tame.flatMap {α : Type} {f : α → List String} {xs : List α} (h : ∀ x ∈ xs, Tame dialect (f x)) :
    Tame dialect (xs.flatMap f) := by
  induction xs with
  | nil => exact .nil
  | cons x xs ih =>
    rw [List.flatMap_cons]
    exact (h x (by simp)).append (ih (fun y hy ↦ h y (by simp [hy])))

theorem Tame.cons {v w : String} {rest : List String} (h : Tame dialect (w :: rest)) (hvw : MayFollow dialect v w) :
    Tame dialect (v :: w :: rest) :=
  ⟨List.isChain_cons_cons.2 ⟨hvw, h.isChain⟩, fun u hu ↦ h.quiet u (by simpa using hu)⟩

theorem Tame.cons_leads (h : Tame dialect words) (hlead : Leads words) (v : String) : Tame dialect (v :: words) := by
  obtain ⟨w, rest, rfl, hw⟩ := hlead
  exact h.cons (fun hs ↦ absurd hs hw)

theorem Tame.of_quiet (h : ∀ w ∈ words, IsQuiet w) : Tame dialect words := by
  refine ⟨?_, fun w hw ↦ h w (List.mem_of_getLast? hw)⟩
  induction words with
  | nil => exact .nil
  | cons v words ih =>
    cases words with
    | nil => exact .singleton v
    | cons w words => exact .cons_cons (.of_quiet (h v (by simp))) (ih (fun u hu ↦ h u (by simp [hu])))

theorem Leads.of_quiet (hne : words ≠ []) (h : ∀ w ∈ words, IsQuiet w) : Leads words := by
  obtain ⟨w, rest, rfl⟩ := List.exists_cons_of_ne_nil hne
  exact ⟨w, rest, rfl, (h w (by simp)).1⟩

theorem tame_intercalate {runs : List (List String)} (hne : runs ≠ [])
    (h : ∀ run ∈ runs, Tame dialect run ∧ Leads run) (s : String) :
    Tame dialect ([s].intercalate runs) ∧ Leads ([s].intercalate runs) := by
  induction runs with
  | nil => exact absurd rfl hne
  | cons run runs ih =>
    obtain ⟨hrun, hlead⟩ := h run (by simp)
    cases runs with
    | nil => simpa using h run (by simp)
    | cons run' runs =>
      obtain ⟨htame, hleads⟩ := ih (by simp) (fun q hq ↦ h q (by simp [hq]))
      rw [List.intercalate_cons_of_ne_nil (by simp), List.append_assoc]
      exact ⟨hrun.append (htame.cons_leads hleads s), hlead.append _⟩

theorem isQuiet_of_isPreposition {w : String} (h : Word.isPreposition w = true) : IsQuiet w := by
  refine ⟨?_, ?_⟩
  · rintro ⟨p, -, rfl⟩
    simp [isPreposition_word] at h
  · rintro rfl
    simp [isPreposition_word] at h

theorem ArePhrases.tame {runs : List (List String)} (h : ArePhrases runs) (dialect : Dialect) :
    ∀ run ∈ runs, Tame dialect run ∧ Leads run := by
  intro run hrun
  obtain ⟨hne, hwords⟩ := h run hrun
  exact ⟨.of_quiet (fun w hw ↦ (hwords w hw).isQuiet), .of_quiet hne (fun w hw ↦ (hwords w hw).isQuiet)⟩

variable {lex : Lexicon}

theorem tame_chain {c : Chain} (h : (chain lex words : Except ParseError Chain) = .ok c) (dialect : Dialect) :
    Tame dialect words ∧ Leads words := by
  have hparts := (arePhrases_of_chain h).tame dialect
  have hjoin := tame_intercalate (splitDropping_ne_nil isPi words) hparts Particle.pi.word
  rwa [intercalate_splitDropping eq_of_isPi] at hjoin

theorem tame_coordination {c : Chain} (h : (coordination lex words : Except ParseError Chain) = .ok c) (dialect : Dialect) :
    Tame dialect c.spelling ∧ Leads c.spelling := by
  obtain ⟨-, -, -, first, hfirst, -⟩ := coordinationOver_eq_ok.1 h
  have hne := (spelling_coordinationFirst (fun _ _ ↦ spelling_phrase) hfirst).2.1
  rw [spelling_coordination h]
  apply tame_intercalate
  · intro hruns
    exact hne (by rw [tidy, hruns]; rfl)
  · intro run hrun
    obtain ⟨hmem, hrne⟩ := List.mem_filter.1 hrun
    have hparts := (arePhrases_of_coordination h run hmem (by simpa using hrne)).tame dialect
    have hjoin := tame_intercalate (splitDropping_ne_nil isPi run) hparts Particle.pi.word
    rwa [intercalate_splitDropping eq_of_isPi] at hjoin

theorem ReadsPrepPhrase.tame {piece : List String} {p : PrepPhrase} (h : ReadsPrepPhrase lex piece p) (dialect : Dialect) :
    Tame dialect p.spelling ∧ Leads p.spelling := by
  obtain ⟨preposition, governed⟩ := p
  obtain ⟨w, words, rfl, hw, hwords, rfl, hgoverned⟩ := h
  have hquiet := isQuiet_of_isPreposition hw
  rcases (complement_eq_ok hwords).1 hgoverned with ⟨rfl, rfl⟩ | ⟨-, c, hc, rfl⟩
  · rw [PrepPhrase.spelling, tilde_bare hw]
    exact ⟨.of_quiet (by simpa using hquiet), .of_quiet (by simp) (by simpa using hquiet)⟩
  · rw [PrepPhrase.spelling, tilde_bare hw]
    obtain ⟨htame, hleads⟩ := tame_coordination hc dialect
    exact ⟨htame.cons_leads hleads w, ⟨w, _, rfl, hquiet.1⟩⟩

theorem isQuiet_of_mem_verb {verb : List String}
    (hverb : ∀ w ∈ verb, w ≠ Particle.li.word ∧ w ≠ Particle.la.word ∧ w ≠ Particle.o.word)
    (he : ∀ w ∈ verb, isE w = false) : ∀ w ∈ verb, w ≠ Particle.pi.word → IsQuiet w := by
  intro w hw hpi
  obtain ⟨hli, hla, ho⟩ := hverb w hw
  refine ⟨?_, ho⟩
  rintro ⟨q, hq, rfl⟩
  cases q <;> simp [Particle.isStructural] at hq
  · exact hli rfl
  · exact absurd (he _ hw) (by decide)
  · exact hla rfl
  · exact hpi rfl

theorem tame_predicateKind {verb : List String} {kind : Option PredicateKind}
    (hkind : (predicateKind lex verb : Except ParseError (Option PredicateKind)) = .ok kind)
    (hverb : ∀ w ∈ verb, w ≠ Particle.pi.word → IsQuiet w) (dialect : Dialect) :
    Tame dialect verb ∧ (Leads verb ∨ verb = [] ∨ ∃ c, kind = some (.pi c) ∧ verb.head? = some Particle.pi.word) := by
  cases predicateKind_eq_ok.1 hkind with
  | nothing => exact ⟨.nil, .inr (.inl rfl)⟩
  | pi hlink =>
    obtain ⟨htame, hleads⟩ := tame_chain hlink dialect
    exact ⟨htame.cons_leads hleads _, .inr (.inr ⟨_, rfl, rfl⟩)⟩
  | nominal _ _ hlink =>
    obtain ⟨htame, hleads⟩ := tame_chain hlink dialect
    exact ⟨htame, .inl hleads⟩
  | verb hne hpi =>
    have hquiet : ∀ v ∈ verb, IsQuiet v := by
      intro v hv
      apply hverb v hv
      rintro rfl
      exact hpi hv
    exact ⟨.of_quiet hquiet, .inl (.of_quiet hne hquiet)⟩

theorem tame_spellings {pieces : List (List String)} {phrases : List PrepPhrase}
    (h : List.Forall₂ (ReadsPrepPhrase lex) pieces phrases) (dialect : Dialect) :
    Tame dialect (phrases.map PrepPhrase.spelling).flatten ∧
      (phrases ≠ [] → Leads (phrases.map PrepPhrase.spelling).flatten) := by
  induction h with
  | nil => exact ⟨.nil, fun h ↦ absurd rfl h⟩
  | cons hp _ ih =>
    obtain ⟨htame, hleads⟩ := hp.tame dialect
    rw [List.map_cons, List.flatten_cons]
    exact ⟨htame.append ih.1, fun _ ↦ hleads.append _⟩

theorem Tame.govern {particle : Particle} {kind : PredicateKind} {verb tail : List String} (h : Tame dialect (verb ++ tail))
    (hhead : Leads verb ∨ (verb = [] ∧ Leads tail) ∨ ∃ c, kind = .pi c ∧ verb.head? = some Particle.pi.word)
    (hdialect : ∀ c, kind = .pi c → particle = .li ∧ dialect.liPi = true) :
    Tame dialect (particle.word :: (verb ++ tail)) := by
  rcases hhead with hlead | ⟨rfl, hlead⟩ | ⟨c, hc, hpi⟩
  · exact h.cons_leads (hlead.append tail) _
  · exact h.cons_leads hlead _
  · obtain ⟨rest, rfl⟩ := List.head?_eq_some_iff.1 hpi
    obtain ⟨rfl, hd⟩ := hdialect c hc
    exact h.cons (fun _ ↦ .inr ⟨rfl, rfl, hd⟩)

theorem ReadsPredicate.tame {clause : List String} {p : Predicate} (h : ReadsPredicate lex clause p)
    (hp : p.IsRereadable dialect)
    (hclause : ∀ w ∈ clause.tail, w ≠ Particle.li.word ∧ w ≠ Particle.la.word ∧ w ≠ Particle.o.word) :
    Tame dialect p.spelling := by
  have hquiet {verb : List String} (hsub : ∀ w ∈ verb, w ∈ clause.tail) (he : ∀ w ∈ verb, isE w = false) :
      ∀ w ∈ verb, w ≠ Particle.pi.word → IsQuiet w :=
    isQuiet_of_mem_verb (fun w hw ↦ hclause w (hsub w hw)) he
  cases h with
  | @transitive particle verb last kind init pieces chains phrases hgov hcut hkind hchains hphrases =>
    have hverb := hp.verb_ne_nil rfl
    rw [spelling_predicateKind hkind] at hverb
    obtain ⟨htame, hhead⟩ := tame_predicateKind hkind (hquiet (by simp +contextual [joined]) hcut.verb) dialect
    rw [spelling_transitive hkind hchains, joined, List.append_assoc]
    refine Tame.govern (htame.append (.append (.flatMap fun object hobject ↦ ?_) (tame_spellings hphrases dialect).1)) ?_
      hp.dialect
    · obtain ⟨c, -, hc⟩ := forall₂_exists_of_mem hchains hobject
      exact (tame_chain hc dialect).1.cons_leads (tame_chain hc dialect).2 _
    · rcases hhead with hlead | hnil | ⟨c, rfl, hpi⟩
      · exact .inl hlead
      · exact absurd hnil hverb
      · exact .inr (.inr ⟨c, rfl, hpi⟩)
  | @intransitive particle verb kind pieces phrases hgov hne he hverb hkind hfull hphrases =>
    obtain ⟨htame, hhead⟩ := tame_predicateKind hkind (hquiet (by simp +contextual [joined]) he) dialect
    rw [spelling_intransitive (spelling_predicateKind hkind), joined, List.flatMap_nil, List.append_nil]
    refine Tame.govern (htame.append (tame_spellings hphrases dialect).1) ?_ hp.dialect
    rcases hhead with hlead | rfl | ⟨c, rfl, hpi⟩
    · exact .inl hlead
    · refine .inr (.inl ⟨rfl, (tame_spellings hphrases dialect).2 ?_⟩)
      rintro rfl
      cases hphrases
      simp [joined] at hne
    · exact .inr (.inr ⟨c, rfl, hpi⟩)
  | @promoted particle before after w phrases hgov hw hfull hphrases =>
    obtain ⟨hword, -⟩ := hp.verb rfl _ rfl (Word.bare w) (by simp [VerbPhrase.words, VerbPhrase.lexemes, Lexeme.words])
    have hkind : (PredicateKind.verb { head := some (.word (Word.bare w)) }).spelling = [Word.bare w] := by
      simp [PredicateKind.spelling, VerbPhrase.words, VerbPhrase.lexemes, Lexeme.words]
    rw [spelling_intransitive hkind, joined, List.flatMap_nil, List.append_nil]
    refine Tame.govern ((Tame.of_quiet (by simpa using hword)).append (tame_spellings hphrases dialect).1) (.inl ?_) hp.dialect
    exact .of_quiet (by simp) (by simpa using hword)

end

end TokiPona.Reading
