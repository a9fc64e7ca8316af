import Mathlib.Algebra.GroupWithZero.Nat
import TokiPona.Proofs.Rereading

/-!
Whatever a sentence is not spelled with has been dropped on the way. A sentence that is spelled with just the words it
was read from is spelled with them in their order, and can be read again.
-/

namespace TokiPona.Reading

variable {lex : Lexicon} {words words' out out' : List String} {P Q : Prop}

/-- A measure that no reader increases. A `li` weighs nothing, since one that was left out is written. -/
def heft (w : String) : Nat := if w = Particle.li.word then 0 else w.length + 2

def heftOf (words : List String) : Nat := (words.map heft).sum

@[simp] theorem heftOf_nil : heftOf [] = 0 := rfl

@[simp] theorem heftOf_cons (w : String) (words : List String) : heftOf (w :: words) = heft w + heftOf words := by
  simp [heftOf]

@[simp] theorem heftOf_append (words words' : List String) : heftOf (words ++ words') = heftOf words + heftOf words' := by
  simp [heftOf]

theorem heft_pos {w : String} (h : w ≠ Particle.li.word) : 0 < heft w := by
  rw [heft, if_neg h]
  omega

/-- Either `words` are spelled as they are and `P` holds, or some of them have been dropped. -/
def Saves (P : Prop) (out words : List String) : Prop := (P ∧ out = words) ∨ heftOf out < heftOf words

theorem Saves.of_eq (hP : P) (h : out = words) : Saves P out words := .inl ⟨hP, h⟩

theorem Saves.imp (h : Saves P out words) (hPQ : out = words → P → Q) : Saves Q out words :=
  h.imp_left (fun ⟨hP, heq⟩ ↦ ⟨hPQ heq hP, heq⟩)

theorem Saves.and_eq (h : Saves P out words) : Saves (P ∧ out = words) out words := h.imp (fun heq hP ↦ ⟨hP, heq⟩)

theorem Saves.le (h : Saves P out words) : heftOf out ≤ heftOf words := by
  rcases h with ⟨-, rfl⟩ | hlt
  · exact Nat.le_refl _
  · exact Nat.le_of_lt hlt

theorem Saves.append (h : Saves P out words) (h' : Saves Q out' words') : Saves (P ∧ Q) (out ++ out') (words ++ words') := by
  rcases h with ⟨hP, rfl⟩ | hlt
  · rcases h' with ⟨hQ, rfl⟩ | hlt
    · exact .of_eq ⟨hP, hQ⟩ rfl
    · exact .inr (by simpa using hlt)
  · have hle := h'.le
    refine .inr ?_
    simp only [heftOf_append]
    omega

theorem Saves.append_left (h : Saves P out words) (front : List String) : Saves P (front ++ out) (front ++ words) :=
  ((Saves.of_eq trivial (Eq.refl front)).append h).imp (fun _ ↦ And.right)

theorem Saves.append_right (h : Saves P out words) (back : List String) : Saves P (out ++ back) (words ++ back) :=
  (h.append (.of_eq trivial (Eq.refl back))).imp (fun _ ↦ And.left)

theorem Saves.cons (h : Saves P out words) (w : String) : Saves P (w :: out) (w :: words) := h.append_left [w]

theorem Saves.of_heftOf_eq (h : Saves P out words) (heq : heftOf out = heftOf words) : P ∧ out = words :=
  h.resolve_right (by omega)

theorem saves_tidy (words : List String) : Saves True (tidy words) words := by
  induction words using cut_induction isEn with
  | plain words hwords => exact .of_eq trivial (tidy_of_forall hwords)
  | cut piece s words hpiece hs ih =>
    obtain rfl := eq_of_isEn s hs
    have hen : 0 < heft Particle.en.word := heft_pos (by decide)
    by_cases hne : piece = []
    · subst hne
      have hle := ih.le
      rw [List.nil_append, tidy_en_cons]
      refine .inr ?_
      simp only [heftOf_cons]
      omega
    · rw [tidy_append_en hne hpiece]
      split
      · refine .inr ?_
        simp only [heftOf_append, heftOf_cons]
        omega
      · exact (ih.cons _).append_left _

theorem saves_coordination {c : Chain} (h : (coordination lex words : Except ParseError Chain) = .ok c) :
    Saves c.KeepsEn c.spelling words := by
  rw [spelling_coordination h]
  refine (saves_tidy words).imp (fun heq _ hpi ↦ ?_)
  rw [spelling_coordination h, heq]
  exact en_mem_of_coordinationOver h hpi

theorem ReadsPrepPhrase.saves {piece : List String} {p : PrepPhrase} (h : ReadsPrepPhrase lex piece p) :
    Saves p.KeepsEn p.spelling piece := by
  obtain ⟨preposition, governed⟩ := p
  obtain ⟨w, words, rfl, hw, hwords, rfl, hgoverned⟩ := h
  rcases (complement_eq_ok hwords).1 hgoverned with ⟨rfl, rfl⟩ | ⟨-, c, hc, rfl⟩
  · exact .of_eq (by simp [PrepPhrase.KeepsEn]) (by rw [PrepPhrase.spelling, tilde_bare hw])
  · rw [PrepPhrase.spelling, tilde_bare hw]
    exact ((saves_coordination hc).cons w).imp (fun _ hen ↦ by simpa [PrepPhrase.KeepsEn] using hen)

theorem saves_phrases {pieces : List (List String)} {phrases : List PrepPhrase}
    (h : List.Forall₂ (ReadsPrepPhrase lex) pieces phrases) :
    Saves (∀ p ∈ phrases, p.KeepsEn) (phrases.map PrepPhrase.spelling).flatten pieces.flatten := by
  induction h with
  | nil => exact .of_eq (by simp) rfl
  | cons hp _ ih => exact (hp.saves.append ih).imp (fun _ ⟨hen, hrest⟩ ↦ List.forall_mem_cons.2 ⟨hen, hrest⟩)

theorem saves_context {c : Context} (h : (context lex words : Except ParseError Context) = .ok c)
    (hli : withImpliedLi lex words = words) : Saves (c.IsRereadable lex) c.spelling words := by
  rcases context_eq_ok.1 h with ⟨-, phrases, rfl, hread⟩ | ⟨-, chain, rfl, hread⟩
  · have hsaves := saves_phrases hread
    rwa [flatten_splitBefore, ← List.flatMap_def] at hsaves
  · refine (saves_coordination hread).imp (fun heq hen ↦ ⟨hen, ?_⟩)
    rw [show chain.spelling = words from heq, hli]

theorem heft_bare_lt {w : String} (h : Word.isPreposition w = true) : heft (Word.bare w) < heft w := by
  have hlength := congrArg String.length (tilde_bare h)
  rw [String.length_append] at hlength
  have hmark : "~".length = 1 := by decide
  have hli : w ≠ Particle.li.word := by
    rintro rfl
    simp [isPreposition_word] at h
  rw [heft, heft, if_neg hli]
  split <;> omega

section

variable {dialect : Dialect} {part : List String} {p : Predicate}

theorem governs {particle : Particle} (hgov : particle.isGoverning = true) {w : String} {rest : List String}
    (h : (particle.word :: w :: rest).IsChain (MayFollow dialect)) (hw : IsStructural w) :
    particle = .li ∧ w = Particle.pi.word ∧ dialect.liPi = true := by
  rcases (List.isChain_cons_cons.1 h).1 hw with hquiet | ⟨hli, hpi, hd⟩
  · obtain ⟨hs, ho⟩ := isQuiet_word.1 hquiet
    cases particle <;> simp_all [Particle.isGoverning, Particle.isStructural]
  · exact ⟨Particle.word_inj.1 hli, hpi, hd⟩

theorem pi_notMem_verb {verb : List String} {kind : Option PredicateKind} {v : VerbPhrase}
    (h : (predicateKind lex verb : Except ParseError (Option PredicateKind)) = .ok kind)
    (hv : kind.getD (.verb {}) = .verb v) : Particle.pi.word ∉ verb := by
  cases predicateKind_eq_ok.1 h with
  | nothing => simp
  | pi => simp at hv
  | nominal => simp at hv
  | verb _ hpi => exact hpi

theorem ReadsPredicate.saves (h : ReadsPredicate lex part p) (hchain : part.IsChain (MayFollow dialect))
    (hpart : ∀ w ∈ part.tail, w ≠ Particle.li.word ∧ w ≠ Particle.la.word ∧ w ≠ Particle.o.word) :
    Saves (p.IsRereadable dialect) p.spelling part := by
  have hdialect {particle : Particle} {verb tail : List String} {kind : Option PredicateKind}
      (hgov : particle.isGoverning = true) (hpart : part = particle.word :: (verb ++ tail))
      (hkind : (kind.getD (.verb {})).spelling = verb) :
      ∀ c, kind.getD (.verb {}) = .pi c → particle = .li ∧ dialect.liPi = true := by
    intro c hc
    rw [hc] at hkind
    rw [hpart, ← hkind] at hchain
    obtain ⟨hli, -, hd⟩ := governs hgov hchain ⟨.pi, rfl, rfl⟩
    exact ⟨hli, hd⟩
  cases h with
  | @transitive particle verb last kind init pieces chains phrases hgov hcut hkind hchains hphrases =>
    have hspelling := spelling_predicateKind hkind
    rw [spelling_transitive hkind hchains]
    refine (((saves_phrases hphrases).append_left _).cons particle.word).imp (fun _ hen ↦ ⟨hen, fun _ ↦ ?_, ?_, by simp⟩)
    · rw [hspelling]
      rintro rfl
      obtain ⟨rest, hrest⟩ : ∃ rest, joined [] (init ++ [last]) pieces = Particle.e.word :: rest := by
        cases init <;> exact ⟨_, rfl⟩
      rw [hrest] at hchain
      obtain ⟨-, heq, -⟩ := governs hgov hchain ⟨.e, rfl, rfl⟩
      exact absurd heq (by decide)
    · exact hdialect hgov (by rw [joined, List.append_assoc]) hspelling
  | @intransitive particle verb kind pieces phrases hgov hne he hverb hkind hfull hphrases =>
    have hspelling := spelling_predicateKind hkind
    rw [spelling_intransitive hspelling]
    refine (((saves_phrases hphrases).append_left _).cons particle.word).imp
      (fun _ hen ↦ ⟨hen, by simp, ?_, fun _ v hv w hw ↦ ?_⟩)
    · exact hdialect hgov (by rw [joined, List.append_assoc]) hspelling
    · dsimp only at hv
      rw [hv] at hspelling
      have hmem : w ∈ verb := by
        rw [← hspelling]
        exact List.mem_of_head? hw
      refine ⟨isQuiet_of_mem_verb (fun w hw ↦ hpart w (by simp [joined, hw])) he w hmem ?_, hverb w hmem⟩
      rintro rfl
      exact pi_notMem_verb hkind hv hmem
  | @promoted particle before after w phrases hgov hw hfull hphrases =>
    have hverb : (PredicateKind.verb { head := some (.word (Word.bare w)) }).spelling = [Word.bare w] := by
      simp [PredicateKind.spelling, VerbPhrase.words, VerbPhrase.lexemes, Lexeme.words]
    have hlt := heft_bare_lt hw
    have hle := (saves_phrases hphrases).le
    rw [spelling_intransitive hverb]
    refine .inr ?_
    simp only [joined, List.flatMap_nil, List.append_nil, List.nil_append, List.flatten_append, List.flatten_cons,
      List.cons_append, heftOf_cons, heftOf_append] at hle ⊢
    omega

end

theorem saves_predicates {dialect : Dialect} {parts : List (List String)} {predicates : List Predicate}
    (h : List.Forall₂ (ReadsPredicate lex) parts predicates) (hchain : ∀ part ∈ parts, part.IsChain (MayFollow dialect))
    (htail : ∀ part ∈ parts, ∀ w ∈ part.tail, w ≠ Particle.li.word ∧ w ≠ Particle.la.word ∧ w ≠ Particle.o.word) :
    Saves ((∀ p ∈ predicates, p.IsRereadable dialect) ∧ predicates.map Predicate.spelling = parts)
      (predicates.flatMap Predicate.spelling) parts.flatten := by
  induction h with
  | nil => exact .of_eq (by simp) rfl
  | @cons part p parts predicates hp _ ih =>
    have hsaves := hp.saves (hchain part (by simp)) (htail part (by simp))
    have ih' := ih (fun q hq ↦ hchain q (by simp [hq])) (fun q hq ↦ htail q (by simp [hq]))
    refine (hsaves.and_eq.append ih').imp (fun _ h ↦ ?_)
    obtain ⟨⟨hagain, rfl⟩, hothers, rfl⟩ := h
    exact ⟨List.forall_mem_cons.2 ⟨hagain, hothers⟩, rfl⟩

theorem saves_addressees {runs : List (List String)} {chains : List Chain}
    (h : (addressees lex runs : Except ParseError (List Chain)) = .ok chains) :
    Saves (∀ c ∈ chains, c.KeepsEn) (chains.flatMap (·.spelling ++ [Particle.o.word]))
      (runs.flatMap (· ++ [Particle.o.word])) := by
  have hread := mapM_eq_ok.1 h
  clear h
  induction runs generalizing chains with
  | nil =>
    obtain rfl := List.forall₂_nil_left_iff.1 hread
    exact .of_eq (by simp) rfl
  | cons run runs ih =>
    cases run with
    | nil =>
      have hle := (ih (by simpa using hread)).le
      have ho : 0 < heft Particle.o.word := heft_pos (by decide)
      refine .inr ?_
      simp only [List.flatMap_cons, List.nil_append, List.singleton_append, heftOf_cons]
      omega
    | cons w run =>
      rw [List.filter_cons_of_pos (by simp)] at hread
      obtain ⟨c, others, hc, hothers, rfl⟩ := List.forall₂_cons_left_iff.1 hread
      simp only [List.flatMap_cons]
      refine (((saves_coordination hc).append_right _).append (ih hothers)).imp (fun _ ⟨hen, hrest⟩ ↦ ?_)
      exact List.forall_mem_cons.2 ⟨hen, hrest⟩

theorem saves_predication {dialect : Dialect} {core : List String} {subject : Option Chain} {predicates : List Predicate}
    (h : ReadsBody lex (splitBefore isGovernor core) (.predication subject predicates)) (hla : Particle.la.word ∉ core)
    (hchain : core.IsChain (MayFollow dialect)) :
    Saves ((∀ c ∈ subject, c.KeepsEn) ∧ (∀ p ∈ predicates, p.IsRereadable dialect) ∧
        (subject = none → ∀ p, predicates = [p] → exclamation lex p.spelling = none))
      (subject.toList.flatMap Chain.spelling ++ predicates.flatMap Predicate.spelling) core := by
  have hflat := flatten_splitBefore isGovernor core
  have htail := fun part hpart ↦ @mem_tail_part core part hla hpart
  have hparts : ∀ part ∈ splitBefore isGovernor core, part.IsChain (MayFollow dialect) := by
    intro part hpart
    rw [← hflat] at hchain
    exact hchain.infix (List.infix_of_mem_flatten hpart)
  generalize splitBefore isGovernor core = parts at h hflat htail hparts
  rw [← hflat]
  cases h with
  | @command first rest predicates hfirst hexclamation hpredicates =>
    refine (saves_predicates hpredicates hparts htail).imp (fun _ ⟨hp, heq⟩ ↦ ⟨by simp, hp, fun _ p hsingle ↦ ?_⟩)
    subst hsingle
    obtain ⟨rfl, rfl⟩ := List.cons.inj heq
    exact hexclamation rfl
  | @statement first rest subject predicates hsubject hne hpredicates =>
    have hrest := saves_predicates hpredicates (fun q hq ↦ hparts q (by simp [hq])) (fun q hq ↦ htail q (by simp [hq]))
    simp only [Option.toList_some, List.flatMap_singleton, List.flatten_cons]
    refine ((saves_coordination hsubject).append hrest).imp (fun _ ⟨hen, hp, _⟩ ↦ ⟨?_, hp, nofun⟩)
    simpa using hen

section

variable {g : Grammar} {conjunction : Option Particle} {tagQuestion : Bool} {mood : Mood} {unjoined untagged core : List String}
  {subject : Option Chain} {predicates : List Predicate} (vocatives : List Chain) (mark : Option Punctuation)

theorem body_ne_tag {s : SimpleSentence} {p : Predicate} (hp : p ∈ s.predicates) (hgov : p.particle.isGoverning = true) :
    s.body ≠ tag := by
  have hmem : p.particle.word ∈ s.body :=
    List.mem_append_right _ (List.mem_flatMap.2 ⟨p, hp, by simp [Predicate.spelling]⟩)
  intro heq
  rw [heq] at hmem
  cases hparticle : p.particle <;> simp_all [Particle.isGoverning, tag, Particle.word]

theorem saves_ending (hconj : takeConjunction words = (conjunction, unjoined))
    (htag : takeTag unjoined = (tagQuestion, untagged)) (hmood : takeMood .declarative untagged = (mood, core))
    (hla : Particle.la.word ∉ untagged) (hchain : words.IsChain (MayFollow g.dialect))
    (hbody : ReadsBody g.lexicon (splitBefore isGovernor core) (.predication subject predicates)) :
    Saves ((∀ c ∈ vocatives, c.KeepsEn) →
        SimpleSentence.IsRereadable g
          { subject, predicates, punctuation := mark, conjunction, vocatives, tagQuestion, mood })
      (SimpleSentence.ending { subject, predicates, punctuation := mark, conjunction, vocatives, tagQuestion, mood })
      words := by
  obtain ⟨-, rfl, -⟩ := takeConjunction_eq hconj
  obtain ⟨rfl, hends⟩ := takeTag_eq htag
  have huntagged := takeMood_eq hmood
  have hcore : core.IsChain (MayFollow g.dialect) := by
    refine hchain.infix ?_
    rw [huntagged]
    exact ⟨conjunction.toList.map Particle.word ++ if mood = .hortative then [Particle.o.word] else [],
      if tagQuestion then tag else [], by simp⟩
  have hsaves := (saves_predication hbody (la_notMem_core hla hmood) hcore).append_left
    (if mood = .hortative then [Particle.o.word] else [])
  rw [← huntagged, ← List.append_assoc] at hsaves
  refine ((hsaves.and_eq.append_right _).append_left _).imp
    (fun _ ⟨⟨hen, hp, hexcl⟩, heq⟩ hcalls ↦
      ⟨by simp, hcalls, by simpa [SimpleSentence.writtenSubject] using hen, hp, ?_, hexcl⟩)
  rintro hnone ⟨init, hinit⟩
  obtain ⟨-, hne, hread⟩ := hbody.of_predication
  obtain ⟨p, hp⟩ := List.exists_mem_of_ne_nil _ hne
  obtain ⟨part, -, hpart⟩ := hread p hp
  refine hends hnone ⟨init, ?_, ?_⟩
  · rintro rfl
    exact body_ne_tag hp hpart.eq_cons.1 hinit.symm
  · dsimp only at hnone
    rw [hnone, ← heq, hinit]
    simp [SimpleSentence.body, SimpleSentence.writtenSubject]

theorem saves_told {after : List String} (hafter : after ≠ [])
    (hconj : takeConjunction (placeholderSubject ++ Particle.o.word :: after) = (conjunction, unjoined))
    (htag : takeTag unjoined = (tagQuestion, untagged)) (hmood : takeMood .imperative untagged = (mood, core))
    (hla : Particle.la.word ∉ untagged) (hchain : (Particle.o.word :: after).IsChain (MayFollow g.dialect))
    (hbody : ReadsBody g.lexicon (splitBefore isGovernor core) (.predication subject predicates)) :
    Saves ((∀ c ∈ vocatives, c.KeepsEn) →
        SimpleSentence.IsRereadable g
          { subject, predicates, punctuation := mark, conjunction, vocatives, tagQuestion, mood, placeholder := true })
      (SimpleSentence.ending
        { subject, predicates, punctuation := mark, conjunction, vocatives, tagQuestion, mood, placeholder := true })
      (Particle.o.word :: after) := by
  obtain ⟨-, hends⟩ := takeTag_eq htag
  obtain ⟨rfl, rfl, rfl, rfl, told, rfl, rfl⟩ := take_told hafter hconj htag hmood
  have hla' : Particle.la.word ∉ Particle.o.word :: told := fun hmem ↦ hla (List.mem_append_right _ hmem)
  have hflat := flatten_splitBefore isGovernor (Particle.o.word :: told)
  have htail := fun part hpart ↦ @mem_tail_part _ part hla' hpart
  have hparts : ∀ part ∈ splitBefore isGovernor (Particle.o.word :: told), part.IsChain (MayFollow g.dialect) := by
    intro part hpart
    rw [← List.cons_append, ← hflat] at hchain
    exact hchain.infix ((List.infix_of_mem_flatten hpart).trans (List.prefix_append _ _).isInfix)
  obtain ⟨c, -, ⟨-, heq⟩ | ⟨predicates', hpredicates, heq⟩⟩ := hbody.of_told
  · simp at heq
  · obtain ⟨rfl, rfl⟩ := Body.predication.inj heq
    have hsaves := saves_predicates hpredicates hparts htail
    rw [hflat] at hsaves
    refine (hsaves.and_eq.append_right (if tagQuestion then tag else [])).imp
      (fun _ ⟨⟨hp, _⟩, heq⟩ hcalls ↦ ⟨by simp, hcalls, by simp [SimpleSentence.writtenSubject], hp, ?_, nofun⟩)
    rintro hnone ⟨init, hinit⟩
    dsimp only at hnone
    refine hends hnone ⟨placeholderSubject ++ init, by simp [placeholderSubject], ?_⟩
    rw [List.append_assoc, hinit, hnone, ← List.cons_append, ← heq]
    simp [SimpleSentence.body, SimpleSentence.writtenSubject]

theorem saves_core (hconj : takeConjunction words = (conjunction, unjoined))
    (htag : takeTag unjoined = (tagQuestion, untagged)) (hmood : takeMood .declarative untagged = (mood, core))
    (h : Saves P out core) :
    Saves (P ∧ ¬ OpensWithConjunction out) out words := by
  obtain ⟨hp, rfl, hopens⟩ := takeConjunction_eq hconj
  obtain ⟨rfl, -⟩ := takeTag_eq htag
  have hle := h.le
  have hcore : heftOf core ≤ heftOf untagged := by
    rw [takeMood_eq hmood, heftOf_append]
    omega
  -- a conjunction or a tag that came off weighs something and is not written
  cases conjunction with
  | some p =>
    have hpos : 0 < heft p.word := heft_pos fun heq ↦ by
      obtain rfl : p = .li := Particle.word_inj.1 heq
      simpa [Particle.isConjunction] using hp .li rfl
    refine .inr ?_
    simp only [Option.toList_some, List.map_singleton, List.singleton_append, heftOf_cons, heftOf_append]
    omega
  | none =>
    cases tagQuestion with
    | true =>
      have hpos : 0 < heftOf tag := by decide
      refine .inr ?_
      simp only [Option.toList_none, List.map_nil, List.nil_append, ↓reduceIte, heftOf_append]
      omega
    | false =>
      have hopens := hopens rfl
      simp only [Option.toList_none, List.map_nil, List.nil_append, Bool.false_eq_true, ↓reduceIte, List.append_nil]
        at hopens ⊢
      rw [takeMood_eq hmood] at hopens ⊢
      split
      · have hpos : 0 < heft Particle.o.word := heft_pos (by decide)
        refine .inr ?_
        simp only [List.singleton_append, heftOf_cons]
        omega
      case isFalse hmood' =>
        rw [if_neg hmood', List.nil_append] at hopens
        rw [List.nil_append]
        exact h.imp (fun heq hP ↦ ⟨hP, heq ▸ hopens⟩)

end

theorem heftOf_calls_pos {runs : List (List String)} (hne : runs ≠ []) :
    0 < heftOf (runs.flatMap (· ++ [Particle.o.word])) := by
  obtain ⟨run, runs, rfl⟩ := List.exists_cons_of_ne_nil hne
  have ho : 0 < heft Particle.o.word := heft_pos (by decide)
  simp only [List.flatMap_cons, heftOf_append, heftOf_cons]
  omega

theorem flatMap_splitDropping_o (words : List String) :
    (splitDropping isO words).flatMap (· ++ [Particle.o.word]) = words ++ [Particle.o.word] := by
  have hjoin := intercalate_eq_flatMap Particle.o.word (splitDropping isO words) []
  rw [List.append_nil] at hjoin
  rw [← hjoin, intercalate_concat _ (splitDropping_ne_nil isO words), intercalate_splitDropping eq_of_isO]

theorem saves_bare {lex : Lexicon} {core : List String} {b : Body} (h : ReadsBody lex (splitBefore isGovernor core) b)
    (hb : ∀ subject predicates, b ≠ .predication subject predicates) :
    Saves (∀ c, b = .call c → c.KeepsEn) b.spelling core := by
  have hflat := flatten_splitBefore isGovernor core
  generalize splitBefore isGovernor core = parts at h hflat
  rw [← hflat]
  cases h with
  | exclamation h => exact .of_eq nofun (by simp [Body.spelling, (spelling_exclamation h).1])
  | @call addressee c hc =>
    have hsaves := (saves_coordination hc).append_right [Particle.o.word]
    simp only [Body.spelling, List.flatten_cons, List.flatten_nil, List.append_nil]
    exact hsaves.imp (fun _ hen d hd ↦ Body.call.inj hd ▸ hen)
  | command => exact absurd rfl (hb _ _)
  | statement => exact absurd rfl (hb _ _)

theorem heftOf_told_lt {lex : Lexicon} {after unjoined untagged core : List String} {conjunction : Option Particle}
    {tagQuestion : Bool} {mood : Mood} {b : Body} (hafter : after ≠ [])
    (hconj : takeConjunction (placeholderSubject ++ Particle.o.word :: after) = (conjunction, unjoined))
    (htag : takeTag unjoined = (tagQuestion, untagged)) (hmood : takeMood .imperative untagged = (mood, core))
    (hbody : ReadsBody lex (splitBefore isGovernor core) b) (hb : ∀ subject predicates, b ≠ .predication subject predicates) :
    heftOf b.spelling < heftOf (Particle.o.word :: Particle.o.word :: after) := by
  obtain ⟨rfl, -, rfl, rfl, told, rfl, rfl⟩ := take_told hafter hconj htag hmood
  obtain ⟨c, hc, ⟨rfl, rfl⟩ | ⟨predicates, -, heq⟩⟩ := hbody.of_told
  · have htagged : tagQuestion = true := by
      by_contra hfalse
      exact hafter (by simp [hfalse])
    have hle := (saves_coordination hc).le
    have hlt : heftOf placeholderSubject < heft Particle.o.word + heftOf tag := by decide
    simp only [Body.spelling, htagged, ↓reduceIte, List.nil_append, heftOf_append, heftOf_cons, heftOf_nil]
    omega
  · exact absurd heq (hb _ _)

theorem Saves.passOver (h : Saves P out words) (lost : List (List String)) :
    Saves P out (lost.flatMap (· ++ [Particle.o.word]) ++ words) := by
  rcases eq_or_ne lost [] with rfl | hne
  · simpa using h
  · have hpos := heftOf_calls_pos hne
    have hle := h.le
    refine .inr ?_
    rw [heftOf_append]
    omega

theorem heftOf_afterLastO_lt (h : hasInnerO words = true) : heftOf (afterLastO words) < heftOf words := by
  have heq := words_eq_calls words
  have hne : callRuns words ++ passedOver words ≠ [] := by
    intro hnil
    obtain ⟨hcalls, hover⟩ := List.append_eq_nil_iff.1 hnil
    have hwords : words = afterLastO words := by simpa [hcalls, hover] using heq
    have hfalse : hasInnerO words = false := by
      refine hasInnerO_eq_false (fun hmem ↦ o_notMem_afterLastO words ?_)
      rw [← hwords]
      exact List.mem_of_mem_tail hmem
    simp [hfalse] at h
  have hpos := heftOf_calls_pos hne
  rw [List.flatMap_append, heftOf_append] at hpos
  have hsum := congrArg heftOf heq
  simp only [heftOf_append] at hsum
  omega

/-- A clause that is spelled with the words it was read from can be read again. -/
theorem saves_clause {g : Grammar} {mark : Option Punctuation} {s : Sentence}
    (h : (clause g.lexicon words mark : Except ParseError Sentence) = .ok s) (hchain : words.IsChain (MayFollow g.dialect))
    (hhead : words.head? ≠ some Particle.li.word) : Saves (s.IsRereadable g) s.spelling words := by
  rcases clause_eq_ok.1 h with ⟨c, hopened, rfl⟩ | ⟨rest, hopened, hread⟩
  · cases hopened with
    | call before _ hsplit hne hcalls =>
      have hle := (saves_addressees hcalls).le
      have ho : 0 < heft Particle.o.word := heft_pos (by decide)
      rw [flatMap_splitDropping_o, List.flatMap_singleton, heftOf_append] at hle
      refine .inr ?_
      rw [eq_of_splitDoubleO hsplit, Sentence.spelling]
      simp only [heftOf_append, heftOf_cons] at hle ⊢
      omega
  · obtain ⟨hconj, htag, hmood, -, hla, -, hbody⟩ := hread
    rename_i conjunction tagQuestion mood unjoined untagged core b
    by_cases hb : ∀ subject predicates, b ≠ .predication subject predicates
    · -- A call or an exclamation keeps nothing of the calls in front of it, so only the plain clause is saved.
      rw [b.spelling_sentence hb]
      cases hopened with
      | command before after vocatives hsplit hbefore hafter hcalls =>
        have hlt := heftOf_told_lt hafter hconj htag hmood hbody hb
        refine .inr ?_
        rw [eq_of_splitDoubleO hsplit, heftOf_append]
        omega
      | calls vocatives _ ho _ _ _ =>
        have hle := (saves_core hconj htag hmood (saves_bare hbody hb)).le
        exact .inr (Nat.lt_of_le_of_lt hle (heftOf_afterLastO_lt ho))
      | plain _ hinner =>
        refine (saves_core hconj htag hmood (saves_bare hbody hb)).imp (fun heq hboth ↦ ?_)
        obtain ⟨hen, hopens⟩ := hboth
        cases b with
        | exclamation phrase => exact ⟨hopens, by rwa [show phrase.spelling = words from heq]⟩
        | call c => exact ⟨hen c rfl, hopens⟩
        | predication subject predicates => exact absurd rfl (hb subject predicates)
    · obtain ⟨subject, predicates, rfl⟩ : ∃ subject predicates, b = .predication subject predicates := by
        simpa using hb
      rw [Body.sentence, Sentence.spelling, SimpleSentence.spelling_eq, List.flatMap_nil, List.nil_append]
      cases hopened with
      | command before after vocatives hsplit hbefore hafter hcalls =>
        have hwords : words = before ++ [Particle.o.word] ++ Particle.o.word :: after := by
          simp [eq_of_splitDoubleO hsplit]
        have htold := saves_told vocatives mark hafter hconj htag hmood hla (hchain.suffix ⟨_, hwords.symm⟩) hbody
        have hsaves := (saves_addressees hcalls).append htold
        rw [flatMap_splitDropping_o, ← hwords] at hsaves
        exact hsaves.imp (fun _ hboth ↦ hboth.2 hboth.1)
      | calls vocatives _ ho _ hcalls _ =>
        have hwords := words_eq_calls words
        rw [← List.append_assoc] at hwords
        have hending := saves_ending vocatives mark hconj htag hmood hla (hchain.suffix ⟨_, hwords.symm⟩) hbody
        have hsaves := (saves_addressees hcalls).append (hending.passOver (passedOver words))
        rw [← List.append_assoc, ← hwords] at hsaves
        exact hsaves.imp (fun _ hboth ↦ hboth.2 hboth.1)
      | plain _ hinner =>
        have hending := saves_ending [] mark hconj htag hmood hla hchain hbody
        exact hending.imp (fun _ hrest ↦ hrest (by simp))

theorem simple_of_spelling_eq {g : Grammar} {mark : Option Punctuation} {p : Sentence} (hli : Particle.li.word ∈ words)
    (hhead : words.head? ≠ some Particle.li.word)
    (h : (clause g.lexicon words mark : Except ParseError Sentence) = .ok p) (heq : p.spelling = words) :
    ∃ simple, p = .simple simple := by
  rw [← heq] at hli hhead
  cases isRead_of_clause h with
  | @simple s hread => exact ⟨s, rfl⟩
  | @vocative run c mark hread =>
    rw [Sentence.spelling, List.mem_append, spelling_coordination hread] at hli
    rcases hli with hli | hli
    · exact absurd rfl (notMem_of_coordination hread _ (mem_of_mem_tidy hli)).1
    · simp [Particle.word] at hli
  | @exclamation run phrase mark hphrase hla =>
    rw [Sentence.spelling, (spelling_exclamation hphrase).1] at hli hhead
    obtain ⟨w, rest, rfl, -, hrest, -⟩ := exclamation_eq_some.1 hphrase
    rcases List.mem_cons.1 hli with rfl | hmem
    · exact absurd rfl hhead
    · rcases hrest _ hmem with heq | heq <;> simp [Particle.word] at heq

structure IsRun (g : Grammar) (run : List String) : Prop where
  isChain : run.IsChain (MayFollow g.dialect)
  head : run.head? ≠ some Particle.li.word
  implied : Particle.li.word ∉ run → withImpliedLi g.lexicon run = run

theorem saves_clauses {g : Grammar} {mark : Punctuation} {runs : List (List String)} {preconditions : List Sentence}
    {s : Sentence} (h : ReadsClauses g.lexicon mark runs preconditions s) (hruns : ∀ run ∈ runs, IsRun g run)
    (hleads : ∀ run ∈ runs.tail, Leads run) :
    Saves ((∀ p ∈ preconditions, ∃ simple, p = .simple simple ∧ simple.IsRereadable g) ∧ s.IsRereadable g ∧
        (preconditions ≠ [] → Leads s.spelling))
      (assembled preconditions s).spelling ([Particle.la.word].intercalate runs) := by
  simp only [spelling_assembled, Sentence.preconditionSpellings_eq]
  induction h with
  | @conclusion words s h =>
    have hrun := hruns words (by simp)
    simpa using saves_clause h hrun.isChain hrun.head
  | @condition words rest p s preconditions hli h hrest ih =>
    have hrun := hruns words (by simp)
    have ih' := ih (fun run hrun ↦ hruns run (by simp [hrun])) (fun run hrun ↦ hleads run (List.mem_of_mem_tail hrun))
    have hsaves := (saves_clause h hrun.isChain hrun.head).and_eq
    rw [List.intercalate_cons_of_ne_nil hrest.ne_nil, List.flatMap_cons, List.append_assoc]
    refine ((hsaves.append_right _).append ih'.and_eq).imp (fun _ h' ↦ ?_)
    obtain ⟨⟨hp, heq⟩, ⟨hpre, hs, hlead⟩, hwords⟩ := h'
    obtain ⟨simple, rfl⟩ := simple_of_spelling_eq hli hrun.head h heq
    refine ⟨List.forall_mem_cons.2 ⟨⟨simple, rfl, hp⟩, hpre⟩, hs, fun _ ↦ ?_⟩
    -- Only the last precondition has the conclusion right behind its `la`.
    rcases eq_or_ne preconditions [] with rfl | hne
    · rw [List.flatMap_nil, List.nil_append] at hwords
      rw [hwords]
      obtain ⟨run, others, rfl⟩ := List.exists_cons_of_ne_nil hrest.ne_nil
      have hlead := hleads run (by simp)
      rwa [leads_iff, head?_intercalate _ hlead.ne_nil, ← leads_iff]
    · exact hlead hne
  | @contextOfCondition words rest p s preconditions c hne hli h hrest ih =>
    have ih' := ih (fun run hrun ↦ hruns run (by simp [hrun])) (fun run hrun ↦ hleads run (List.mem_of_mem_tail hrun))
    have hsaves := (saves_context h ((hruns words (by simp)).implied hli)).append_right [Particle.la.word]
    have hspelling : (Sentence.simple { p with contexts := c :: p.contexts } :: preconditions).flatMap
        (·.spelling ++ [Particle.la.word]) ++ s.spelling = c.spelling ++ [Particle.la.word] ++
          ((Sentence.simple p :: preconditions).flatMap (·.spelling ++ [Particle.la.word]) ++ s.spelling) := by
      simp [Sentence.spelling, SimpleSentence.spelling_context]
    rw [List.intercalate_cons_of_ne_nil hrest.ne_nil, hspelling]
    refine (hsaves.append ih').imp (fun _ hall ↦ ?_)
    obtain ⟨hc, hpre, hs, hlead⟩ := hall
    obtain ⟨⟨simple, heq, hp⟩, hothers⟩ := List.forall_mem_cons.1 hpre
    obtain rfl := Sentence.simple.inj heq
    exact ⟨List.forall_mem_cons.2 ⟨⟨_, rfl, isRereadable_context.2 ⟨hc, hp⟩⟩, hothers⟩, hs, fun _ ↦ hlead (by simp)⟩
  | @contextOfConclusion words rest s c hne hli h hrest ih =>
    have ih' := ih (fun run hrun ↦ hruns run (by simp [hrun])) (fun run hrun ↦ hleads run (List.mem_of_mem_tail hrun))
    have hsaves := (saves_context h ((hruns words (by simp)).implied hli)).append_right [Particle.la.word]
    have hspelling : (Sentence.simple { s with contexts := c :: s.contexts }).spelling =
        c.spelling ++ [Particle.la.word] ++ (Sentence.simple s).spelling := by
      simp [Sentence.spelling, SimpleSentence.spelling_context]
    rw [List.intercalate_cons_of_ne_nil hrest.ne_nil, hspelling]
    refine (hsaves.append ih').imp (fun _ hall ↦ ?_)
    obtain ⟨hc, -, hs, -⟩ := hall
    exact ⟨by simp, isRereadable_context.2 ⟨hc, hs⟩, by simp⟩

theorem isRun_withImpliedLi {g : Grammar} (hchain : words.IsChain (MayFollow g.dialect))
    (hhead : words.head? ≠ some Particle.li.word) : IsRun g (withImpliedLi g.lexicon words) := by
  refine ⟨?_, by rwa [head?_withImpliedLi], fun hli ↦ ?_⟩
  · rcases withImpliedLi_cases g.lexicon words with heq | ⟨front, pronoun, next, rest, hwords, heq, hpronoun, hnext⟩
    · rwa [heq]
    · rw [hwords, List.isChain_append, List.isChain_cons_cons] at hchain
      obtain ⟨hfront, ⟨-, hrest⟩, hmeet⟩ := hchain
      rw [heq]
      exact List.isChain_append.2 ⟨hfront, .cons_cons (.of_quiet hpronoun) (.cons_cons (fun hs ↦ absurd hs hnext) hrest), hmeet⟩
  · rcases withImpliedLi_cases g.lexicon words with heq | ⟨front, pronoun, next, rest, -, heq, -, -⟩
    · rw [heq, heq]
    · rw [heq] at hli
      simp at hli

/-- Words with a `li` here and there that was left out. -/
structure Padded (out words : List String) : Prop where
  sublist : words.Sublist out
  heft : heftOf out = heftOf words

theorem Padded.append (h : Padded out words) (h' : Padded out' words') : Padded (out ++ out') (words ++ words') :=
  ⟨h.sublist.append h'.sublist, by simp [h.heft, h'.heft]⟩

theorem padded_withImpliedLi (lex : Lexicon) (words : List String) : Padded (withImpliedLi lex words) words := by
  rcases withImpliedLi_cases lex words with heq | ⟨front, pronoun, next, rest, hwords, heq, -, -⟩
  · rw [heq]
    exact ⟨.refl _, rfl⟩
  · rw [heq, hwords]
    refine ⟨(List.Sublist.refl front).append ((List.sublist_cons_self _ _).cons_cons pronoun), ?_⟩
    have hli : heft Particle.li.word = 0 := by decide
    simp [hli]

theorem padded_intercalate (lex : Lexicon) (s : String) (runs : List (List String)) :
    Padded ([s].intercalate (runs.map (withImpliedLi lex))) ([s].intercalate runs) := by
  induction runs with
  | nil => exact ⟨.refl _, rfl⟩
  | cons run runs ih =>
    rcases eq_or_ne runs [] with rfl | hne
    · simpa using padded_withImpliedLi lex run
    · rw [List.map_cons, List.intercalate_cons_of_ne_nil (by simpa using hne), List.intercalate_cons_of_ne_nil hne]
      exact ((padded_withImpliedLi lex run).append ⟨.refl [s], rfl⟩).append ih

theorem leads_of_isChain {dialect : Dialect} {runs : List (List String)} (hne : ∀ run ∈ runs, run ≠ [])
    (h : ([Particle.la.word].intercalate runs).IsChain (MayFollow dialect)) : ∀ run ∈ runs.tail, Leads run := by
  induction runs with
  | nil => simp
  | cons first runs ih =>
    cases runs with
    | nil => simp
    | cons second runs =>
      rw [List.intercalate_cons_of_ne_nil (by simp), List.append_assoc, List.singleton_append] at h
      have hrest := h.suffix (List.suffix_append _ _)
      obtain ⟨w, second, rfl⟩ := List.exists_cons_of_ne_nil (hne second (by simp))
      intro run hrun
      rcases List.mem_cons.1 hrun with rfl | hrun
      · refine ⟨w, second, rfl, fun hs ↦ ?_⟩
        rw [List.intercalate_cons_cons_left, List.isChain_cons_cons] at hrest
        rcases hrest.1 hs with hquiet | ⟨hla, -, -⟩
        · exact hquiet.1 ⟨.la, rfl, rfl⟩
        · exact absurd hla (by decide)
      · exact ih (fun q hq ↦ hne q (by simp [hq])) hrest.tail run hrun

theorem head?_runs {runs : List (List String)} (hne : ∀ run ∈ runs, run ≠ []) (hleads : ∀ run ∈ runs.tail, Leads run)
    (hhead : ([Particle.la.word].intercalate runs).head? ≠ some Particle.li.word) :
    ∀ run ∈ runs, run.head? ≠ some Particle.li.word := by
  cases runs with
  | nil => simp
  | cons first runs =>
    rw [head?_intercalate _ (hne first (by simp))] at hhead
    refine List.forall_mem_cons.2 ⟨hhead, fun run hrun hli ↦ ?_⟩
    obtain ⟨w, hw, hquiet⟩ := leads_iff.1 (hleads run hrun)
    obtain rfl : w = Particle.li.word := Option.some.inj (hw.symm.trans hli)
    exact hquiet ⟨.li, rfl, rfl⟩

/-- A sentence that weighs as much as the words it was read from, and has as many, is spelled with them in their order. -/
theorem isRereadable_of_heftOf_eq {g : Grammar} {mark : Punctuation} {shown : String} {s : Sentence} (hne : words ≠ [])
    (hchain : words.IsChain (MayFollow g.dialect))
    (hhead : ∀ w ∈ words.head?, w ≠ Particle.li.word ∧ w ≠ Particle.la.word)
    (h : (sentence g.lexicon words mark shown : Except ParseError Sentence) = .ok s)
    (hheft : heftOf s.spelling = heftOf words) (hlength : s.spelling.length = words.length) :
    s.IsRereadable g ∧ s.spelling = words := by
  rcases (sentence_eq_ok hne).1 h with ⟨first, c, rfl, hc, rfl⟩ | ⟨preconditions, conclusion, hread, rfl⟩
  · exact ((saves_coordination hc).append_right _).of_heftOf_eq hheft
  · have hstrip : stripLeading isLa words = words := by
      obtain ⟨w, rest, rfl⟩ := List.exists_cons_of_ne_nil hne
      have hw : isLa w = false := isLa_eq_false.2 (hhead w (by simp)).2
      simp [stripLeading, hw]
    have hwords : [Particle.la.word].intercalate (laRuns words) = words := by
      rw [laRuns, hstrip, intercalate_splitDropping eq_of_isLa]
    -- The clauses are read with their `li`s written, which add to the words but nothing to what they weigh.
    have hpadded := padded_intercalate g.lexicon Particle.la.word (laRuns words)
    rw [hwords] at hpadded
    have hruns : ∀ run ∈ laRuns words, run ≠ [] := by
      intro run hrun
      have hread := hread.run_ne_nil _ (List.mem_map_of_mem hrun)
      rintro rfl
      exact hread withImpliedLi_nil
    have hleads : ∀ run ∈ (laRuns words).tail, Leads run := leads_of_isChain hruns (hwords ▸ hchain)
    have hheads := head?_runs hruns hleads (by rw [hwords]; exact fun hli ↦ (hhead _ hli).1 rfl)
    have hsaves := saves_clauses hread (fun run hrun ↦ ?_) (fun run hrun ↦ ?_)
    · obtain ⟨⟨hpre, hs, hlead⟩, heq⟩ := hsaves.of_heftOf_eq (hheft.trans hpadded.heft.symm)
      have hsame := hpadded.sublist.eq_of_length (by rw [← heq, hlength])
      refine ⟨?_, heq.trans hsame.symm⟩
      unfold assembled
      split
      · exact hs
      case isFalse hne => exact ⟨hpre, hs, hlead (by simpa using hne)⟩
    · obtain ⟨run, hmem, rfl⟩ := List.mem_map.1 hrun
      rw [← hwords] at hchain
      have hrun := hchain.infix (infix_intercalate hmem)
      exact isRun_withImpliedLi hrun (hheads run hmem)
    · rw [← List.map_tail] at hrun
      obtain ⟨run, hmem, rfl⟩ := List.mem_map.1 hrun
      rw [leads_iff, head?_withImpliedLi, ← leads_iff]
      exact hleads run hmem

end TokiPona.Reading
