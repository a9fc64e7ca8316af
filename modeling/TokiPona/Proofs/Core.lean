import TokiPona.Dictionary.Standard
import TokiPona.Proofs.Acceptance
import TokiPona.Proofs.Assembly
import TokiPona.Proofs.Shape

namespace TokiPona

namespace Core

/-- A word of content: no particle, and without the mark of a preposition. -/
structure IsWord (w : String) : Prop where
  solid : Word.IsSolid w
  particle : Particle.ofWord? w = none
  unmarked : w.toList.head? ≠ some '~'

instance (w : String) : Decidable (IsWord w) :=
  decidable_of_iff (Word.IsSolid w ∧ Particle.ofWord? w = none ∧ w.toList.head? ≠ some '~')
    ⟨fun ⟨hs, hp, hu⟩ ↦ ⟨hs, hp, hu⟩, fun ⟨hs, hp, hu⟩ ↦ ⟨hs, hp, hu⟩⟩

def IsPreposition (w : String) : Prop := ∃ body, Word.IsSolid body ∧ w = "~" ++ body

/-- `jan pona` -/
def IsRun (words : List String) : Prop := words ≠ [] ∧ ∀ w ∈ words, IsWord w

def AreRuns (runs : List (List String)) : Prop := runs ≠ [] ∧ ∀ run ∈ runs, IsRun run

def IsGroup (words : List String) : Prop := ∃ runs, AreRuns runs ∧ words = [Particle.pi.word].intercalate runs

/-- Groups joined by `en`. A group that stands alone ends in more than one word, if a `pi` comes before them. -/
def IsChain (words : List String) : Prop :=
  ∃ groups : List (List (List String)), groups ≠ [] ∧ (∀ runs ∈ groups, AreRuns runs) ∧
    (∀ runs, groups = [runs] → 2 ≤ runs.length → ∀ last ∈ runs.getLast?, 2 ≤ last.length) ∧
    words = [Particle.en.word].intercalate (groups.map [Particle.pi.word].intercalate)

/-- A preposition, and what it governs, if anything. -/
def IsPiece (words : List String) : Prop :=
  ∃ preposition governed, IsPreposition preposition ∧ (governed = [] ∨ IsChain governed) ∧
    words = preposition :: governed

/-- `li moku e kili e telo ~kepeken ilo` -/
inductive IsPredicate : List String → Prop
  | intro {verb : List String} {objects pieces : List (List String)} (hverb : IsGroup verb)
      (hobjects : ∀ object ∈ objects, IsGroup object) (hpieces : ∀ piece ∈ pieces, IsPiece piece) :
      IsPredicate
        (Particle.li.word :: (verb ++ objects.flatMap (Particle.e.word :: ·) ++ pieces.flatten))

/-- `taso jan li moku li pali anu seme` -/
inductive IsClause : List String → Prop
  | intro {conjunction : Option Particle} {subject : List String} {predicates : List (List String)}
      (tagQuestion : Bool) (hconjunction : ∀ p ∈ conjunction, p.isConjunction = true) (hsubject : IsChain subject)
      (hne : predicates ≠ []) (hpredicates : ∀ predicate ∈ predicates, IsPredicate predicate) :
      IsClause (conjunction.toList.map Particle.word ++
        (subject ++ predicates.flatten ++ if tagQuestion then [Particle.anu.word, "seme"] else []))

/-- A clause, or a chain that could not be a clause with its `li` left out. -/
def IsContext (words : List String) : Prop :=
  IsClause words ∨ (IsChain words ∧ words.head? ≠ some "mi" ∧ words.head? ≠ some "sina")

def IsSentence (words : List String) : Prop :=
  ∃ (contexts : List (List String)) (clause : List String), (∀ context ∈ contexts, IsContext context) ∧ IsClause clause ∧
    words = contexts.flatMap (· ++ [Particle.la.word]) ++ clause

/-- The words of a sentence with one space between neighbours, and a mark directly after the last. -/
def IsText (text : String) : Prop := ∃ words mark, IsSentence words ∧ text = Sentence.marked words (some mark)

open Reading

variable {lex : Lexicon} {words : List String}

theorem IsWord.ne_word {w : String} (h : IsWord w) (p : Particle) : w ≠ p.word := by
  rintro rfl
  simpa using h.particle

theorem IsWord.isPhraseWord {w : String} (h : IsWord w) : IsPhraseWord w := fun p _ ↦ h.ne_word p

theorem IsWord.isPreposition {w : String} (h : IsWord w) : Word.isPreposition w = false := by
  unfold Word.isPreposition
  split
  case _ c cs heq => exact absurd (by simp [heq]) h.unmarked
  · rfl

theorem IsPreposition.isPreposition {w : String} (h : IsPreposition w) : Word.isPreposition w = true := by
  obtain ⟨body, ⟨hne, -⟩, rfl⟩ := h
  obtain ⟨c, cs, hcs⟩ := List.exists_cons_of_ne_nil hne
  simp [Word.isPreposition, hcs]

theorem IsPreposition.isSolid {w : String} (h : IsPreposition w) : Word.IsSolid w := by
  obtain ⟨body, ⟨hne, hall⟩, rfl⟩ := h
  refine ⟨by simp, fun c hc ↦ ?_⟩
  rw [String.toList_append, List.mem_append] at hc
  rcases hc with hc | hc
  · obtain rfl : c = '~' := by simpa using hc
    decide
  · exact hall c hc

theorem IsRun.phrase (h : IsRun words) (lex : Lexicon) : ∃ p, (phrase lex words : Except ParseError Phrase) = .ok p :=
  exists_phrase_of_plain lex h.1 (fun w hw ↦ (h.2 w hw).isPreposition) (fun w hw ↦ (h.2 w hw).isPhraseWord)

theorem IsRun.isHeaded (h : IsRun words) : IsHeaded words := by
  obtain ⟨hne, hwords⟩ := h
  obtain ⟨w, rest, rfl⟩ := List.exists_cons_of_ne_nil hne
  exact ⟨w, rfl, (hwords w (by simp)).isPreposition⟩

theorem IsRun.notMem (h : IsRun words) (p : Particle) : p.word ∉ words := fun hmem ↦ (h.2 _ hmem).ne_word p rfl

theorem IsRun.isPi (h : IsRun words) : ∀ w ∈ words, isPi w = false := by
  intro w hw
  simpa [Reading.isPi] using (h.2 w hw).ne_word .pi

theorem AreRuns.splitDropping {runs : List (List String)} (h : AreRuns runs) :
    splitDropping isPi ([Particle.pi.word].intercalate runs) = runs :=
  splitDropping_intercalate isPi_word h.1 (fun run hrun ↦ (h.2 run hrun).isPi)

theorem AreRuns.isGroup {runs : List (List String)} (h : AreRuns runs) : IsGroup ([Particle.pi.word].intercalate runs) :=
  ⟨runs, h, rfl⟩

theorem AreRuns.chain {runs : List (List String)} (h : AreRuns runs) :
    ∃ c, (chain lex ([Particle.pi.word].intercalate runs) : Except ParseError Chain) = .ok c := by
  obtain ⟨phrases, hphrases⟩ := exists_forall₂ (fun run hrun ↦ (h.2 run hrun).phrase lex)
  refine ⟨_, piChain_eq_ok.2 ⟨intercalate_ne_nil _ h.1 (fun run hrun ↦ (h.2 run hrun).1), fun hmem ↦ ?_, phrases, ?_, rfl⟩⟩
  · rcases mem_of_mem_intercalate hmem with hpi | ⟨run, hrun, hmem⟩
    · exact absurd hpi (by decide)
    · exact (h.2 run hrun).notMem .la hmem
  · rwa [h.splitDropping]

theorem IsGroup.mem (h : IsGroup words) : ∀ w ∈ words, w = Particle.pi.word ∨ IsWord w := by
  obtain ⟨runs, hruns, rfl⟩ := h
  intro w hw
  exact (mem_of_mem_intercalate hw).imp_right (fun ⟨run, hrun, hmem⟩ ↦ (hruns.2 run hrun).2 w hmem)

theorem IsGroup.ne_nil (h : IsGroup words) : words ≠ [] := by
  obtain ⟨runs, hruns, rfl⟩ := h
  exact intercalate_ne_nil _ hruns.1 (fun run hrun ↦ (hruns.2 run hrun).1)

theorem IsGroup.isEn (h : IsGroup words) : ∀ w ∈ words, isEn w = false := by
  intro w hw
  rcases h.mem w hw with rfl | hword
  · decide
  · simpa [Reading.isEn] using hword.ne_word .en

theorem IsRun.isGroup (h : IsRun words) : IsGroup words := ⟨[words], ⟨by simp, by simpa using h⟩, by simp⟩

theorem IsGroup.chain (h : IsGroup words) (lex : Lexicon) : ∃ c, (chain lex words : Except ParseError Chain) = .ok c := by
  obtain ⟨runs, hruns, rfl⟩ := h
  exact hruns.chain

section

variable {groups : List (List (List String))} (hne : groups ≠ []) (hgroups : ∀ runs ∈ groups, AreRuns runs)

include hne hgroups

theorem splitDropping_groups :
    splitDropping isEn ([Particle.en.word].intercalate (groups.map [Particle.pi.word].intercalate)) =
      groups.map [Particle.pi.word].intercalate := by
  apply splitDropping_intercalate isEn_word (by simpa using hne)
  intro piece hpiece
  obtain ⟨runs, hruns, rfl⟩ := List.mem_map.1 hpiece
  exact (hgroups runs hruns).isGroup.isEn

theorem filter_groups :
    (splitDropping isEn ([Particle.en.word].intercalate (groups.map [Particle.pi.word].intercalate))).filter (!·.isEmpty) =
      groups.map [Particle.pi.word].intercalate := by
  rw [splitDropping_groups hne hgroups, List.filter_eq_self]
  intro piece hpiece
  obtain ⟨runs, hruns, rfl⟩ := List.mem_map.1 hpiece
  simpa using (hgroups runs hruns).isGroup.ne_nil

theorem tidy_groups :
    tidy ([Particle.en.word].intercalate (groups.map [Particle.pi.word].intercalate)) =
      [Particle.en.word].intercalate (groups.map [Particle.pi.word].intercalate) := by
  rw [tidy, filter_groups hne hgroups]

end

theorem IsChain.mem (h : IsChain words) : ∀ w ∈ words, w = Particle.en.word ∨ w = Particle.pi.word ∨ IsWord w := by
  obtain ⟨groups, -, hgroups, -, rfl⟩ := h
  intro w hw
  refine (mem_of_mem_intercalate hw).imp_right (fun ⟨piece, hpiece, hmem⟩ ↦ ?_)
  obtain ⟨runs, hruns, rfl⟩ := List.mem_map.1 hpiece
  exact (hgroups runs hruns).isGroup.mem w hmem

theorem IsChain.notMem (h : IsChain words) {p : Particle} (hp : p ≠ .en ∧ p ≠ .pi) : p.word ∉ words := by
  intro hmem
  rcases h.mem _ hmem with heq | heq | hword
  · exact hp.1 (Particle.word_inj.1 heq)
  · exact hp.2 (Particle.word_inj.1 heq)
  · exact hword.ne_word p rfl

theorem IsChain.ne_nil (h : IsChain words) : words ≠ [] := by
  obtain ⟨groups, hne, hgroups, -, rfl⟩ := h
  apply intercalate_ne_nil _ (by simpa using hne)
  intro piece hpiece
  obtain ⟨runs, hruns, rfl⟩ := List.mem_map.1 hpiece
  exact (hgroups runs hruns).isGroup.ne_nil

theorem mem_intercalate_of_length {s : String} {runs : List (List String)} (h : 2 ≤ runs.length) :
    s ∈ [s].intercalate runs := by
  match runs, h with
  | run :: run' :: runs, _ => simp [List.intercalate_cons_of_ne_nil]

theorem IsChain.isCoordination (h : IsChain words) : IsCoordination words := by
  obtain ⟨groups, hne, hgroups, hlast, hwords⟩ := id h
  have hpieces : coordinated words = groups.map [Particle.pi.word].intercalate := by
    rw [hwords, coordinated, filter_groups hne hgroups]
  refine ⟨?_, by simpa [hpieces] using hne, ?_, ?_⟩
  · simp only [List.forall_mem_cons]
    exact ⟨h.notMem (by decide), h.notMem (by decide), h.notMem (by decide), h.notMem (by decide), by simp⟩
  · rw [hpieces, List.forall_mem_map]
    intro runs hruns part hpart
    rw [(hgroups runs hruns).splitDropping] at hpart
    exact ((hgroups runs hruns).2 part hpart).isHeaded
  · rcases groups with _ | ⟨runs, _ | ⟨second, others⟩⟩
    · exact absurd rfl hne
    · have hruns := hgroups runs (by simp)
      rw [List.map_singleton, List.intercalate_singleton] at hwords
      rcases runs with _ | ⟨run, _ | ⟨run', others⟩⟩
      · exact absurd rfl hruns.1
      · refine .inr (.inl ?_)
        rw [hwords, List.intercalate_singleton]
        exact (hruns.2 run (by simp)).notMem .pi
      · have hend := List.getLast?_eq_some_getLast hruns.1
        refine .inr (.inr ⟨_, ?_, .inl (hlast _ rfl (by simp) _ hend)⟩)
        rw [hwords, hruns.splitDropping]
        exact hend
    · exact .inl (hwords ▸ mem_intercalate_of_length (by simp))

theorem IsChain.coordination (h : IsChain words) (lex : Lexicon) :
    ∃ c, (coordination lex words : Except ParseError Chain) = .ok c ∧ c.spelling = words := by
  obtain ⟨c, hc⟩ : ∃ c, (Reading.coordination lex words : Except ParseError Chain) = .ok c :=
    exists_coordination_iff.2 h.isCoordination
  obtain ⟨groups, hne, hgroups, -, hwords⟩ := h
  exact ⟨c, hc, by rw [spelling_coordination hc, hwords, tidy_groups hne hgroups]⟩

theorem IsPiece.reads {piece : List String} (h : IsPiece piece) (lex : Lexicon) :
    ∃ p, ReadsPrepPhrase lex piece p ∧ p.spelling = piece := by
  obtain ⟨w, governed, hw, hgoverned, rfl⟩ := h
  have hprep := hw.isPreposition
  rcases hgoverned with rfl | hchain
  · refine ⟨⟨Word.bare w, none⟩, ⟨w, [], rfl, hprep, by simp [NoPreposition], rfl, rfl⟩, ?_⟩
    rw [PrepPhrase.spelling, tilde_bare hprep]
  · obtain ⟨c, hc, hspelling⟩ := hchain.coordination lex
    have hplain : NoPreposition governed := by
      intro v hv
      rcases hchain.mem v hv with rfl | rfl | hword
      · exact isPreposition_word .en
      · exact isPreposition_word .pi
      · exact hword.isPreposition
    refine ⟨⟨Word.bare w, some c⟩, ⟨w, governed, rfl, hprep, hplain, rfl, ?_⟩, ?_⟩
    · exact (complement_eq_ok hplain).2 (.inr ⟨hchain.ne_nil, c, hc, rfl⟩)
    · rw [PrepPhrase.spelling, tilde_bare hprep, hspelling]

theorem exists_phrases {pieces : List (List String)} (h : ∀ piece ∈ pieces, IsPiece piece) (lex : Lexicon) :
    ∃ phrases, List.Forall₂ (ReadsPrepPhrase lex) pieces phrases ∧ phrases.map PrepPhrase.spelling = pieces := by
  obtain ⟨phrases, hphrases⟩ := exists_forall₂ (fun piece hpiece ↦ (h piece hpiece).reads lex)
  refine ⟨phrases, hphrases.imp (fun _ _ hp ↦ hp.1), ?_⟩
  rw [map_eq_map_of_forall₂ hphrases (fun _ _ _ hp ↦ hp.2), List.map_id']

theorem IsGroup.predicateKind (h : IsGroup words) (lex : Lexicon) :
    ∃ kind, (predicateKind lex words : Except ParseError (Option PredicateKind)) = .ok (some kind) := by
  obtain ⟨c, hc⟩ := h.chain lex
  obtain ⟨w, rest, rfl, hlead⟩ := (tame_chain hc {}).2
  have hw : Reading.isPi w = false := by
    simpa [Reading.isPi] using fun heq ↦ hlead ⟨.pi, rfl, heq⟩
  rw [Reading.predicateKind, if_neg (by simp [hw])]
  split
  · exact ⟨_, map_eq_ok.2 ⟨_, nominal_eq_ok.2 ⟨c, hc, rfl⟩, rfl⟩⟩
  · exact ⟨_, rfl⟩

theorem IsGroup.isE (h : IsGroup words) : ∀ w ∈ words, isE w = false := by
  intro w hw
  rcases h.mem w hw with rfl | hword
  · decide
  · exact isE_eq_false.2 (hword.ne_word .e)

theorem IsGroup.noPreposition (h : IsGroup words) : NoPreposition words := by
  intro w hw
  rcases h.mem w hw with rfl | hword
  · exact isPreposition_word .pi
  · exact hword.isPreposition

theorem IsPredicate.reads (h : IsPredicate words) (lex : Lexicon) :
    ∃ p, ReadsPredicate lex words p ∧ p.spelling = words ∧ p.particle = .li := by
  obtain ⟨hverb, hobjects, hpieces⟩ := h
  rename_i verb objects pieces
  obtain ⟨kind, hkind⟩ := hverb.predicateKind lex
  obtain ⟨phrases, hphrases, hspellings⟩ := exists_phrases hpieces lex
  rcases objects.eq_nil_or_concat' with rfl | ⟨init, last, rfl⟩
  · have hne : joined verb [] pieces ≠ [] := by simp [joined, hverb.ne_nil]
    refine ⟨_, .intransitive rfl hne hverb.isE hverb.noPreposition hkind (by simp) hphrases, ?_, rfl⟩
    rw [spelling_intransitive (spelling_predicateKind hkind), hspellings]
    rfl
  · obtain ⟨chains, hchains⟩ := exists_forall₂ (fun object hobject ↦ (hobjects object hobject).chain lex)
    have hcut : IsCut verb init last pieces := by
      have hlast := hobjects last (by simp)
      refine ⟨hlast.noPreposition, fun piece hpiece ↦ ?_, hverb.isE, fun object hobject ↦ ?_, hlast.isE, fun piece hpiece ↦ ?_⟩
      · obtain ⟨p, -, hp⟩ := forall₂_exists_of_mem hphrases hpiece
        exact hp.opens
      · exact (hobjects object (by simp [hobject])).isE
      · obtain ⟨p, -, hp⟩ := forall₂_exists_of_mem hphrases hpiece
        exact hp.isE
    refine ⟨_, .transitive rfl hcut hkind hchains hphrases, ?_, rfl⟩
    rw [spelling_transitive hkind hchains, hspellings]
    rfl

theorem IsPiece.mem {piece : List String} (h : IsPiece piece) :
    ∀ w ∈ piece, IsPreposition w ∨ w = Particle.en.word ∨ w = Particle.pi.word ∨ IsWord w := by
  obtain ⟨v, governed, hv, hgoverned, rfl⟩ := h
  intro w hw
  rcases List.mem_cons.1 hw with rfl | hw
  · exact .inl hv
  · rcases hgoverned with rfl | hchain
    · simp at hw
    · exact .inr (hchain.mem w hw)

theorem IsPredicate.mem_tail (h : IsPredicate words) : ∀ w ∈ words.tail,
    w = Particle.e.word ∨ IsPreposition w ∨ w = Particle.en.word ∨ w = Particle.pi.word ∨ IsWord w := by
  obtain ⟨hverb, hobjects, hpieces⟩ := h
  intro w hw
  simp only [List.tail_cons, List.mem_append, List.mem_flatMap, List.mem_cons, List.mem_flatten] at hw
  rcases hw with (hw | ⟨object, hobject, rfl | hw⟩) | ⟨piece, hpiece, hw⟩
  · exact .inr (.inr (.inr (hverb.mem w hw)))
  · exact .inl rfl
  · exact .inr (.inr (.inr ((hobjects object hobject).mem w hw)))
  · exact .inr ((hpieces piece hpiece).mem w hw)

theorem IsPreposition.ne_word {w : String} (h : IsPreposition w) (p : Particle) : w ≠ p.word := by
  rintro rfl
  simpa [isPreposition_word] using h.isPreposition

theorem IsPredicate.settled (h : IsPredicate words) (lex : Lexicon) :
    ∃ p : Predicate, p.IsSettled lex ∧ p.spelling = words ∧ p.particle = .li := by
  obtain ⟨p, hp, hspelling, hli⟩ := h.reads lex
  refine ⟨p, ⟨by rwa [hspelling], fun w hw ↦ ?_⟩, hspelling, hli⟩
  rw [hspelling] at hw
  rcases h.mem_tail w hw with rfl | hprep | rfl | rfl | hword
  · decide
  · exact ⟨hprep.ne_word .li, hprep.ne_word .la, hprep.ne_word .o⟩
  · decide
  · decide
  · exact ⟨hword.ne_word .li, hword.ne_word .la, hword.ne_word .o⟩

theorem head_intercalate {P : String → Prop} {s : String} {runs : List (List String)} (hne : runs ≠ [])
    (h : ∀ run ∈ runs, ∃ w rest, run = w :: rest ∧ P w) : ∃ w rest, [s].intercalate runs = w :: rest ∧ P w := by
  obtain ⟨run, runs, rfl⟩ := List.exists_cons_of_ne_nil hne
  obtain ⟨w, rest, rfl, hw⟩ := h run (by simp)
  cases runs with
  | nil => exact ⟨w, rest, by simp, hw⟩
  | cons run runs =>
    exact ⟨w, rest ++ [s] ++ [s].intercalate (run :: runs), by rw [List.intercalate_cons_of_ne_nil (by simp)]; rfl, hw⟩

theorem IsChain.head (h : IsChain words) : ∃ w rest, words = w :: rest ∧ IsWord w := by
  obtain ⟨groups, hne, hgroups, -, rfl⟩ := h
  apply head_intercalate (by simpa using hne)
  intro piece hpiece
  obtain ⟨runs, hruns, rfl⟩ := List.mem_map.1 hpiece
  apply head_intercalate (hgroups runs hruns).1
  intro run hrun
  obtain ⟨hrne, hwords⟩ := (hgroups runs hruns).2 run hrun
  obtain ⟨w, rest, rfl⟩ := List.exists_cons_of_ne_nil hrne
  exact ⟨w, rest, rfl, hwords w (by simp)⟩

theorem IsChain.isSolid (h : IsChain words) : Solid words := by
  intro w hw
  rcases h.mem w hw with rfl | rfl | hword
  · exact Particle.isSolid_word .en
  · exact Particle.isSolid_word .pi
  · exact hword.solid

theorem IsPredicate.isSolid (h : IsPredicate words) : Solid words := by
  intro w hw
  have htail := h.mem_tail
  obtain ⟨_, _, _⟩ := h
  rcases List.mem_cons.1 hw with rfl | hw
  · exact Particle.isSolid_word .li
  · rcases htail w hw with rfl | hprep | rfl | rfl | hword
    · exact Particle.isSolid_word .e
    · exact hprep.isSolid
    · exact Particle.isSolid_word .en
    · exact Particle.isSolid_word .pi
    · exact hword.solid

theorem IsPredicate.notMem (h : IsPredicate words) {p : Particle} (hp : p = .anu ∨ p = .la) : p.word ∉ words := by
  intro hmem
  have htail := h.mem_tail
  obtain ⟨_, _, _⟩ := h
  rcases List.mem_cons.1 hmem with heq | hmem
  · rcases hp with rfl | rfl <;> simp [Particle.word] at heq
  · rcases htail _ hmem with heq | hprep | heq | heq | hword
    · rcases hp with rfl | rfl <;> simp [Particle.word] at heq
    · exact hprep.ne_word p rfl
    · rcases hp with rfl | rfl <;> simp [Particle.word] at heq
    · rcases hp with rfl | rfl <;> simp [Particle.word] at heq
    · exact hword.ne_word p rfl

theorem IsPredicate.tame (h : IsPredicate words) (lex : Lexicon) (dialect : Dialect) : Tame dialect words := by
  obtain ⟨hverb, hobjects, hpieces⟩ := h
  obtain ⟨c, hc⟩ := hverb.chain lex
  obtain ⟨htame, hleads⟩ := tame_chain hc dialect
  obtain ⟨phrases, hphrases, hspellings⟩ := exists_phrases hpieces lex
  refine Tame.cons_leads ((htame.append (.flatMap fun object hobject ↦ ?_)).append ?_) ((hleads.append _).append _) _
  · obtain ⟨c, hc⟩ := (hobjects object hobject).chain lex
    exact (tame_chain hc dialect).1.cons_leads (tame_chain hc dialect).2 _
  · rw [← hspellings]
    exact (tame_spellings hphrases dialect).1

theorem IsClause.clause (h : IsClause words) (lex : Lexicon) (mark : Option Punctuation) :
    ∃ s : SimpleSentence, (clause lex words mark : Except ParseError Sentence) = .ok (.simple s) ∧ s.spelling = words ∧
      s.punctuation = mark := by
  obtain ⟨tagQuestion, hconjunction, hsubject, hne, hpredicates⟩ := h
  rename_i conjunction subject predicates
  obtain ⟨c, hc, hspelling⟩ := hsubject.coordination lex
  obtain ⟨ps, hps⟩ := exists_forall₂ (fun predicate hmem ↦ (hpredicates predicate hmem).settled lex)
  have hspellings : ps.flatMap Predicate.spelling = predicates.flatten := by
    rw [List.flatMap_def, map_eq_map_of_forall₂ hps (fun _ _ _ hp ↦ hp.2.1), List.map_id']
  have hsettled : ∀ p ∈ ps, p.IsSettled lex ∧ p.particle = .li := by
    intro p hp
    obtain ⟨predicate, -, hread⟩ := forall₂_exists_of_mem hps.flip hp
    exact ⟨hread.1, hread.2.2⟩
  let s : SimpleSentence := { subject := some c, predicates := ps, punctuation := mark, conjunction, tagQuestion }
  have hbody : s.body = subject ++ predicates.flatten := by
    simp [SimpleSentence.body, SimpleSentence.writtenSubject, s, hspelling, hspellings]
  have hwords : s.spelling = conjunction.toList.map Particle.word ++
      (subject ++ predicates.flatten ++ if tagQuestion then [Particle.anu.word, "seme"] else []) := by
    rw [SimpleSentence.spelling_eq, SimpleSentence.ending, hbody]
    rfl
  have hs : s.IsSettled lex := by
    obtain ⟨w, rest, hhead, hw⟩ := hsubject.head
    refine ⟨⟨rfl, hconjunction, ?_, .statement c rfl rfl rfl ?_ (fun p hp ↦ (hsettled p hp).2)⟩, by simp [s], ?_,
      fun p hp ↦ (hsettled p hp).1, fun _ htag ↦ ?_, by simp [s]⟩
    · rintro rfl
      exact hne (List.forall₂_nil_right_iff.1 hps)
    · rw [hspelling, hhead]
      rintro - v hv p -
      obtain rfl : w = v := by simpa using hv
      exact hw.ne_word p
    · intro c' hc'
      obtain rfl : c = c' := by simpa [s, SimpleSentence.writtenSubject] using hc'
      rwa [Chain.IsSettled, hspelling]
    · have hanu : Particle.anu.word ∈ s.body := htag.subset (by simp [tag])
      rw [hbody, List.mem_append, List.mem_flatten] at hanu
      rcases hanu with hmem | ⟨predicate, hmem, hanu⟩
      · exact hsubject.notMem (by decide) hmem
      · exact (hpredicates predicate hmem).notMem (.inl rfl) hanu
  exact ⟨s, hwords ▸ hs.clause_spelling, hwords, rfl⟩

/-- What a clause between two `la`s has to be for the sentence around it to be read as it stands. -/
structure IsPlain (lex : Lexicon) (words : List String) : Prop where
  solid : Solid words
  la : Particle.la.word ∉ words
  implied : withImpliedLi lex words = words
  tame : ∀ dialect, Tame dialect words
  leads : Leads words

theorem li_mem_predicates {predicates : List (List String)} (hne : predicates ≠ [])
    (h : ∀ predicate ∈ predicates, IsPredicate predicate) : Particle.li.word ∈ predicates.flatten := by
  obtain ⟨predicate, predicates, rfl⟩ := List.exists_cons_of_ne_nil hne
  have hpredicate := h predicate (by simp)
  obtain ⟨_, _, _⟩ := hpredicate
  simp

theorem IsClause.li_mem (h : IsClause words) : Particle.li.word ∈ words := by
  obtain ⟨_, _, _, hne, hpredicates⟩ := h
  simp [li_mem_predicates hne hpredicates]

theorem IsClause.isPlain (h : IsClause words) (lex : Lexicon) : IsPlain lex words := by
  have hli := h.li_mem
  obtain ⟨tagQuestion, hconjunction, hsubject, hne, hpredicates⟩ := h
  rename_i conjunction subject predicates
  obtain ⟨c, hc, hspelling⟩ := hsubject.coordination lex
  have hquiet : ∀ p ∈ conjunction, IsQuiet p.word ∧ p ≠ .la := by
    intro p hp
    have := hconjunction p hp
    rw [isQuiet_word]
    cases p <;> simp [Particle.isConjunction] at this <;> decide
  refine ⟨?_, ?_, withImpliedLi_of_mem (.inl hli), fun dialect ↦ ?_, ?_⟩
  · intro w hw
    simp only [List.mem_append, List.mem_map, List.mem_flatten] at hw
    rcases hw with ⟨p, -, rfl⟩ | (hw | ⟨predicate, hmem, hw⟩) | hw
    · exact p.isSolid_word
    · exact hsubject.isSolid w hw
    · exact (hpredicates predicate hmem).isSolid w hw
    · split at hw <;> simp at hw
      rcases hw with rfl | rfl <;> decide
  · simp only [List.mem_append, List.mem_map, List.mem_flatten, not_or, not_exists, not_and]
    refine ⟨fun p hp heq ↦ (hquiet p (by simpa using hp)).2 (Particle.word_inj.1 heq),
      ⟨hsubject.notMem (by decide), fun predicate hmem ↦ (hpredicates predicate hmem).notMem (.inr rfl)⟩, ?_⟩
    split <;> simp [Particle.word]
  · have htag : Tame dialect (if tagQuestion then [Particle.anu.word, "seme"] else []) := by
      split
      · exact .of_quiet isQuiet_tag
      · exact .nil
    refine .append (.of_quiet fun w hw ↦ ?_) ((Tame.append ?_ ?_).append htag)
    · obtain ⟨p, hp, rfl⟩ := List.mem_map.1 hw
      exact (hquiet p (by simpa using hp)).1
    · rw [← hspelling]
      exact (tame_coordination hc dialect).1
    · rw [← List.flatMap_id']
      exact .flatMap fun predicate hmem ↦ (hpredicates predicate hmem).tame lex dialect
  · cases conjunction with
    | none =>
      rw [← hspelling]
      exact (((tame_coordination hc {}).2.append _).append _)
    | some p => exact ⟨p.word, _, rfl, (hquiet p rfl).1.1⟩

theorem IsChain.isPlain (h : IsChain words) (lex : Lexicon) (hmi : words.head? ≠ some "mi")
    (hsina : words.head? ≠ some "sina") : IsPlain lex words := by
  obtain ⟨c, hc, hspelling⟩ := h.coordination lex
  refine ⟨h.isSolid, h.notMem (by decide), ?_, fun dialect ↦ hspelling ▸ (tame_coordination hc dialect).1,
    hspelling ▸ (tame_coordination hc {}).2⟩
  have hli := Particle.isIn_eq_false.2 (h.notMem (by decide : Particle.li ≠ .en ∧ Particle.li ≠ .pi))
  have ho := Particle.isIn_eq_false.2 (h.notMem (by decide : Particle.o ≠ .en ∧ Particle.o ≠ .pi))
  obtain ⟨w, rest, rfl, hw⟩ := h.head
  simp only [List.head?_cons, ne_eq, Option.some.injEq] at hmi hsina
  have hwrite : writeLi lex (w :: rest) = w :: rest := by
    cases rest <;> simp [writeLi, hmi, hsina]
  simp [withImpliedLi, hli, ho, hw.particle, hwrite]

theorem IsChain.context (h : IsChain words) (lex : Lexicon) :
    ∃ c : Context, (context lex words : Except ParseError Context) = .ok c ∧ c.spelling = words := by
  obtain ⟨c, hc, hspelling⟩ := h.coordination lex
  refine ⟨.chain c, context_eq_ok.2 (.inr ⟨?_, c, rfl, hc⟩), hspelling⟩
  obtain ⟨w, rest, rfl, hw⟩ := h.head
  simpa using hw.isPreposition

structure ReadsVerbatim (lex : Lexicon) (mark : Punctuation) (runs : List (List String))
    (preconditions : List SimpleSentence) (s : SimpleSentence) : Prop where
  reads : ReadsClauses lex mark runs (preconditions.map .simple) (.simple s)
  spelling : preconditions.flatMap (·.spelling ++ [Particle.la.word]) ++ s.spelling = [Particle.la.word].intercalate runs

theorem exists_readsVerbatim {contexts : List (List String)} {last : List String}
    (hcontexts : ∀ context ∈ contexts, IsContext context) (hlast : IsClause last) (lex : Lexicon) (mark : Punctuation) :
    ∃ preconditions s, ReadsVerbatim lex mark (contexts ++ [last]) preconditions s := by
  induction contexts with
  | nil =>
    obtain ⟨s, hs, hspelling, -⟩ := hlast.clause lex (some mark)
    exact ⟨[], s, .conclusion hs, by simp [hspelling]⟩
  | cons words contexts ih =>
    obtain ⟨preconditions, s, hread, hspelling⟩ := ih (fun context hmem ↦ hcontexts context (by simp [hmem]))
    have hjoin : [Particle.la.word].intercalate (words :: contexts ++ [last]) =
        words ++ Particle.la.word :: [Particle.la.word].intercalate (contexts ++ [last]) := by
      rw [List.cons_append, List.intercalate_cons_of_ne_nil (by simp), List.append_assoc]
      rfl
    rcases hcontexts words (by simp) with hclause | ⟨hchain, -, -⟩
    · obtain ⟨p, hp, hpspelling, -⟩ := hclause.clause lex none
      refine ⟨p :: preconditions, s, .condition hclause.li_mem hp hread, ?_⟩
      rw [hjoin, ← hspelling, ← hpspelling]
      simp
    · obtain ⟨c, hc, hcspelling⟩ := hchain.context lex
      have hli := hchain.notMem (by decide : Particle.li ≠ .en ∧ Particle.li ≠ .pi)
      cases preconditions with
      | nil =>
        refine ⟨[], { s with contexts := c :: s.contexts }, .contextOfConclusion hchain.ne_nil hli hc hread, ?_⟩
        rw [hjoin, ← hspelling, ← hcspelling, SimpleSentence.spelling_context]
        simp
      | cons p preconditions =>
        refine ⟨{ p with contexts := c :: p.contexts } :: preconditions, s,
          .contextOfCondition hchain.ne_nil hli hc hread, ?_⟩
        rw [hjoin, ← hspelling, ← hcspelling, List.flatMap_cons, SimpleSentence.spelling_context]
        simp

theorem IsContext.isPlain (h : IsContext words) (lex : Lexicon) : IsPlain lex words := by
  rcases h with hclause | ⟨hchain, hmi, hsina⟩
  · exact hclause.isPlain lex
  · exact hchain.isPlain lex hmi hsina

theorem Solid.intercalate {s : String} (hs : Word.IsSolid s) {runs : List (List String)} (h : ∀ run ∈ runs, Solid run) :
    Solid ([s].intercalate runs) := by
  intro w hw
  rcases mem_of_mem_intercalate hw with rfl | ⟨run, hrun, hw⟩
  · exact hs
  · exact h run hrun w hw

end Core

open TokiPona.Core Reading

/-- Every text of the core is read, by any lexicon and in any dialect, and written back word by word. -/
theorem Grammar.parse_of_isText (g : Grammar) {text : String} (shown : String) (h : IsText text)
    (hcomment : ¬ IsComment text) : ∃ s, g.parse text shown = .ok s ∧ s.text = text := by
  obtain ⟨words, mark, ⟨contexts, last, hcontexts, hlast, hwords⟩, rfl⟩ := h
  rw [← intercalate_eq_flatMap] at hwords
  have hplain : ∀ run ∈ contexts ++ [last], IsPlain g.lexicon run := by
    intro run hrun
    rcases List.mem_append.1 hrun with hrun | hrun
    · exact (hcontexts run hrun).isPlain g.lexicon
    · rw [List.mem_singleton.1 hrun]
      exact hlast.isPlain g.lexicon
  have hne : ∀ run ∈ contexts ++ [last], run ≠ [] := fun run hrun ↦ (hplain run hrun).leads.ne_nil
  obtain ⟨preconditions, s, hread, hspelling⟩ := exists_readsVerbatim hcontexts hlast g.lexicon mark
  obtain ⟨htame, w, rest, hhead, hw⟩ :=
    tame_intercalate (by simp) (fun run hrun ↦ ⟨(hplain run hrun).tame g.dialect, (hplain run hrun).leads⟩)
      Particle.la.word
  rw [← hwords] at htame hhead hspelling
  refine ⟨assembled (preconditions.map .simple) (.simple s),
    (Grammar.parse_marked ?_ ?_).2 ⟨?_, .inr ⟨hcomment, ?_, ?_, ?_⟩⟩, ?_⟩
  · rw [hwords]
    exact Solid.intercalate (Particle.isSolid_word .la) (fun run hrun ↦ (hplain run hrun).solid)
  · simp [hhead]
  · exact fun hli ↦ (htame.quiet _ hli).1 ⟨.li, rfl, rfl⟩
  · exact htame.isChain
  · rw [hhead]
    rintro v hv
    obtain rfl : w = v := by simpa using hv
    exact ⟨fun heq ↦ hw ⟨.li, rfl, heq⟩, fun heq ↦ hw ⟨.la, rfl, heq⟩⟩
  · rw [hwords]
    exact sentence_intercalate hread hne (fun run hrun ↦ (hplain run hrun).la) (fun run hrun ↦ (hplain run hrun).implied)
  · rw [hread.text_eq, spelling_assembled, Sentence.preconditionSpellings_eq, List.flatMap_map, Sentence.spelling, ← hspelling]
    rfl

theorem Grammar.parse_core_sentence :
    let text := "taso jan pi ma suli en mi li moku e kili ~lon tomo anu seme la tenpo la ona li pona."
    IsText text ∧ ¬ IsComment text ∧
      ∃ s, (⟨Dictionary.standard.lexicon, {}⟩ : Grammar).parse text text = .ok s ∧ s.text = text := by
  intro text
  have hrun (words : List String) (h : words ≠ [] ∧ ∀ w ∈ words, IsWord w) : IsRun words := h
  have hchain (w : String) (hw : IsWord w) : IsChain [w] :=
    ⟨[[[w]]], by simp, by simpa [AreRuns, Core.IsRun] using hw, by simp +contextual, by simp⟩
  have hsubject : IsChain ["jan", "pi", "ma", "suli", "en", "mi"] := by
    refine ⟨[[["jan"], ["ma", "suli"]], [["mi"]]], by simp, ?_, by simp, rfl⟩
    simpa [AreRuns] using ⟨⟨hrun ["jan"] (by decide), hrun ["ma", "suli"] (by decide)⟩, hrun ["mi"] (by decide)⟩
  have hpiece : IsPiece ["~lon", "tomo"] := ⟨"~lon", ["tomo"], ⟨"lon", by decide, rfl⟩, .inr (hchain _ (by decide)), rfl⟩
  have hmoku : IsPredicate ["li", "moku", "e", "kili", "~lon", "tomo"] :=
    @IsPredicate.intro ["moku"] [["kili"]] [["~lon", "tomo"]] (hrun ["moku"] (by decide)).isGroup
      (by simpa using (hrun ["kili"] (by decide)).isGroup) (by simpa using hpiece)
  have hpona : IsPredicate ["li", "pona"] :=
    @IsPredicate.intro ["pona"] [] [] (hrun ["pona"] (by decide)).isGroup (by simp) (by simp)
  have hfirst := @IsClause.intro (some .taso) _ [_] true (by decide) hsubject (by simp) (by simpa using hmoku)
  have hlast := @IsClause.intro none _ [_] false (by simp) (hchain "ona" (by decide)) (by simp) (by simpa using hpona)
  have htenpo : IsContext ["tenpo"] := .inr ⟨hchain "tenpo" (by decide), by decide, by decide⟩
  have htext : IsText text := ⟨_, .period, ⟨[_, _], _, by simpa using ⟨.inl hfirst, htenpo⟩, hlast, rfl⟩, by decide⟩
  have hcomment : ¬ IsComment text := by decide
  exact ⟨htext, hcomment, Grammar.parse_of_isText _ text htext hcomment⟩

end TokiPona
