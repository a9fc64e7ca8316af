import Mathlib.Data.List.TakeWhile
import TokiPona.Dialect
import TokiPona.Reading.Predicate
import TokiPona.Proofs.Spelling

namespace TokiPona.Reading

variable {lex : Lexicon} {words clause : List String}

theorem isE_word : isE Particle.e.word = true := by decide

theorem eq_of_isE (w : String) (h : isE w = true) : w = Particle.e.word := by simpa [isE] using h

theorem isE_eq_false {w : String} : isE w = false ↔ w ≠ Particle.e.word := by simp [isE]

theorem governor_eq_ok {p : Particle} : (governor clause : Except ParseError Particle) = .ok p ↔
    p.isGoverning = true ∧ ∃ words, clause = p.word :: words := by
  constructor
  · intro h
    unfold governor at h
    split at h
    case _ q hq =>
      obtain ⟨w, hw, hq⟩ := Option.bind_eq_some_iff.1 hq
      obtain ⟨words, rfl⟩ := List.head?_eq_some_iff.1 hw
      split at h
      case isTrue hgov =>
        obtain rfl := pure_eq_ok.1 h
        exact ⟨hgov, words, by rw [Particle.word_of_ofWord? hq]⟩
      · exact absurd h throw_ne_ok
    · exact absurd h throw_ne_ok
  · rintro ⟨hgov, words, rfl⟩
    simp [governor, hgov]

theorem nominal_eq_ok {c : Chain} : (nominal lex words : Except ParseError Chain) = .ok c ↔
    ∃ link, (chain lex words : Except ParseError Chain) = .ok link ∧ c = .links .en [link] := by
  rw [nominal, bind_eq_ok]
  refine exists_congr (fun link ↦ and_congr_right (fun _ ↦ ?_))
  simp [chainOfLinks_eq_ok]

theorem splitAtHead_eq_some {isModal : Lexeme → Bool} {ls : List Lexeme} {v : VerbPhrase} :
    splitAtHead isModal ls = some v ↔ ∃ modals head adverbs, ls = modals ++ head :: adverbs ∧
      (∀ l ∈ modals, isModal l = true) ∧ isModal head = false ∧ v = ⟨modals, some head, adverbs⟩ := by
  unfold splitAtHead
  constructor
  · intro h
    split at h
    case _ head adverbs heq =>
      have hhead := List.head?_dropWhile_not isModal ls
      rw [heq] at hhead
      refine ⟨ls.takeWhile isModal, head, adverbs, ?_, ?_, by simpa using hhead, (Option.some.inj h).symm⟩
      · rw [← heq, List.takeWhile_append_dropWhile]
      · exact fun l hl ↦ List.mem_takeWhile_imp hl
    · simp at h
  · rintro ⟨modals, head, adverbs, rfl, hmodals, hhead, rfl⟩
    rw [List.takeWhile_append_of_pos hmodals, List.dropWhile_append_of_pos hmodals]
    simp [hhead]

theorem splitAtHead_eq_none {isModal : Lexeme → Bool} {ls : List Lexeme} :
    splitAtHead isModal ls = none ↔ ∀ l ∈ ls, isModal l = true := by
  rw [← List.dropWhile_eq_nil_iff, splitAtHead]
  split <;> simp_all

theorem verbPhrase_of_head {modals adverbs : List Lexeme} {head : Lexeme}
    (hls : lex.lexemes words = modals ++ head :: adverbs) (hmodals : ∀ l ∈ modals, isModalLexeme lex l = true)
    (hhead : isModalLexeme lex head = false) : verbPhrase lex words = ⟨modals, some head, adverbs⟩ := by
  have hsplit : splitAtHead (isModalLexeme lex) (lex.lexemes words) = some ⟨modals, some head, adverbs⟩ :=
    splitAtHead_eq_some.2 ⟨modals, head, adverbs, hls, hmodals, hhead, rfl⟩
  simp [verbPhrase, hsplit]

theorem verbPhrase_of_modals {adverbs : List Lexeme} {head : Lexeme} (hls : lex.lexemes words = head :: adverbs)
    (hall : ∀ l ∈ lex.lexemes words, isModalLexeme lex l = true) :
    verbPhrase lex words = ⟨[], some head, adverbs⟩ := by
  have hsplit : splitAtHead (isModalLexeme lex) (lex.lexemes words) = none := splitAtHead_eq_none.2 hall
  have hsplit' : splitAtHead (fun _ ↦ false) (lex.lexemes words) = some ⟨[], some head, adverbs⟩ :=
    splitAtHead_eq_some.2 ⟨[], head, adverbs, hls, by simp, rfl, rfl⟩
  simp [verbPhrase, hsplit, hsplit']

theorem verbPhrase_cases (lex : Lexicon) {words : List String} (hne : words ≠ []) :
    (∃ modals head adverbs, lex.lexemes words = modals ++ head :: adverbs ∧
      (∀ l ∈ modals, isModalLexeme lex l = true) ∧ isModalLexeme lex head = false ∧
      verbPhrase lex words = ⟨modals, some head, adverbs⟩) ∨
    ∃ head adverbs, lex.lexemes words = head :: adverbs ∧ (∀ l ∈ lex.lexemes words, isModalLexeme lex l = true) ∧
      verbPhrase lex words = ⟨[], some head, adverbs⟩ := by
  cases h : splitAtHead (isModalLexeme lex) (lex.lexemes words) with
  | some v =>
    obtain ⟨modals, head, adverbs, hls, hmodals, hhead, rfl⟩ := splitAtHead_eq_some.1 h
    exact .inl ⟨modals, head, adverbs, hls, hmodals, hhead, verbPhrase_of_head hls hmodals hhead⟩
  | none =>
    have hall := splitAtHead_eq_none.1 h
    obtain ⟨head, adverbs, hls⟩ := List.exists_cons_of_ne_nil (lex.lexemes_ne_nil hne)
    exact .inr ⟨head, adverbs, hls, hall, verbPhrase_of_modals hls hall⟩

theorem lexemes_verbPhrase (lex : Lexicon) {words : List String} (hne : words ≠ []) :
    (verbPhrase lex words).lexemes = lex.lexemes words := by
  rcases verbPhrase_cases lex hne with ⟨modals, head, adverbs, hls, -, -, heq⟩ | ⟨head, adverbs, hls, -, heq⟩ <;>
    simp [heq, hls, VerbPhrase.lexemes]

theorem words_verbPhrase (lex : Lexicon) (words : List String) : (verbPhrase lex words).words = words := by
  by_cases hne : words = []
  · subst hne
    simp [verbPhrase, Lexicon.lexemes, splitAtHead, VerbPhrase.words, VerbPhrase.lexemes]
  · rw [VerbPhrase.words, lexemes_verbPhrase lex hne, Lexicon.flatMap_words_lexemes]

theorem verbPhrase_singleton (lex : Lexicon) (w : String) : verbPhrase lex [w] = { head := some (.word w) } := by
  have hlexemes : lex.lexemes [w] = [.word w] := by
    simp [Lexicon.lexemes, Lexicon.longestTail]
  unfold verbPhrase
  rw [hlexemes]
  cases hm : isModalLexeme lex (.word w) <;> simp [splitAtHead, hm]

inductive ReadsKind (lex : Lexicon) : List String → Option PredicateKind → Prop
  | nothing : ReadsKind lex [] none
  | pi {rest : List String} {link : Chain} (h : (chain lex rest : Except ParseError Chain) = .ok link) :
      ReadsKind lex (Particle.pi.word :: rest) (some (.pi (.links .en [link])))
  | nominal {words : List String} {link : Chain} (hpi : Particle.pi.word ∈ words)
      (hhead : words.head? ≠ some Particle.pi.word) (h : (chain lex words : Except ParseError Chain) = .ok link) :
      ReadsKind lex words (some (.nominal (.links .en [link])))
  | verb {words : List String} (hne : words ≠ []) (hpi : Particle.pi.word ∉ words) :
      ReadsKind lex words (some (.verb (verbPhrase lex words)))

theorem predicateKind_eq_ok {kind : Option PredicateKind} :
    (predicateKind lex words : Except ParseError (Option PredicateKind)) = .ok kind ↔ ReadsKind lex words kind := by
  constructor
  · intro h
    cases words with
    | nil =>
      obtain rfl := pure_eq_ok.1 h
      exact .nothing
    | cons w rest =>
      rw [predicateKind] at h
      split at h
      case isTrue hw =>
        obtain ⟨c, hc, rfl⟩ := map_eq_ok.1 h
        obtain ⟨link, hlink, rfl⟩ := nominal_eq_ok.1 hc
        obtain rfl := eq_of_isPi w hw
        exact .pi hlink
      case isFalse hw =>
      split at h
      case isTrue hpi =>
        obtain ⟨c, hc, rfl⟩ := map_eq_ok.1 h
        obtain ⟨link, hlink, rfl⟩ := nominal_eq_ok.1 hc
        exact .nominal (Particle.isIn_iff.1 hpi) (by simpa [isPi] using hw) hlink
      case isFalse hpi =>
        obtain rfl := pure_eq_ok.1 h
        exact .verb (by simp) (Particle.isIn_iff.not.1 hpi)
  · intro h
    cases h with
    | nothing => rfl
    | pi hlink =>
      rw [predicateKind, if_pos isPi_word]
      exact map_eq_ok.2 ⟨_, nominal_eq_ok.2 ⟨_, hlink, rfl⟩, rfl⟩
    | nominal hpi hhead hlink =>
      obtain ⟨w, rest, rfl⟩ := List.exists_cons_of_ne_nil (List.ne_nil_of_mem hpi)
      rw [predicateKind, if_neg (by simpa [isPi] using hhead), if_pos (Particle.isIn_iff.2 hpi)]
      exact map_eq_ok.2 ⟨_, nominal_eq_ok.2 ⟨_, hlink, rfl⟩, rfl⟩
    | verb hne hpi =>
      obtain ⟨w, rest, rfl⟩ := List.exists_cons_of_ne_nil hne
      have hw : ¬ isPi w = true := fun hw ↦ hpi (by simp [eq_of_isPi w hw])
      rw [predicateKind, if_neg hw, if_neg (Particle.isIn_iff.not.2 hpi)]
      rfl

theorem spelling_predicateKind {kind : Option PredicateKind}
    (h : (predicateKind lex words : Except ParseError (Option PredicateKind)) = .ok kind) :
    (kind.getD (.verb {})).spelling = words := by
  cases predicateKind_eq_ok.1 h with
  | nothing => rfl
  | pi hlink => simp [PredicateKind.spelling, Chain.spelling, spelling_chain hlink]
  | nominal _ _ hlink => simp [PredicateKind.spelling, Chain.spelling, spelling_chain hlink]
  | verb => simp [PredicateKind.spelling, words_verbPhrase]

theorem predicateKind_eq_none (h : (predicateKind lex words : Except ParseError (Option PredicateKind)) = .ok none) :
    words = [] := by
  cases predicateKind_eq_ok.1 h with
  | nothing => rfl

theorem ReadsPrepPhrase.opens {piece : List String} {p : PrepPhrase} (h : ReadsPrepPhrase lex piece p) :
    Opens Word.isPreposition piece := by
  obtain ⟨w, words, rfl, hw, hwords, -, -⟩ := h
  exact ⟨w, words, rfl, hw, hwords⟩

theorem ReadsPrepPhrase.mem {piece : List String} {p : PrepPhrase} (h : ReadsPrepPhrase lex piece p) :
    ∀ w ∈ piece, Word.isPreposition w = true ∨ w = Particle.en.word ∨ w = Particle.pi.word ∨ IsPhraseWord w := by
  obtain ⟨v, words, rfl, hv, hwords, -, hgoverned⟩ := h
  intro w hw
  rcases List.mem_cons.1 hw with rfl | hw
  · exact .inl hv
  · rcases (complement_eq_ok hwords).1 hgoverned with ⟨rfl, -⟩ | ⟨-, c, hc, -⟩
    · simp at hw
    · exact .inr (mem_of_coordination hc w hw)

theorem isPreposition_word (p : Particle) : Word.isPreposition p.word = false := by cases p <;> decide

theorem ofWord?_of_isPreposition {w : String} (h : Word.isPreposition w = true) : Particle.ofWord? w = none := by
  by_contra hne
  obtain ⟨p, hp⟩ := Option.ne_none_iff_exists'.1 hne
  rw [← Particle.word_of_ofWord? hp, isPreposition_word] at h
  simp at h

theorem isE_of_isPreposition {w : String} (h : Word.isPreposition w = true) : isE w = false := by
  rw [isE_eq_false]
  rintro rfl
  simp [isPreposition_word] at h

theorem ReadsPrepPhrase.isE {piece : List String} {p : PrepPhrase} (h : ReadsPrepPhrase lex piece p) :
    ∀ w ∈ piece, isE w = false := by
  intro w hw
  rcases h.mem w hw with hprep | rfl | rfl | hword
  · exact isE_of_isPreposition hprep
  · decide
  · decide
  · exact isE_eq_false.2 (hword .e (by simp))

theorem object_cons {e : String} {c : Chain} :
    (object lex clause (e :: words) : Except ParseError Chain) = .ok c ↔
      (chain lex words : Except ParseError Chain) = .ok c := by
  cases words with
  | nil => simp [object, chain, piChain]
  | cons w words => rfl

/-- What a clause with objects is made of: what stands before the first `e`, the objects, of which the last ends at its
first preposition, and the pieces that prepositions open after it. -/
structure IsCut (verb : List String) (init : List (List String)) (last : List String) (pieces : List (List String)) :
    Prop where
  plain : NoPreposition last
  opens : ∀ piece ∈ pieces, Opens Word.isPreposition piece
  verb : ∀ w ∈ verb, isE w = false
  init : ∀ object ∈ init, ∀ w ∈ object, isE w = false
  last : ∀ w ∈ last, isE w = false
  pieces : ∀ piece ∈ pieces, ∀ w ∈ piece, isE w = false

def joined (verb : List String) (objects pieces : List (List String)) : List String :=
  verb ++ objects.flatMap (Particle.e.word :: ·) ++ pieces.flatten

theorem e_notMem_joined {verb : List String} {pieces : List (List String)} (hverb : ∀ w ∈ verb, isE w = false)
    (hpieces : ∀ piece ∈ pieces, ∀ w ∈ piece, isE w = false) : Particle.e.word ∉ joined verb [] pieces := by
  simp only [joined, List.flatMap_nil, List.append_nil, List.mem_append, List.mem_flatten, not_or, not_exists, not_and]
  exact ⟨fun h ↦ absurd (hverb _ h) (by decide), fun piece hpiece h ↦ absurd (hpieces piece hpiece _ h) (by decide)⟩

theorem opens_e {words : List String} (h : ∀ w ∈ words, isE w = false) : Opens isE (Particle.e.word :: words) :=
  ⟨_, _, rfl, isE_word, h⟩

section

variable {verb last : List String} {init pieces : List (List String)}

theorem IsCut.splitBefore_isE (h : IsCut verb init last pieces) (w : String) :
    splitBefore isE (w :: joined verb (init ++ [last]) pieces) =
      (w :: verb) :: (init.map (Particle.e.word :: ·) ++ [Particle.e.word :: last ++ pieces.flatten]) := by
  have hjoin : w :: joined verb (init ++ [last]) pieces =
      (w :: verb) ++ (init.map (Particle.e.word :: ·) ++ [Particle.e.word :: last ++ pieces.flatten]).flatten := by
    simp [joined, List.flatMap_def]
  rw [hjoin]
  apply splitBefore_append_flatten (by simp) h.verb
  intro piece hpiece
  rcases List.mem_append.1 hpiece with hpiece | hpiece
  · obtain ⟨object, hobject, rfl⟩ := List.mem_map.1 hpiece
    exact opens_e (h.init object hobject)
  · rw [List.mem_singleton.1 hpiece]
    refine opens_e (fun v hv ↦ ?_)
    rcases List.mem_append.1 hv with hv | hv
    · exact h.last v hv
    · obtain ⟨piece, hpiece, hv⟩ := List.mem_flatten.1 hv
      exact h.pieces piece hpiece v hv

theorem IsCut.splitBefore_isPreposition (h : IsCut verb init last pieces) :
    splitBefore Word.isPreposition (Particle.e.word :: last ++ pieces.flatten) = (Particle.e.word :: last) :: pieces :=
  splitBefore_append_flatten (by simp) h.plain h.opens

end

theorem exists_isCut (h : Particle.e.word ∈ words) :
    ∃ verb init last pieces, words = joined verb (init ++ [last]) pieces ∧ IsCut verb init last pieces := by
  have hcut (xs : List String) : ∃ (verb : List String) (parts : List (List String)),
      xs = verb ++ parts.flatMap (Particle.e.word :: ·) ∧ (∀ w ∈ verb, isE w = false) ∧ ∀ part ∈ parts, ∀ w ∈ part, isE w = false := by
    induction xs using cut_induction isE with
    | plain xs hxs => exact ⟨xs, [], by simp, hxs, by simp⟩
    | cut piece s rest hpiece hs ih =>
      obtain rfl := eq_of_isE s hs
      obtain ⟨verb, parts, rfl, hverb, hparts⟩ := ih
      exact ⟨piece, verb :: parts, by simp, hpiece, List.forall_mem_cons.2 ⟨hverb, hparts⟩⟩
  obtain ⟨verb, parts, rfl, hverb, hparts⟩ := hcut words
  obtain ⟨init, part, rfl⟩ : ∃ init part, parts = init ++ [part] := by
    refine ⟨_, _, (List.dropLast_concat_getLast (?_ : parts ≠ [])).symm⟩
    rintro rfl
    simp only [List.flatMap_nil, List.append_nil] at h
    exact absurd (hverb _ h) (by decide)
  have hpart := hparts part (by simp)
  obtain ⟨last, pieces, hsplit⟩ := splitBefore_cons Word.isPreposition Particle.e.word part
  obtain ⟨-, hplain, hopens⟩ := splitBefore_eq_cons hsplit
  have hflat := flatten_splitBefore Word.isPreposition (Particle.e.word :: part)
  rw [hsplit, List.flatten_cons, List.cons_append] at hflat
  obtain rfl : last ++ pieces.flatten = part := (List.cons.inj hflat).2
  refine ⟨verb, init, last, pieces, by simp [joined], hplain, hopens, hverb,
    fun object hobject ↦ hparts object (by simp [hobject]), fun w hw ↦ hpart w (by simp [hw]),
    fun piece hpiece w hw ↦ hpart w ?_⟩
  exact List.mem_append_right _ (List.mem_flatten.2 ⟨piece, hpiece, hw⟩)

inductive ReadsPredicate (lex : Lexicon) : List String → Predicate → Prop
  | transitive {particle : Particle} {verb last : List String} {kind : Option PredicateKind}
      {init pieces : List (List String)} {chains : List Chain} {phrases : List PrepPhrase}
      (hgov : particle.isGoverning = true) (hcut : IsCut verb init last pieces)
      (hkind : (predicateKind lex verb : Except ParseError (Option PredicateKind)) = .ok kind)
      (hchains : List.Forall₂ (fun object c ↦ (chain lex object : Except ParseError Chain) = .ok c) (init ++ [last]) chains)
      (hphrases : List.Forall₂ (ReadsPrepPhrase lex) pieces phrases) :
      ReadsPredicate lex (particle.word :: joined verb (init ++ [last]) pieces)
        ⟨particle, kind.getD (.verb {}), some (.links .e chains), phrases⟩
  | intransitive {particle : Particle} {verb : List String} {kind : Option PredicateKind} {pieces : List (List String)}
      {phrases : List PrepPhrase} (hgov : particle.isGoverning = true) (hne : joined verb [] pieces ≠ [])
      (he : ∀ w ∈ verb, isE w = false) (hverb : NoPreposition verb)
      (hkind : (predicateKind lex verb : Except ParseError (Option PredicateKind)) = .ok kind)
      (hfull : kind = none → ∀ piece ∈ pieces, piece.length ≠ 1)
      (hphrases : List.Forall₂ (ReadsPrepPhrase lex) pieces phrases) :
      ReadsPredicate lex (particle.word :: joined verb [] pieces) ⟨particle, kind.getD (.verb {}), none, phrases⟩
  | promoted {particle : Particle} {before after : List (List String)} {w : String} {phrases : List PrepPhrase}
      (hgov : particle.isGoverning = true) (hw : Word.isPreposition w = true)
      (hfull : ∀ piece ∈ before, piece.length ≠ 1)
      (hphrases : List.Forall₂ (ReadsPrepPhrase lex) (before ++ after) phrases) :
      ReadsPredicate lex (particle.word :: joined [] [] (before ++ [w] :: after))
        ⟨particle, .verb { head := some (.word (Word.bare w)) }, none, phrases⟩

theorem word_ne_e {p : Particle} (h : p.isGoverning = true) : p.word ≠ Particle.e.word := by
  cases p <;> simp [Particle.isGoverning] at h <;> decide

theorem e_notMem_governed {particle : Particle} (hgov : particle.isGoverning = true) {verb : List String}
    {pieces : List (List String)} (he : ∀ w ∈ verb, isE w = false) (hpieces : ∀ piece ∈ pieces, ∀ w ∈ piece, isE w = false) :
    Particle.e.word ∉ particle.word :: joined verb [] pieces := by
  rw [List.mem_cons, not_or]
  exact ⟨(word_ne_e hgov).symm, e_notMem_joined he hpieces⟩

theorem splitBefore_joined (particle : Particle) {verb : List String} {pieces : List (List String)}
    (hverb : NoPreposition verb) (hpieces : ∀ piece ∈ pieces, Opens Word.isPreposition piece) :
    splitBefore Word.isPreposition (particle.word :: joined verb [] pieces) = (particle.word :: verb) :: pieces := by
  have hfirst : particle.word :: verb ≠ [] := by simp
  simpa [joined] using splitBefore_append_flatten hfirst hverb hpieces

theorem opens_of_reads {pieces : List (List String)} {phrases : List PrepPhrase}
    (h : List.Forall₂ (ReadsPrepPhrase lex) pieces phrases) :
    ∀ piece ∈ pieces, Opens Word.isPreposition piece ∧ ∀ w ∈ piece, isE w = false := by
  intro piece hpiece
  obtain ⟨q, -, hq⟩ := forall₂_exists_of_mem h hpiece
  exact ⟨hq.opens, hq.isE⟩

theorem opens_of_promoted {before after : List (List String)} {w : String} {phrases : List PrepPhrase}
    (hw : Word.isPreposition w = true) (h : List.Forall₂ (ReadsPrepPhrase lex) (before ++ after) phrases) :
    ∀ piece ∈ before ++ [w] :: after, Opens Word.isPreposition piece ∧ ∀ v ∈ piece, isE v = false := by
  intro piece hpiece
  rcases List.mem_append.1 hpiece with hpiece | hpiece
  · exact opens_of_reads h piece (List.mem_append_left _ hpiece)
  rcases List.mem_cons.1 hpiece with rfl | hpiece
  · exact ⟨⟨w, [], rfl, hw, by simp⟩, by simpa using isE_of_isPreposition hw⟩
  · exact opens_of_reads h piece (List.mem_append_right _ hpiece)

theorem mem_of_promoted? {pieces rest : List (List String)} {w : String} (h : promoted? pieces = some (w, rest)) :
    ∀ piece ∈ rest, piece ∈ pieces := by
  fun_induction promoted? pieces generalizing w rest with
  | case1 => simp at h
  | case2 v pieces =>
    obtain ⟨-, rfl⟩ := Prod.mk.inj (Option.some.inj h)
    exact fun piece hpiece ↦ List.mem_cons_of_mem _ hpiece
  | case3 piece pieces hne ih =>
    obtain ⟨⟨v, others⟩, hv, heq⟩ := Option.map_eq_some_iff.1 h
    obtain ⟨rfl, rfl⟩ := Prod.mk.inj heq
    intro q hq
    rcases List.mem_cons.1 hq with rfl | hq
    · simp
    · exact List.mem_cons_of_mem _ (ih hv q hq)

theorem mem_of_mem_settleVerb {kind : Option PredicateKind} {pieces : List (List String)} :
    ∀ piece ∈ (settleVerb kind pieces).2, piece ∈ pieces := by
  unfold settleVerb
  split
  · exact fun _ h ↦ h
  case _ hp => exact mem_of_promoted? hp
  · exact fun _ h ↦ h

theorem promoted?_eq_none {pieces : List (List String)} :
    promoted? pieces = none ↔ ∀ piece ∈ pieces, piece.length ≠ 1 := by
  fun_induction promoted? pieces with
  | case1 => simp
  | case2 w pieces => simp
  | case3 piece pieces hne ih =>
    have hlength : piece.length ≠ 1 := fun h ↦ by
      obtain ⟨w, rfl⟩ := List.length_eq_one_iff.1 h
      exact hne w rfl
    simp [ih, hlength]

theorem promoted?_append {before : List (List String)} (h : ∀ piece ∈ before, piece.length ≠ 1) (w : String)
    (after : List (List String)) : promoted? (before ++ [w] :: after) = some (Word.bare w, before ++ after) := by
  induction before with
  | nil => rfl
  | cons piece before ih =>
    have hne : ∀ v, piece ≠ [v] := by
      rintro v rfl
      exact h [v] (by simp) rfl
    rw [List.cons_append, promoted?, ih (fun q hq ↦ h q (by simp [hq]))]
    · rfl
    · exact hne

theorem exists_of_promoted? {pieces : List (List String)} {found : String × List (List String)}
    (h : promoted? pieces = some found) :
    ∃ before w after, pieces = before ++ [w] :: after ∧ ∀ piece ∈ before, piece.length ≠ 1 := by
  fun_induction promoted? pieces generalizing found with
  | case1 => simp at h
  | case2 w pieces => exact ⟨[], w, pieces, rfl, by simp⟩
  | case3 piece pieces hne ih =>
    obtain ⟨rest, hrest, -⟩ := Option.map_eq_some_iff.1 h
    obtain ⟨before, w, after, rfl, hbefore⟩ := ih hrest
    refine ⟨piece :: before, w, after, rfl, List.forall_mem_cons.2 ⟨fun hlength ↦ ?_, hbefore⟩⟩
    obtain ⟨u, rfl⟩ := List.length_eq_one_iff.1 hlength
    exact hne u rfl

theorem settleVerb_of_full {kind : Option PredicateKind} {pieces : List (List String)}
    (h : kind = none → ∀ piece ∈ pieces, piece.length ≠ 1) :
    settleVerb kind pieces = (kind.getD (.verb {}), pieces) := by
  cases kind with
  | some kind => rfl
  | none => simp [settleVerb, promoted?_eq_none.2 (h rfl)]

theorem settleVerb_append {before : List (List String)} (h : ∀ piece ∈ before, piece.length ≠ 1) (w : String)
    (after : List (List String)) : settleVerb none (before ++ [w] :: after) =
      (.verb { head := some (.word (Word.bare w)) }, before ++ after) := by
  simp [settleVerb, promoted?_append h]

theorem settleVerb_cases (kind : Option PredicateKind) (pieces : List (List String)) :
    (kind = none → ∀ piece ∈ pieces, piece.length ≠ 1) ∨ kind = none ∧ ∃ before w after,
      pieces = before ++ [w] :: after ∧ ∀ piece ∈ before, piece.length ≠ 1 := by
  cases kind with
  | some kind => exact .inl nofun
  | none =>
    cases hpromoted : promoted? pieces with
    | none => exact .inl (fun _ ↦ promoted?_eq_none.1 hpromoted)
    | some found => exact .inr ⟨rfl, exists_of_promoted? hpromoted⟩

theorem transitive_eq_ok {particle : Particle} (hgov : particle.isGoverning = true) {verb last : List String}
    {init pieces : List (List String)} (hcut : IsCut verb init last pieces) {p : Predicate} :
    (transitive lex (particle.word :: joined verb (init ++ [last]) pieces) : Except ParseError Predicate) = .ok p ↔
      ∃ kind, (predicateKind lex verb : Except ParseError (Option PredicateKind)) = .ok kind ∧ ∃ chains,
        List.Forall₂ (fun object c ↦ (chain lex object : Except ParseError Chain) = .ok c) (init ++ [last]) chains ∧
          ∃ phrases, List.Forall₂ (ReadsPrepPhrase lex) pieces phrases ∧
            p = ⟨particle, kind.getD (.verb {}), some (.links .e chains), phrases⟩ := by
  have hgovernor : (governor (particle.word :: joined verb (init ++ [last]) pieces) : Except ParseError Particle) =
      .ok particle := governor_eq_ok.2 ⟨hgov, _, rfl⟩
  have hparts : init.map (Particle.e.word :: ·) ++ [Particle.e.word :: last] =
      (init ++ [last]).map (Particle.e.word :: ·) := by simp
  rw [transitive, hcut.splitBefore_isE]
  simp only [hgovernor, ok_bind, List.getLast?_concat, Option.getD_some, hcut.splitBefore_isPreposition, List.dropLast_concat,
    hparts, List.drop_one, List.tail_cons]
  constructor
  · intro h
    obtain ⟨kind, hkind, h⟩ := bind_eq_ok.1 h
    obtain ⟨chains, hchains, h⟩ := bind_eq_ok.1 h
    obtain ⟨phrases, hphrases, h⟩ := bind_eq_ok.1 h
    obtain ⟨c, hc, h⟩ := bind_eq_ok.1 h
    obtain ⟨-, rfl⟩ := chainOfLinks_eq_ok.1 hc
    rw [mapM_eq_ok, List.forall₂_map_left_iff] at hchains
    exact ⟨kind, hkind, chains, hchains.imp (fun _ _ ↦ object_cons.1), phrases, (prepPhrases_eq_ok hcut.opens).1 hphrases,
      (pure_eq_ok.1 h).symm⟩
  · rintro ⟨kind, hkind, chains, hchains, phrases, hphrases, rfl⟩
    have hne : chains ≠ [] := by
      rintro rfl
      simpa using hchains.length_eq
    refine bind_eq_ok.2 ⟨kind, hkind, bind_eq_ok.2 ⟨chains, ?_, bind_eq_ok.2 ⟨phrases, ?_, ?_⟩⟩⟩
    · rw [mapM_eq_ok, List.forall₂_map_left_iff]
      exact hchains.imp (fun _ _ ↦ object_cons.2)
    · exact (prepPhrases_eq_ok hcut.opens).2 hphrases
    · exact bind_eq_ok.2 ⟨_, chainOfLinks_eq_ok.2 ⟨hne, rfl⟩, rfl⟩

theorem intransitive_eq_ok {particle : Particle} (hgov : particle.isGoverning = true) {verb : List String}
    {pieces : List (List String)} (hverb : NoPreposition verb)
    (hpieces : ∀ piece ∈ pieces, Opens Word.isPreposition piece) {p : Predicate} :
    (intransitive lex (particle.word :: joined verb [] pieces) : Except ParseError Predicate) = .ok p ↔
      ∃ kind, (predicateKind lex verb : Except ParseError (Option PredicateKind)) = .ok kind ∧ ∃ phrases,
        List.Forall₂ (ReadsPrepPhrase lex) (settleVerb kind pieces).2 phrases ∧
          p = ⟨particle, (settleVerb kind pieces).1, none, phrases⟩ := by
  have hgovernor : (governor (particle.word :: joined verb [] pieces) : Except ParseError Particle) =
      .ok particle := governor_eq_ok.2 ⟨hgov, _, rfl⟩
  have hrest {kind : Option PredicateKind} : ∀ piece ∈ (settleVerb kind pieces).2, Opens Word.isPreposition piece :=
    fun piece hpiece ↦ hpieces piece (mem_of_mem_settleVerb piece hpiece)
  rw [intransitive, splitBefore_joined particle hverb hpieces]
  simp only [hgovernor, ok_bind, List.drop_one, List.tail_cons]
  constructor
  · intro h
    obtain ⟨kind, hkind, h⟩ := bind_eq_ok.1 h
    obtain ⟨phrases, hphrases, h⟩ := bind_eq_ok.1 h
    exact ⟨kind, hkind, phrases, (prepPhrases_eq_ok hrest).1 hphrases, (pure_eq_ok.1 h).symm⟩
  · rintro ⟨kind, hkind, phrases, hphrases, rfl⟩
    refine bind_eq_ok.2 ⟨kind, hkind, bind_eq_ok.2 ⟨phrases, ?_, rfl⟩⟩
    exact (prepPhrases_eq_ok hrest).2 hphrases

theorem exists_joined (words : List String) : ∃ verb pieces, words = joined verb [] pieces ∧ NoPreposition verb ∧
    ∀ piece ∈ pieces, Opens Word.isPreposition piece := by
  induction words using cut_induction Word.isPreposition with
  | plain words hwords => exact ⟨words, [], by simp [joined], hwords, by simp⟩
  | cut piece s rest hpiece hs ih =>
    obtain ⟨verb, pieces, rfl, hverb, hpieces⟩ := ih
    exact ⟨piece, (s :: verb) :: pieces, by simp [joined], hpiece,
      List.forall_mem_cons.2 ⟨⟨s, verb, rfl, hs, hverb⟩, hpieces⟩⟩

theorem governed_of_predicate {p : Predicate} (h : (predicate lex clause : Except ParseError Predicate) = .ok p) :
    ∃ (particle : Particle) (words : List String), particle.isGoverning = true ∧ words ≠ [] ∧
      clause = particle.word :: words := by
  have hgov : ∃ particle, (governor clause : Except ParseError Particle) = .ok particle := by
    unfold predicate at h
    split at h
    · exact absurd h throw_ne_ok
    split at h
    · unfold transitive at h
      split at h
      · exact absurd h throw_ne_ok
      · obtain ⟨particle, hparticle, -⟩ := bind_eq_ok.1 h
        exact ⟨particle, hparticle⟩
    · unfold intransitive at h
      split at h
      · exact absurd h throw_ne_ok
      · obtain ⟨particle, hparticle, -⟩ := bind_eq_ok.1 h
        exact ⟨particle, hparticle⟩
  obtain ⟨particle, hparticle⟩ := hgov
  obtain ⟨hgov, words, rfl⟩ := governor_eq_ok.1 hparticle
  refine ⟨particle, words, hgov, ?_, rfl⟩
  rintro rfl
  simp [predicate] at h

theorem predicate_governed {particle : Particle} {words : List String} (hgov : particle.isGoverning = true)
    (hne : words ≠ []) : (predicate lex (particle.word :: words) : Except ParseError Predicate) =
      if Particle.e.word ∈ words then transitive lex (particle.word :: words)
      else intransitive lex (particle.word :: words) := by
  have hlength : ¬ (particle.word :: words).length < 2 := by
    have := List.length_pos_iff.2 hne
    simp only [List.length_cons]
    omega
  have hisIn : Particle.e.isIn (particle.word :: words) = true ↔ Particle.e.word ∈ words := by
    simp [Particle.isIn_iff, (word_ne_e hgov).symm]
  simp only [predicate, if_neg hlength, hisIn]

theorem readsPredicate_of_intransitive {particle : Particle} {verb : List String} {pieces : List (List String)}
    {p : Predicate} (hgov : particle.isGoverning = true) (hne : joined verb [] pieces ≠ [])
    (he : ∀ w ∈ verb, isE w = false) (hverb : NoPreposition verb)
    (hpieces : ∀ piece ∈ pieces, Opens Word.isPreposition piece)
    (h : (intransitive lex (particle.word :: joined verb [] pieces) : Except ParseError Predicate) = .ok p) :
    ReadsPredicate lex (particle.word :: joined verb [] pieces) p := by
  obtain ⟨kind, hkind, phrases, hphrases, rfl⟩ := (intransitive_eq_ok hgov hverb hpieces).1 h
  rcases settleVerb_cases kind pieces with hfull | ⟨rfl, before, w, after, rfl, hbefore⟩
  · rw [settleVerb_of_full hfull] at hphrases ⊢
    exact .intransitive hgov hne he hverb hkind hfull hphrases
  · obtain rfl := predicateKind_eq_none hkind
    rw [settleVerb_append hbefore] at hphrases ⊢
    obtain ⟨s, body, heq, hs, -⟩ := hpieces [w] (by simp)
    obtain ⟨rfl, rfl⟩ := List.cons.inj heq
    exact .promoted hgov hs hbefore hphrases

theorem predicate_of_intransitive {particle : Particle} {verb : List String} {pieces : List (List String)}
    {kind : Option PredicateKind} {settled : PredicateKind} {rest : List (List String)} {phrases : List PrepPhrase}
    (hgov : particle.isGoverning = true) (hne : joined verb [] pieces ≠ []) (he : ∀ w ∈ verb, isE w = false)
    (hverb : NoPreposition verb)
    (hpieces : ∀ piece ∈ pieces, Opens Word.isPreposition piece ∧ ∀ w ∈ piece, isE w = false)
    (hkind : (predicateKind lex verb : Except ParseError (Option PredicateKind)) = .ok kind)
    (hsettled : settleVerb kind pieces = (settled, rest)) (hphrases : List.Forall₂ (ReadsPrepPhrase lex) rest phrases) :
    (predicate lex (particle.word :: joined verb [] pieces) : Except ParseError Predicate) =
      .ok ⟨particle, settled, none, phrases⟩ := by
  rw [predicate_governed hgov hne, if_neg (e_notMem_joined he (fun q hq ↦ (hpieces q hq).2))]
  refine (intransitive_eq_ok hgov hverb (fun q hq ↦ (hpieces q hq).1)).2 ⟨kind, hkind, phrases, ?_, ?_⟩
  · rwa [hsettled]
  · rw [hsettled]

theorem predicate_eq_ok {p : Predicate} :
    (predicate lex clause : Except ParseError Predicate) = .ok p ↔ ReadsPredicate lex clause p := by
  constructor
  · intro h
    obtain ⟨particle, words, hgov, hne, rfl⟩ := governed_of_predicate h
    rw [predicate_governed hgov hne] at h
    split at h
    case isTrue he =>
      obtain ⟨verb, init, last, pieces, rfl, hcut⟩ := exists_isCut he
      obtain ⟨kind, hkind, chains, hchains, phrases, hphrases, rfl⟩ := (transitive_eq_ok hgov hcut).1 h
      exact .transitive hgov hcut hkind hchains hphrases
    case isFalse he =>
      obtain ⟨verb, pieces, rfl, hverb, hpieces⟩ := exists_joined words
      refine readsPredicate_of_intransitive hgov hne (fun w hw ↦ ?_) hverb hpieces h
      rw [isE_eq_false]
      rintro rfl
      exact he (by simp [joined, hw])
  · intro h
    cases h with
    | transitive hgov hcut hkind hchains hphrases =>
      rw [predicate_governed hgov (by simp [joined]), if_pos (by simp [joined])]
      exact (transitive_eq_ok hgov hcut).2 ⟨_, hkind, _, hchains, _, hphrases, rfl⟩
    | @intransitive particle verb kind pieces phrases hgov hne he hverb hkind hfull hphrases =>
      exact predicate_of_intransitive hgov hne he hverb (opens_of_reads hphrases) hkind (settleVerb_of_full hfull) hphrases
    | @promoted particle before after w phrases hgov hw hfull hphrases =>
      have hkind : (predicateKind lex [] : Except ParseError (Option PredicateKind)) = .ok none := rfl
      exact predicate_of_intransitive hgov (by simp [joined]) (by simp) (by simp [NoPreposition])
        (opens_of_promoted hw hphrases) hkind (settleVerb_append hfull w after) hphrases

end Reading

/-- What a predicate has to be for its spelling to be read as it. A verb that was a preposition without complement has
lost its mark, so it must be no particle that a clause is cut at, and no preposition in turn. -/
structure Predicate.IsRereadable (dialect : Dialect) (p : Predicate) : Prop where
  complements : ∀ q ∈ p.prepositions, q.KeepsEn
  verb_ne_nil : p.objects.isSome = true → p.kind.spelling ≠ []
  dialect : ∀ c, p.kind = .pi c → p.particle = .li ∧ dialect.liPi = true
  verb : p.objects = none → ∀ v, p.kind = .verb v → ∀ w ∈ v.words.head?,
    Reading.IsQuiet w ∧ Word.isPreposition w = false

namespace Reading

variable {lex : Lexicon}

theorem spelling_transitive {particle : Particle} {verb : List String} {kind : Option PredicateKind}
    {objects : List (List String)} {chains : List Chain} {phrases : List PrepPhrase}
    (hkind : (predicateKind lex verb : Except ParseError (Option PredicateKind)) = .ok kind)
    (hchains : List.Forall₂ (fun object c ↦ (chain lex object : Except ParseError Chain) = .ok c) objects chains) :
    Predicate.spelling ⟨particle, kind.getD (.verb {}), some (.links .e chains), phrases⟩ =
      particle.word :: joined verb objects (phrases.map PrepPhrase.spelling) := by
  have hmap := map_eq_map_of_forall₂ hchains (f := id) (fun object _ c hc ↦ spelling_chain hc)
  simp [Predicate.spelling, spelling_predicateKind hkind, Chain.spelling, hmap, joined, List.flatMap_def]

theorem spelling_intransitive {particle : Particle} {verb : List String} {kind : PredicateKind}
    {phrases : List PrepPhrase} (hkind : kind.spelling = verb) :
    Predicate.spelling ⟨particle, kind, none, phrases⟩ =
      particle.word :: joined verb [] (phrases.map PrepPhrase.spelling) := by
  simp [Predicate.spelling, hkind, joined, List.flatMap_def]

theorem readsPrepPhrases_spelling {pieces : List (List String)} {phrases : List PrepPhrase}
    (h : List.Forall₂ (ReadsPrepPhrase lex) pieces phrases) (hen : ∀ q ∈ phrases, q.KeepsEn) :
    List.Forall₂ (ReadsPrepPhrase lex) (phrases.map PrepPhrase.spelling) phrases := by
  induction h with
  | nil => exact .nil
  | cons hp _ ih =>
    exact .cons (hp.spelling (hen _ (by simp))) (ih (fun q hq ↦ hen q (by simp [hq])))

theorem ReadsPrepPhrase.length_spelling {piece : List String} {p : PrepPhrase} (h : ReadsPrepPhrase lex piece p)
    (hlength : piece.length ≠ 1) : p.spelling.length ≠ 1 := by
  rw [h.spelling_eq]
  obtain ⟨w, words, rfl, hw, hwords, -, hgoverned⟩ := h
  rcases (complement_eq_ok hwords).1 hgoverned with ⟨rfl, -⟩ | ⟨-, c, hc, -⟩
  · simp at hlength
  · obtain ⟨-, -, -, first, hfirst, -⟩ := coordinationOver_eq_ok.1 hc
    have hne := (spelling_coordinationFirst (fun _ _ ↦ spelling_phrase) hfirst).2.1
    simpa [tidyPiece] using hne

theorem ReadsPredicate.spelling {clause : List String} {p : Predicate} {dialect : Dialect}
    (h : ReadsPredicate lex clause p) (hp : p.IsRereadable dialect) : ReadsPredicate lex p.spelling p := by
  cases h with
  | transitive hgov hcut hkind hchains hphrases =>
    rw [spelling_transitive hkind hchains]
    have hagain := readsPrepPhrases_spelling hphrases hp.complements
    have hopens := opens_of_reads hagain
    exact .transitive hgov ⟨hcut.plain, fun piece hpiece ↦ (hopens piece hpiece).1, hcut.verb, hcut.init, hcut.last,
      fun piece hpiece ↦ (hopens piece hpiece).2⟩ hkind hchains hagain
  | @intransitive particle verb kind pieces phrases hgov hne he hverb hkind hfull hphrases =>
    rw [spelling_intransitive (spelling_predicateKind hkind)]
    have hagain := readsPrepPhrases_spelling hphrases hp.complements
    refine .intransitive hgov (fun hnil ↦ hne ?_) he hverb hkind (fun hnone piece hpiece ↦ ?_) hagain
    · cases hphrases with
      | nil => exact hnil
      | cons hq _ =>
        have hopen := (hq.spelling (hp.complements _ (by simp))).opens
        simp [joined, hopen.ne_nil] at hnil
    · obtain ⟨q, hq, rfl⟩ := List.mem_map.1 hpiece
      obtain ⟨piece, hmem, hread⟩ := forall₂_exists_of_mem hphrases.flip hq
      exact ReadsPrepPhrase.length_spelling hread (hfull hnone piece hmem)
  | @promoted particle before after w phrases hgov hw hfull hphrases =>
    -- Written without its mark, the preposition is no preposition any more, and is read as any other verb.
    obtain ⟨hquiet, hplain⟩ := hp.verb rfl _ rfl (Word.bare w) (by simp [VerbPhrase.words, VerbPhrase.lexemes, Lexeme.words])
    have hwritten : (PredicateKind.verb { head := some (.word (Word.bare w)) }).spelling = [Word.bare w] := by
      simp [PredicateKind.spelling, VerbPhrase.words, VerbPhrase.lexemes, Lexeme.words]
    rw [spelling_intransitive hwritten]
    have hkind : (predicateKind lex [Word.bare w] : Except ParseError (Option PredicateKind)) =
        .ok (some (.verb { head := some (.word (Word.bare w)) })) := by
      rw [predicateKind_eq_ok, ← verbPhrase_singleton lex]
      refine .verb (by simp) (fun hmem ↦ hquiet.1 ⟨.pi, rfl, ?_⟩)
      exact (List.mem_singleton.1 hmem).symm
    have hreads := readsPrepPhrases_spelling hphrases hp.complements
    refine ReadsPredicate.intransitive hgov (by simp [joined]) ?_ ?_ hkind (by simp) hreads
    · simpa [isE] using fun heq ↦ hquiet.1 ⟨.e, rfl, heq⟩
    · simpa [NoPreposition] using hplain

theorem mem_of_mem_tidyPiece {piece : List String} {w : String} (h : w ∈ tidyPiece piece) : w ∈ piece := by
  cases piece with
  | nil => simp [tidyPiece] at h
  | cons v words => exact (List.mem_cons.1 h).elim (fun heq ↦ by simp [heq]) (fun h ↦ by simp [mem_of_mem_tidy h])

theorem mem_of_mem_spellings {pieces : List (List String)} {phrases : List PrepPhrase}
    (h : List.Forall₂ (ReadsPrepPhrase lex) pieces phrases) {w : String}
    (hw : w ∈ (phrases.map PrepPhrase.spelling).flatten) : w ∈ pieces.flatten := by
  rw [map_eq_map_of_forall₂ h (fun piece _ q hq ↦ hq.spelling_eq)] at hw
  obtain ⟨run, hrun, hw⟩ := List.mem_flatten.1 hw
  obtain ⟨piece, hpiece, rfl⟩ := List.mem_map.1 hrun
  exact List.mem_flatten.2 ⟨piece, hpiece, mem_of_mem_tidyPiece hw⟩

theorem ReadsPredicate.mem_spelling {clause : List String} {p : Predicate} (h : ReadsPredicate lex clause p) :
    ∃ body tail, clause = p.particle.word :: body ∧ p.spelling = p.particle.word :: tail ∧ ∀ w ∈ tail,
      w ∈ body ∨ (p.objects = none ∧ ∃ v, p.kind = .verb v ∧ w ∈ v.words.head?) := by
  cases h with
  | transitive hgov hcut hkind hchains hphrases =>
    refine ⟨_, _, rfl, spelling_transitive hkind hchains, fun w hw ↦ .inl ?_⟩
    simp only [joined, List.mem_append] at hw ⊢
    exact hw.imp_right (mem_of_mem_spellings hphrases)
  | intransitive hgov hne he hverb hkind hfull hphrases =>
    refine ⟨_, _, rfl, spelling_intransitive (spelling_predicateKind hkind), fun w hw ↦ .inl ?_⟩
    simp only [joined, List.mem_append] at hw ⊢
    exact hw.imp_right (mem_of_mem_spellings hphrases)
  | @promoted particle before after v phrases hgov hv hfull hphrases =>
    refine ⟨_, _, rfl, spelling_intransitive rfl, fun w hw ↦ ?_⟩
    simp only [joined, List.mem_append, List.flatMap_nil, List.not_mem_nil, or_false] at hw
    rcases hw with hw | hw
    · right
      refine ⟨rfl, _, rfl, ?_⟩
      simpa [PredicateKind.spelling, VerbPhrase.words, VerbPhrase.lexemes, Lexeme.words, eq_comm] using hw
    · left
      have hw' := mem_of_mem_spellings hphrases hw
      simp only [joined, List.flatMap_nil, List.nil_append, List.flatten_append, List.flatten_cons, List.mem_append] at hw' ⊢
      tauto

end TokiPona.Reading
