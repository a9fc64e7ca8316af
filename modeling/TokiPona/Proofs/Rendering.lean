import Mathlib.Logic.Relation
import TokiPona.Proofs.ChainWords
import TokiPona.Proofs.Recall

namespace TokiPona.Reading

/-- A run, and what is left of it without an `en` at its start, at its end or right after another. -/
inductive DropsEn : List String → List String → Prop
  | first (words : List String) : DropsEn (Particle.en.word :: words) words
  | last (words : List String) : DropsEn (words ++ [Particle.en.word]) words
  | doubled (before after : List String) :
      DropsEn (before ++ Particle.en.word :: Particle.en.word :: after) (before ++ Particle.en.word :: after)

/-- What is left of a run once no `en` can be dropped any more. -/
structure Tidied (words kept : List String) : Prop where
  drops : Relation.ReflTransGen DropsEn words kept
  done : ∀ rest, ¬ DropsEn kept rest

theorem tidy_append_cons (before after : List String) :
    tidy (before ++ Particle.en.word :: after) = [Particle.en.word].intercalate
      ((splitDropping isEn before).filter (!·.isEmpty) ++ (splitDropping isEn after).filter (!·.isEmpty)) := by
  rw [tidy, splitDropping_append_cons isEn_word, List.filter_append]

theorem DropsEn.tidy_eq {words rest : List String} (h : DropsEn words rest) : tidy words = tidy rest := by
  cases h with
  | first => exact tidy_en_cons rest
  | last =>
    rw [tidy_append_cons, tidy]
    simp [splitDropping]
  | doubled before after =>
    rw [tidy_append_cons, tidy_append_cons, splitDropping, if_pos isEn_word]
    simp

theorem DropsEn.length_lt {words rest : List String} (h : DropsEn words rest) : rest.length < words.length := by
  cases h <;> simp

theorem DropsEn.append_left {words rest : List String} (h : DropsEn words rest) (piece : List String) :
    DropsEn (piece ++ Particle.en.word :: words) (piece ++ Particle.en.word :: rest) := by
  cases h with
  | first => exact .doubled piece rest
  | last => simpa using DropsEn.last (piece ++ Particle.en.word :: rest)
  | doubled before after => simpa using DropsEn.doubled (piece ++ Particle.en.word :: before) after

theorem tidy_of_done {words : List String} (h : ∀ rest, ¬ DropsEn words rest) : tidy words = words := by
  induction words using cut_induction isEn with
  | plain words hwords => exact tidy_of_forall hwords
  | cut piece s words hpiece hs ih =>
    obtain rfl := eq_of_isEn s hs
    have hpne : piece ≠ [] := by
      rintro rfl
      exact h words (.first words)
    have hne : words ≠ [] := by
      rintro rfl
      exact h piece (.last piece)
    have hwords := ih (fun rest hrest ↦ h _ (hrest.append_left piece))
    rw [tidy_append_en hpne hpiece, if_neg (by rwa [hwords]), hwords]

theorem exists_tidied (words : List String) : ∃ kept, Tidied words kept := by
  induction hn : words.length using Nat.strongRecOn generalizing words with
  | _ n ih =>
    by_cases h : ∃ rest, DropsEn words rest
    · obtain ⟨rest, hrest⟩ := h
      obtain ⟨kept, hkept⟩ := ih rest.length (hn ▸ hrest.length_lt) rest rfl
      exact ⟨kept, .head hrest hkept.drops, hkept.done⟩
    · exact ⟨words, .refl, fun rest hrest ↦ h ⟨rest, hrest⟩⟩

theorem tidy_eq_of_drops {words kept : List String} (h : Relation.ReflTransGen DropsEn words kept) :
    tidy words = tidy kept := by
  induction h with
  | refl => rfl
  | tail _ hstep ih => exact ih.trans hstep.tidy_eq

/-- Whichever `en` is dropped first, the same words are left. -/
theorem Tidied.eq_tidy {words kept : List String} (h : Tidied words kept) : kept = tidy words := by
  rw [tidy_eq_of_drops h.drops, tidy_of_done h.done]

theorem tidied_iff {words kept : List String} : Tidied words kept ↔ kept = tidy words := by
  refine ⟨Tidied.eq_tidy, ?_⟩
  rintro rfl
  obtain ⟨kept, hkept⟩ := exists_tidied words
  rwa [← hkept.eq_tidy]

/-- A chain is written as its run with every idle `en` dropped, and holds the words of the run in their order, without
marks and without `pi` and `en`. It is the same chain with a memory of what was read before. -/
theorem text_coordination (lex : Lexicon) {words : List String} {c : Chain}
    (h : (coordination lex words : Except ParseError Chain) = .ok c) :
    (∃ kept, Tidied words kept) ∧ (∀ kept, Tidied words kept → c.text = Word.spaced kept) ∧
      c.words = bareWords words ∧
      ∀ memory : Memory, memory.IsSound lex → Solid words →
        ((coordination lex words : Remembering Chain).run.run memory).1 = .ok c := by
  refine ⟨exists_tidied words, fun kept hkept ↦ ?_, words_coordination h, fun memory hmemory hwords ↦ ?_⟩
  · rw [hkept.eq_tidy, ← spelling_coordination h, Chain.text]
  · rw [(agrees_coordination hwords memory hmemory).1, h]

theorem text_coordination_fallback :
    let words := ["en", "kule", "pi", "walo", "en", "en", "pimeja", "~lon", "tomo", "en", "en"]
    ∃ c, (coordination Dictionary.standard.lexicon words : Except ParseError Chain) = .ok c ∧ c.particle = .pi ∧
      c.text = "kule pi walo en pimeja ~lon tomo" ∧ c.words = ["kule", "walo", "pimeja", "lon", "tomo"] := by
  intro words
  obtain ⟨c, hc, hparticle⟩ := map_eq_ok.1 (show Chain.particle <$>
    (coordination Dictionary.standard.lexicon words : Except ParseError Chain) = .ok .pi by decide +kernel)
  obtain ⟨-, htext, hwords, -⟩ := text_coordination _ hc
  refine ⟨c, hc, hparticle, ?_, hwords⟩
  exact htext ["kule", "pi", "walo", "en", "pimeja", "~lon", "tomo"] (tidied_iff.2 (by decide))

variable {lex : Lexicon} {clause : List String}

/-- The words of a clause from the first preposition after its last `e` on, or simply from its first preposition on. -/
def prepositionPart (clause : List String) : List String :=
  ((splitDropping isE clause).getLast?.getD []).dropWhile (!Word.isPreposition ·)

def prepositionPieces (clause : List String) : List (List String) :=
  splitBefore Word.isPreposition (prepositionPart clause)

def TidiesPiece (piece kept : List String) : Prop :=
  ∃ w words rest, piece = w :: words ∧ kept = w :: rest ∧ Tidied words rest

/-- How a clause is written. Nothing moves, unless its particle has no other word before the first preposition: then the
first preposition without complement is written as the verb. -/
inductive Written (clause : List String) : List String → Prop
  | inPlace {stem : List String} {kept : List (List String)} (hstem : clause = stem ++ prepositionPart clause)
      (hverb : stem.length = 1 → ∀ piece ∈ prepositionPieces clause, piece.length ≠ 1)
      (hkept : List.Forall₂ TidiesPiece (prepositionPieces clause) kept) : Written clause (stem ++ kept.flatten)
  | asVerb {v w : String} {before after kept : List (List String)} (hstem : clause = v :: prepositionPart clause)
      (hpieces : prepositionPieces clause = before ++ [w] :: after) (hbefore : ∀ piece ∈ before, piece.length ≠ 1)
      (hkept : List.Forall₂ TidiesPiece (before ++ after) kept) : Written clause (v :: Word.bare w :: kept.flatten)

theorem tidiesPiece_iff {piece kept : List String} (hne : piece ≠ []) :
    TidiesPiece piece kept ↔ kept = tidyPiece piece := by
  cases piece with
  | nil => exact absurd rfl hne
  | cons w words => simp [TidiesPiece, tidied_iff, tidyPiece, and_assoc]

theorem TidiesPiece.ne_nil {piece kept : List String} (h : TidiesPiece piece kept) : piece ≠ [] := by
  obtain ⟨w, words, -, rfl, -, -⟩ := h
  simp

theorem eq_map_of_tidiesPiece {pieces kept : List (List String)} (h : List.Forall₂ TidiesPiece pieces kept) :
    kept = pieces.map tidyPiece := by
  have hmap := map_eq_map_of_forall₂ h (f := tidyPiece) (g := id)
    (fun piece _ kept hkept ↦ (tidiesPiece_iff hkept.ne_nil).1 hkept)
  rwa [List.map_id] at hmap

theorem forall₂_tidiesPiece {pieces : List (List String)} (h : ∀ piece ∈ pieces, piece ≠ []) :
    List.Forall₂ TidiesPiece pieces (pieces.map tidyPiece) := by
  rw [List.forall₂_map_right_iff, List.forall₂_same]
  exact fun piece hpiece ↦ (tidiesPiece_iff (h piece hpiece)).2 rfl

/-- A clause is written in one way only. -/
theorem Written.unique {kept kept' : List String} (h : Written clause kept) (h' : Written clause kept') : kept = kept' := by
  cases h with
  | inPlace hstem hverb hkept =>
    cases h' with
    | inPlace hstem' hverb' hkept' =>
      rw [List.append_cancel_right (hstem.symm.trans hstem'), eq_map_of_tidiesPiece hkept, eq_map_of_tidiesPiece hkept']
    | @asVerb v w before after _ hstem' hpieces _ _ =>
      obtain rfl : _ = [v] := List.append_cancel_right (hstem.symm.trans hstem')
      exact absurd rfl (hverb rfl [w] (by simp [hpieces]))
  | @asVerb v w before after _ hstem hpieces hbefore hkept =>
    cases h' with
    | inPlace hstem' hverb' hkept' =>
      obtain rfl : _ = [v] := List.append_cancel_right (hstem'.symm.trans hstem)
      exact absurd rfl (hverb' rfl [w] (by simp [hpieces]))
    | @asVerb v' w' before' after' _ hstem' hpieces' hbefore' hkept' =>
      -- both take out the first preposition without complement
      have hsame := promoted?_append hbefore w after
      rw [← hpieces, hpieces', promoted?_append hbefore' w' after'] at hsame
      obtain ⟨hw, hrest⟩ := Prod.mk.inj (Option.some.inj hsame)
      rw [(List.cons.inj (hstem.symm.trans hstem')).1, hw, eq_map_of_tidiesPiece hkept, eq_map_of_tidiesPiece hkept',
        hrest]

section

variable {pieces : List (List String)} (hpieces : ∀ piece ∈ pieces, Opens Word.isPreposition piece)
include hpieces

theorem dropWhile_append_pieces {plain : List String} (hplain : NoPreposition plain) :
    (plain ++ pieces.flatten).dropWhile (!Word.isPreposition ·) = pieces.flatten := by
  rw [List.dropWhile_append_of_pos (fun w hw ↦ by simp [hplain w hw])]
  cases pieces with
  | nil => rfl
  | cons piece pieces =>
    obtain ⟨s, body, rfl, hs, -⟩ := hpieces piece (by simp)
    simp [hs]

theorem splitBefore_pieces : splitBefore Word.isPreposition pieces.flatten = pieces := by
  cases pieces with
  | nil => rfl
  | cons piece pieces =>
    obtain ⟨s, body, rfl, -, hbody⟩ := hpieces piece (by simp)
    exact splitBefore_append_flatten (by simp) hbody (fun q hq ↦ hpieces q (by simp [hq]))

theorem Written.of_inPlace (stem : List String) (hpart : prepositionPart (stem ++ pieces.flatten) = pieces.flatten)
    (hverb : stem.length = 1 → ∀ piece ∈ pieces, piece.length ≠ 1) :
    Written (stem ++ pieces.flatten) (stem ++ (pieces.map tidyPiece).flatten) := by
  have hcut : prepositionPieces (stem ++ pieces.flatten) = pieces := by
    rw [prepositionPieces, hpart, splitBefore_pieces hpieces]
  refine .inPlace (by rw [hpart]) (by rwa [hcut]) ?_
  rw [hcut]
  exact forall₂_tidiesPiece (fun piece hpiece ↦ (hpieces piece hpiece).ne_nil)

end

theorem prepositionPart_append (front plain : List String) {pieces : List (List String)}
    (hfront : front = [] ∨ front.getLast? = some Particle.e.word) (hplain : NoPreposition plain)
    (he : ∀ w ∈ plain, isE w = false)
    (hpieces : ∀ piece ∈ pieces, Opens Word.isPreposition piece ∧ ∀ w ∈ piece, isE w = false) :
    prepositionPart (front ++ (plain ++ pieces.flatten)) = pieces.flatten := by
  have hrun : ∀ w ∈ plain ++ pieces.flatten, isE w = false := by
    intro w hw
    rcases List.mem_append.1 hw with hw | hw
    · exact he w hw
    · obtain ⟨piece, hpiece, hw⟩ := List.mem_flatten.1 hw
      exact (hpieces piece hpiece).2 w hw
  have hlast : (splitDropping isE (front ++ (plain ++ pieces.flatten))).getLast? = some (plain ++ pieces.flatten) := by
    rcases hfront with rfl | hfront
    · rw [List.nil_append, splitDropping_of_forall hrun, List.getLast?_singleton]
    · obtain ⟨front, rfl⟩ := List.getLast?_eq_some_iff.1 hfront
      rw [List.append_assoc, List.singleton_append, splitDropping_append_cons isE_word, splitDropping_of_forall hrun,
        List.getLast?_concat]
  rw [prepositionPart, hlast]
  exact dropWhile_append_pieces (fun piece hpiece ↦ (hpieces piece hpiece).1) hplain

theorem ReadsPredicate.written {p : Predicate} (h : ReadsPredicate lex clause p) : Written clause p.spelling := by
  have hmap {pieces : List (List String)} {phrases : List PrepPhrase}
      (hphrases : List.Forall₂ (ReadsPrepPhrase lex) pieces phrases) :
      phrases.map PrepPhrase.spelling = pieces.map tidyPiece :=
    map_eq_map_of_forall₂ hphrases (fun _ _ _ hq ↦ hq.spelling_eq)
  cases h with
  | @transitive particle verb last kind init pieces chains phrases hgov hcut hkind hchains hphrases =>
    have hpieces := opens_of_reads hphrases
    rw [spelling_transitive hkind hchains, hmap hphrases]
    refine Written.of_inPlace (fun piece hpiece ↦ (hpieces piece hpiece).1)
      (particle.word :: verb ++ (init ++ [last]).flatMap (Particle.e.word :: ·)) ?_
      (fun hlength ↦ absurd hlength (by simp))
    have hpart := prepositionPart_append (particle.word :: verb ++ init.flatMap (Particle.e.word :: ·) ++
      [Particle.e.word]) last (.inr List.getLast?_concat) hcut.plain hcut.last hpieces
    simpa using hpart
  | @intransitive particle verb kind pieces phrases hgov hne he hverb hkind hfull hphrases =>
    have hpieces := opens_of_reads hphrases
    rw [spelling_intransitive (spelling_predicateKind hkind), hmap hphrases]
    have hpart := prepositionPart_append [] (particle.word :: verb) (.inl rfl)
      (List.forall_mem_cons.2 ⟨isPreposition_word particle, hverb⟩)
      (List.forall_mem_cons.2 ⟨isE_eq_false.2 (word_ne_e hgov), he⟩) hpieces
    have hwritten := Written.of_inPlace (fun piece hpiece ↦ (hpieces piece hpiece).1) _ hpart (fun hlength ↦ hfull ?_)
    · simpa [joined] using hwritten
    · obtain rfl : verb = [] := by simpa using hlength
      exact (pure_eq_ok.1 hkind).symm
  | @promoted particle before after w phrases hgov hw hfull hphrases =>
    have hall := opens_of_promoted hw hphrases
    have hpart := prepositionPart_append [] [particle.word] (.inl rfl)
      (List.forall_mem_singleton.2 (isPreposition_word particle))
      (List.forall_mem_singleton.2 (isE_eq_false.2 (word_ne_e hgov))) hall
    have hclause : particle.word :: joined [] [] (before ++ [w] :: after) =
        [] ++ ([particle.word] ++ (before ++ [w] :: after).flatten) := by simp [joined]
    rw [spelling_intransitive rfl, hmap hphrases, hclause]
    refine .asVerb ?_ (?_ : prepositionPieces _ = before ++ [w] :: after) hfull ?_
    · rw [hpart]
      rfl
    · rw [prepositionPieces, hpart, splitBefore_pieces (fun piece hpiece ↦ (hall piece hpiece).1)]
    · exact forall₂_tidiesPiece (fun piece hpiece ↦ (opens_of_reads hphrases piece hpiece).1.ne_nil)

/-- A predicate is written as its clause is: word for word, less the idle `en`s after its own prepositions, and but for a
preposition that becomes the verb. It is the same predicate with a memory of what was read before. -/
theorem text_predicate (lex : Lexicon) {clause : List String} {p : Predicate}
    (h : (predicate lex clause : Except ParseError Predicate) = .ok p) :
    (∃ kept, Written clause kept) ∧ (∀ kept, Written clause kept → p.text = Word.spaced kept) ∧
      ∀ memory : Memory, memory.IsSound lex → Solid clause →
        ((predicate lex clause : Remembering Predicate).run.run memory).1 = .ok p := by
  have hwritten := (predicate_eq_ok.1 h).written
  refine ⟨⟨p.spelling, hwritten⟩, fun kept hkept ↦ ?_, fun memory hmemory hclause ↦ ?_⟩
  · rw [hkept.unique hwritten, Predicate.text]
  · rw [(agrees_predicate hclause memory hmemory).1, h]

/-- The second preposition becomes the verb, and the first keeps its complement without the idle `en`s. -/
theorem text_predicate_moved :
    let clause := ["li", "~lon", "en", "tomo", "en", "en", "ma", "~tawa", "~kepeken"]
    ∃ p, (predicate Dictionary.standard.lexicon clause : Except ParseError Predicate) = .ok p ∧
      p.text = "li tawa ~lon tomo en ma ~kepeken" := by
  intro clause
  obtain ⟨p, hp, -⟩ := map_eq_ok.1 (show Predicate.particle <$>
    (predicate Dictionary.standard.lexicon clause : Except ParseError Predicate) = .ok .li by decide +kernel)
  obtain ⟨-, htext, -⟩ := text_predicate _ hp
  refine ⟨p, hp, htext ["li", "tawa", "~lon", "tomo", "en", "ma", "~kepeken"] ?_⟩
  have hpieces : prepositionPieces clause = [["~lon", "en", "tomo", "en", "en", "ma"]] ++ ["~tawa"] :: [["~kepeken"]] := by
    decide
  have hkept : List.Forall₂ TidiesPiece ([["~lon", "en", "tomo", "en", "en", "ma"]] ++ [["~kepeken"]])
      [["~lon", "tomo", "en", "ma"], ["~kepeken"]] := forall₂_tidiesPiece (by decide)
  exact .asVerb (by decide : clause = "li" :: prepositionPart clause) hpieces (by decide) hkept

end TokiPona.Reading
