import TokiPona.Proofs.Spelling

namespace TokiPona.Reading

variable {lex : Lexicon} {words : List String} {c : Chain}

/-- What single words stand for, and where phrases and chains keep it. Neither `pi` nor `en` stands for anything. -/
structure Yield (β : Type) where
  ofWord : String → List β
  phrase : Phrase → List β
  prepPhrase : PrepPhrase → List β
  chain : Chain → List β
  ofWord_pi : ofWord Particle.pi.word = []
  ofWord_en : ofWord Particle.en.word = []
  phrase_mk : ∀ head modifiers prepositions,
    (∀ w ∈ head.words ++ modifiers.flatMap Lexeme.words, IsPhraseWord w ∧ Word.isPreposition w = false) →
      phrase ⟨head, modifiers, prepositions⟩ =
        (head.words ++ modifiers.flatMap Lexeme.words).flatMap ofWord ++ prepositions.flatMap prepPhrase
  prepPhrase_mk : ∀ w complement, Word.isPreposition w = true →
    prepPhrase ⟨Word.bare w, complement⟩ = ofWord w ++ complement.toList.flatMap chain
  chain_phrases : ∀ p phrases, chain (.phrases p phrases) = phrases.flatMap phrase
  chain_links : ∀ p links, chain (.links p links) = links.flatMap chain

namespace Yield

variable {β : Type} (y : Yield β)

def ofWords (words : List String) : List β := words.flatMap y.ofWord

@[simp] theorem ofWords_append (words words' : List String) :
    y.ofWords (words ++ words') = y.ofWords words ++ y.ofWords words' := List.flatMap_append

theorem ofWords_flatten (runs : List (List String)) : y.ofWords runs.flatten = runs.flatMap y.ofWords := by
  induction runs with
  | nil => rfl
  | cons run runs ih => rw [List.flatten_cons, ofWords_append, ih, List.flatMap_cons]

theorem ofWords_splitDropping {p : String → Bool} (hp : ∀ w, p w = true → y.ofWord w = []) :
    (splitDropping p words).flatMap y.ofWords = y.ofWords words := by
  rw [← ofWords_flatten, flatten_splitDropping]
  induction words with
  | nil => rfl
  | cons w words ih =>
    cases hw : p w with
    | false => simpa [ofWords, hw] using ih
    | true => simpa [ofWords, hw, hp w hw] using ih

theorem ofWord_of_isPi (w : String) (h : isPi w = true) : y.ofWord w = [] := by
  rw [eq_of_isPi w h, y.ofWord_pi]

theorem ofWord_of_isEn (w : String) (h : isEn w = true) : y.ofWord w = [] := by
  rw [eq_of_isEn w h, y.ofWord_en]

theorem ofWords_filter (runs : List (List String)) :
    (runs.filter (!·.isEmpty)).flatMap y.ofWords = runs.flatMap y.ofWords := by
  induction runs with
  | nil => rfl
  | cons run runs ih =>
    cases run with
    | nil => simpa [ofWords] using ih
    | cons w run => simp [ih]

theorem flatMap_of_forall₂ {γ : Type} {R : List String → γ → Prop} {f : γ → List β} {runs : List (List String)} {ys : List γ}
    (h : List.Forall₂ R runs ys) (hf : ∀ run ∈ runs, ∀ a, R run a → f a = y.ofWords run) :
    ys.flatMap f = runs.flatMap y.ofWords := by
  rw [List.flatMap_def, map_eq_map_of_forall₂ h hf, List.flatMap_def]

theorem of_links {p : Particle} {read : List String → Except ParseError Chain} {runs : List (List String)}
    (hread : ∀ run ∈ runs, ∀ link, read run = .ok link → y.chain link = y.ofWords run)
    (h : (runs.mapM read >>= chainOfLinks p) = .ok c) : y.chain c = runs.flatMap y.ofWords := by
  obtain ⟨links, -, hlinks, rfl⟩ := links_eq_ok.1 h
  rw [y.chain_links, y.flatMap_of_forall₂ hlinks hread]

section

variable {y} {ph : List String → Except ParseError Phrase}
variable (hph : ∀ piece p, (∀ w ∈ piece, w ∈ words) → ph piece = .ok p → y.phrase p = y.ofWords piece)
include hph

theorem of_piChain {run : List String} (hrun : ∀ w ∈ run, w ∈ words) (h : piChain ph run = .ok c) :
    y.chain c = y.ofWords run := by
  obtain ⟨-, -, phrases, hphrases, rfl⟩ := piChain_eq_ok.1 h
  rw [y.chain_phrases, y.flatMap_of_forall₂ hphrases, y.ofWords_splitDropping y.ofWord_of_isPi]
  exact fun piece hpiece p ↦ hph piece p (fun w hw ↦ hrun w (mem_of_mem_splitDropping hpiece w hw))

theorem of_coordinationFirst (h : coordinationFirst ph words = .ok c) : y.chain c = y.ofWords words := by
  have hlink : ∀ run ∈ (splitDropping isEn words).filter (!·.isEmpty), ∀ link,
      ((splitDropping isPi run).mapM (piChain ph) >>= chainOfLinks .pi) = .ok link → y.chain link = y.ofWords run := by
    intro run hrun link hlink
    have hmem := mem_of_mem_splitDropping (List.mem_filter.1 hrun).1
    rw [y.of_links (fun part hpart _ ↦ of_piChain hph
      (fun w hw ↦ hmem w (mem_of_mem_splitDropping hpart w hw))) hlink, y.ofWords_splitDropping y.ofWord_of_isPi]
  rw [y.of_links hlink h, y.ofWords_filter, y.ofWords_splitDropping y.ofWord_of_isEn]

theorem of_modificationFirst (h : modificationFirst ph words = .ok c) : y.chain c = y.ofWords words := by
  have hlink : ∀ run ∈ (splitDropping isPi words).filter (!·.isEmpty), ∀ link,
      (((splitDropping isEn run).filter (!·.isEmpty)).mapM (piChain ph) >>= chainOfLinks .en) = .ok link →
        y.chain link = y.ofWords run := by
    intro run hrun link hlink
    have hmem := mem_of_mem_splitDropping (List.mem_filter.1 hrun).1
    rw [y.of_links (fun part hpart _ ↦ of_piChain hph
      (fun w hw ↦ hmem w (mem_of_mem_splitDropping (List.mem_filter.1 hpart).1 w hw))) hlink,
      y.ofWords_filter, y.ofWords_splitDropping y.ofWord_of_isEn]
  rw [y.of_links hlink h, y.ofWords_filter, y.ofWords_splitDropping y.ofWord_of_isPi]

theorem of_coordinationOver (h : coordinationOver ph words = .ok c) : y.chain c = y.ofWords words := by
  obtain ⟨-, -, -, first, hfirst, ⟨-, rfl⟩ | ⟨-, -, hsecond⟩⟩ := coordinationOver_eq_ok.1 h
  · exact of_coordinationFirst hph hfirst
  · exact of_modificationFirst hph hsecond

end

theorem of_phrase_of {p : Phrase} (h : (Reading.phrase lex words : Except ParseError Phrase) = .ok p)
    (hprep : ∀ piece ∈ (splitBefore Word.isPreposition words).tail, ∀ q, ReadsPrepPhrase lex piece q →
      y.prepPhrase q = y.ofWords piece) : y.phrase p = y.ofWords words := by
  obtain ⟨hwords, first, pieces, hsplit, hfirst, hlexemes, hpieces⟩ := phrase_eq_ok.1 h
  rw [hsplit, List.tail_cons] at hprep
  have hmem : ∀ w ∈ first, IsPhraseWord w :=
    fun w hw ↦ hwords w (mem_of_mem_splitBefore (by simp [hsplit] : first ∈ splitBefore Word.isPreposition words) w hw)
  have hflat := flatten_splitBefore Word.isPreposition words
  rw [hsplit] at hflat
  obtain ⟨head, modifiers, prepositions⟩ := p
  have hhead : head.words ++ modifiers.flatMap Lexeme.words = first := words_of_lexemes hlexemes
  rw [y.phrase_mk _ _ _ (by rw [hhead]; exact fun w hw ↦ ⟨hmem w hw, hfirst w hw⟩), hhead,
    y.flatMap_of_forall₂ hpieces hprep, ← hflat, y.ofWords_flatten, List.flatMap_cons]
  rfl

theorem of_coordination_of_plain (hplain : NoPreposition words)
    (h : (coordination lex words : Except ParseError Chain) = .ok c) : y.chain c = y.ofWords words := by
  refine of_coordinationOver (fun piece p hsub hp ↦ y.of_phrase_of hp (fun q hq ↦ ?_)) h
  have hpiece : splitBefore Word.isPreposition piece = [piece] := by
    refine splitBefore_of_tail (fun hnil ↦ ?_) (fun w hw ↦ hplain w (hsub w (List.mem_of_mem_tail hw)))
    simp [hnil, Reading.phrase] at hp
  simp [hpiece] at hq

theorem of_readsPrepPhrase {piece : List String} {p : PrepPhrase} (h : ReadsPrepPhrase lex piece p) :
    y.prepPhrase p = y.ofWords piece := by
  obtain ⟨preposition, governed⟩ := p
  obtain ⟨w, rest, rfl, hw, hrest, rfl, hgoverned⟩ := h
  have hcons : y.ofWords (w :: rest) = y.ofWord w ++ y.ofWords rest := List.flatMap_cons
  rw [y.prepPhrase_mk w governed hw, hcons]
  rcases (complement_eq_ok hrest).1 hgoverned with ⟨rfl, rfl⟩ | ⟨-, c, hc, rfl⟩
  · rfl
  · simp [y.of_coordination_of_plain hrest hc]

theorem of_phrase {p : Phrase} (h : (Reading.phrase lex words : Except ParseError Phrase) = .ok p) :
    y.phrase p = y.ofWords words :=
  y.of_phrase_of h (fun _ _ _ ↦ y.of_readsPrepPhrase)

theorem of_chain (h : (Reading.chain lex words : Except ParseError Chain) = .ok c) : y.chain c = y.ofWords words :=
  of_piChain (fun _ _ _ ↦ y.of_phrase) (fun _ hw ↦ hw) h

theorem of_coordination (h : (coordination lex words : Except ParseError Chain) = .ok c) : y.chain c = y.ofWords words :=
  of_coordinationOver (fun _ _ _ ↦ y.of_phrase) h

end Yield

def bareWords (words : List String) : List String := (words.filter fun w ↦ !isPi w && !isEn w).map Word.bare

def wordYield : Yield String where
  ofWord w := if isPi w || isEn w then [] else [Word.bare w]
  phrase := Phrase.words
  prepPhrase := PrepPhrase.words
  chain := Chain.words
  ofWord_pi := rfl
  ofWord_en := rfl
  phrase_mk head modifiers prepositions h := by
    have hself : ∀ w ∈ head.words ++ modifiers.flatMap Lexeme.words,
        (if isPi w || isEn w then [] else [Word.bare w]) = [w] := by
      intro w hw
      obtain ⟨hword, hplain⟩ := h w hw
      simp [isPi, isEn, hword .pi (by simp), hword .en (by simp), bare_of_isPreposition_eq_false hplain]
    rw [Phrase.words, PrepPhrase.wordLists_eq_map, List.flatMap_congr hself, List.flatMap_singleton', ← List.flatMap_def]
  prepPhrase_mk w complement hw := by
    have hmark (p : Particle) (hp : Word.isPreposition p.word = false) : w ≠ p.word := by
      rintro rfl
      simp [hp] at hw
    have hne : (isPi w || isEn w) = false := by simp [isPi, isEn, hmark .pi (by decide), hmark .en (by decide)]
    cases complement <;> simp [PrepPhrase.words, hne]
  chain_phrases p phrases := by simp [Chain.words, List.flatMap_def]
  chain_links p links := by simp [Chain.words, List.flatMap_def]

theorem ofWords_wordYield (words : List String) : wordYield.ofWords words = bareWords words := by
  induction words with
  | nil => rfl
  | cons w words ih =>
    have hcons : wordYield.ofWords (w :: words) = wordYield.ofWord w ++ wordYield.ofWords words := List.flatMap_cons
    rw [hcons, ih, bareWords, bareWords]
    cases hpi : isPi w <;> cases hen : isEn w <;> simp [wordYield, hpi, hen]

theorem words_coordination (h : (coordination lex words : Except ParseError Chain) = .ok c) : c.words = bareWords words := by
  rw [← ofWords_wordYield]
  exact wordYield.of_coordination h

end TokiPona.Reading
