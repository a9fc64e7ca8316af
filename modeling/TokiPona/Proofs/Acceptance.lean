import TokiPona.Dictionary.Standard
import TokiPona.Proofs.Recall

namespace TokiPona

theorem Phrase.singleWord?_eq_some {p : Phrase} {w : String} : p.singleWord? = some w ↔ p = ⟨.word w, [], []⟩ := by
  obtain ⟨head, modifiers, prepositions⟩ := p
  cases head <;> simp [Phrase.singleWord?, Lexeme.word?, and_comm]

theorem Chain.singleWord?_phrases {q : Particle} {phrases : List Phrase} {w : String} :
    (Chain.phrases q phrases).singleWord? = some w ↔ phrases = [⟨.word w, [], []⟩] := by
  match phrases with
  | [] => simp [Chain.singleWord?]
  | [p] => simp [Chain.singleWord?, Phrase.singleWord?_eq_some]
  | _ :: _ :: _ => simp [Chain.singleWord?]

namespace Reading

variable {lex : Lexicon} {words : List String}

def IsHeaded (words : List String) : Prop := ∃ w ∈ words.head?, Word.isPreposition w = false

instance (words : List String) : Decidable (IsHeaded words) :=
  inferInstanceAs (Decidable (∃ w ∈ words.head?, Word.isPreposition w = false))

theorem exists_phrase_of_plain (lex : Lexicon) (hne : words ≠ []) (hplain : NoPreposition words)
    (hwords : ∀ w ∈ words, IsPhraseWord w) : ∃ p, (phrase lex words : Except ParseError Phrase) = .ok p := by
  obtain ⟨head, modifiers, hlexemes⟩ := List.exists_cons_of_ne_nil (lex.lexemes_ne_nil hne)
  exact ⟨⟨head, modifiers, []⟩, phrase_eq_ok.2 ⟨hwords, words, [], hplain.splitBefore_eq hne, hplain, hlexemes, .nil⟩⟩

theorem isPi_eq_false {w : String} (h : IsPhraseWord w) : isPi w = false := by
  simpa [isPi] using h .pi (by simp)

theorem isEn_eq_false {w : String} (h : IsPhraseWord w) : isEn w = false := by
  simpa [isEn] using h .en (by simp)

theorem exists_chain_iff (h : ∀ w ∈ words, isPi w = false) :
    (∃ c, (chain lex words : Except ParseError Chain) = .ok c) ↔
      ∃ p, (phrase lex words : Except ParseError Phrase) = .ok p := by
  constructor
  · rintro ⟨c, hc⟩
    exact phrases_of_chain hc words (by simp [splitDropping_of_forall h])
  · rintro ⟨p, hp⟩
    refine ⟨_, piChain_eq_ok.2 ⟨?_, ?_, [p], ?_, rfl⟩⟩
    · rintro rfl
      simp [phrase] at hp
    · exact fun hla ↦ (phrase_eq_ok.1 hp).1 _ hla .la (by simp) rfl
    · rw [splitDropping_of_forall h]
      exact .cons hp .nil

/-- The runs that `en` keeps apart, empty ones passed over. -/
def coordinated (words : List String) : List (List String) := (splitDropping isEn words).filter (!·.isEmpty)

theorem coordinated_of_forall (hne : words ≠ []) (h : ∀ w ∈ words, isEn w = false) : coordinated words = [words] := by
  rw [coordinated, splitDropping_of_forall h]
  simpa using hne

theorem exists_links_iff {p : Particle} {read : List String → Except ParseError Chain} {runs : List (List String)} :
    (∃ c, (runs.mapM read >>= chainOfLinks p) = .ok c) ↔ runs ≠ [] ∧ ∀ run ∈ runs, ∃ link, read run = .ok link := by
  constructor
  · rintro ⟨c, hc⟩
    obtain ⟨links, hne, hlinks, -⟩ := links_eq_ok.1 hc
    refine ⟨?_, fun run hrun ↦ ?_⟩
    · rintro rfl
      exact hne (List.forall₂_nil_left_iff.1 hlinks)
    · obtain ⟨link, -, hlink⟩ := forall₂_exists_of_mem hlinks hrun
      exact ⟨link, hlink⟩
  · rintro ⟨hne, hruns⟩
    obtain ⟨links, hlinks⟩ := exists_forall₂ hruns
    refine ⟨_, links_eq_ok.2 ⟨links, ?_, hlinks, rfl⟩⟩
    rintro rfl
    exact hne (List.forall₂_nil_right_iff.1 hlinks)

theorem exists_coordinationFirst_iff :
    (∃ c, (coordinationFirst (phrase lex) words : Except ParseError Chain) = .ok c) ↔
      coordinated words ≠ [] ∧ ∀ piece ∈ coordinated words, ∀ part ∈ splitDropping isPi piece,
        ∃ p, (phrase lex part : Except ParseError Phrase) = .ok p := by
  refine exists_links_iff.trans (and_congr_right (fun _ ↦ forall₂_congr (fun piece _ ↦ ?_)))
  refine exists_links_iff.trans ((and_iff_right (splitDropping_ne_nil isPi piece)).trans ?_)
  exact forall₂_congr (fun part hpart ↦ exists_chain_iff (not_sep_of_mem_splitDropping hpart))

theorem lexemes_singleton (lex : Lexicon) (w : String) : lex.lexemes [w] = [.word w] := by
  simp [Lexicon.lexemes, Lexicon.longestTail]

theorem singleWord?_eq {c : Chain} (h : (chain lex words : Except ParseError Chain) = .ok c) {w : String} :
    c.singleWord? = some w ↔ words = [w] := by
  have hspelling := spelling_chain h
  obtain ⟨-, -, phrases, hphrases, rfl⟩ := piChain_eq_ok.1 h
  rw [Chain.singleWord?_phrases]
  constructor
  · rintro rfl
    simpa [Chain.spelling, Phrase.spelling, Lexeme.words] using hspelling.symm
  · rintro rfl
    have hw : isPi w = false := by
      by_contra hpi
      obtain ⟨p, -, hp⟩ := forall₂_exists_of_mem hphrases (x := []) (by simp [splitDropping, hpi])
      simp [phrase] at hp
    rw [splitDropping_of_forall (by simpa using hw)] at hphrases
    obtain ⟨p, rest, hp, hrest, rfl⟩ := List.forall₂_cons_left_iff.1 hphrases
    obtain rfl := List.forall₂_nil_left_iff.1 hrest
    obtain ⟨-, first, pieces, hsplit, -, hlexemes, hpieces⟩ := phrase_eq_ok.1 hp
    obtain ⟨rfl, rfl⟩ := List.cons.inj hsplit
    obtain ⟨head, modifiers, prepositions⟩ := p
    rw [lexemes_singleton] at hlexemes
    obtain ⟨rfl, rfl⟩ := List.cons.inj hlexemes
    obtain rfl := List.forall₂_nil_left_iff.1 hpieces
    rfl

/-- A numeral of more than one letter or digit, with nothing beside it. -/
def isLoneNumeral : List String → Bool
  | [w] => Word.isLongNumeral w
  | _ => false

/-- The last part that `pi` sets apart is a single word, and no such numeral. -/
def Dangles (words : List String) : Prop :=
  Particle.pi.word ∈ words ∧
    ∃ last ∈ (splitDropping isPi words).getLast?, last.length = 1 ∧ isLoneNumeral last = false

instance (words : List String) : Decidable (Dangles words) :=
  inferInstanceAs (Decidable (Particle.pi.word ∈ words ∧
    ∃ last ∈ (splitDropping isPi words).getLast?, last.length = 1 ∧ isLoneNumeral last = false))

theorem hasDanglingModifier_iff {first : Chain}
    (h : (coordinationFirst (phrase lex) words : Except ParseError Chain) = .ok first) :
    hasDanglingModifier first = true ↔ ∃ piece ∈ (coordinated words).head?, Dangles piece := by
  obtain ⟨links, hne, hlinks, rfl⟩ := links_eq_ok.1 h
  obtain ⟨link, others, rfl⟩ := List.exists_cons_of_ne_nil hne
  obtain ⟨piece, pieces, hpiece, -, hcoordinated⟩ := List.forall₂_cons_right_iff.1 hlinks
  obtain ⟨parts, hparts, hreads, rfl⟩ := links_eq_ok.1 hpiece
  obtain ⟨last, hlast⟩ : ∃ last, parts.getLast? = some last := ⟨_, List.getLast?_eq_some_getLast hparts⟩
  obtain ⟨part, hpart, hread⟩ := forall₂_getLast? hreads hlast
  rw [Option.mem_def] at hpart
  have hhead : (coordinated words).head? = some piece := by rw [coordinated, hcoordinated]; rfl
  have hpi : 2 ≤ parts.length ↔ Particle.pi.word ∈ piece := by
    rw [← hreads.length_eq, two_le_length_splitDropping]
    simp [isPi]
  have hlone : (part.length = 1 ∧ isLoneNumeral part = false) ↔
      ∃ w, last.singleWord? = some w ∧ Word.isLongNumeral w = false := by
    simp only [singleWord?_eq hread, List.length_eq_one_iff]
    constructor
    · rintro ⟨⟨w, rfl⟩, hw⟩
      exact ⟨w, rfl, hw⟩
    · rintro ⟨w, rfl, hw⟩
      exact ⟨⟨w, rfl⟩, hw⟩
  rw [hhead, hasDanglingModifier, hlast]
  simp only [Option.mem_def, Option.some.injEq, exists_eq_left', Dangles, hpart, hlone, ← hpi, Option.bind_some]
  cases last.singleWord? <;> simp

theorem exists_coordination_of_plain (lex : Lexicon) (hne : words ≠ []) (hplain : NoPreposition words)
    (hwords : ∀ w ∈ words, IsPhraseWord w) : ∃ c, (coordination lex words : Except ParseError Chain) = .ok c := by
  have hpiece := coordinated_of_forall hne (fun w hw ↦ isEn_eq_false (hwords w hw))
  have hpart : splitDropping isPi words = [words] := splitDropping_of_forall (fun w hw ↦ isPi_eq_false (hwords w hw))
  obtain ⟨first, hfirst⟩ : ∃ c, (coordinationFirst (phrase lex) words : Except ParseError Chain) = .ok c := by
    rw [exists_coordinationFirst_iff, hpiece]
    simpa [hpart] using exists_phrase_of_plain lex hne hplain hwords
  refine ⟨first, coordinationOver_eq_ok.2 ⟨hne, fun h ↦ hwords _ h .la (by simp) rfl,
    fun h ↦ hwords _ h .li (by simp) rfl, first, hfirst, .inl ⟨?_, rfl⟩⟩⟩
  rw [← Bool.not_eq_true, hasDanglingModifier_iff hfirst, hpiece]
  rintro ⟨piece, hhead, hpi, -⟩
  obtain rfl : words = piece := by simpa using hhead
  exact hwords _ hpi .pi (by simp) rfl

theorem exists_readsPrepPhrase {piece : List String} (lex : Lexicon) (hopens : Opens Word.isPreposition piece)
    (hwords : ∀ w ∈ piece, IsPhraseWord w) : ∃ p, ReadsPrepPhrase lex piece p := by
  obtain ⟨w, body, rfl, hw, hbody⟩ := hopens
  by_cases hne : body = []
  · subst hne
    exact ⟨⟨Word.bare w, none⟩, w, [], rfl, hw, hbody, rfl, rfl⟩
  · obtain ⟨c, hc⟩ := exists_coordination_of_plain lex hne hbody (fun v hv ↦ hwords v (by simp [hv]))
    exact ⟨⟨Word.bare w, some c⟩, w, body, rfl, hw, hbody, rfl, (complement_eq_ok hbody).2 (.inr ⟨hne, c, hc, rfl⟩)⟩

theorem exists_phrase_iff : (∃ p, (phrase lex words : Except ParseError Phrase) = .ok p) ↔
    IsHeaded words ∧ ∀ w ∈ words, IsPhraseWord w := by
  cases words with
  | nil => simp [phrase, IsHeaded]
  | cons w rest =>
    obtain ⟨body, pieces, hsplit⟩ := splitBefore_cons Word.isPreposition w rest
    obtain ⟨-, htail, hopens⟩ := splitBefore_eq_cons hsplit
    constructor
    · rintro ⟨p, hp⟩
      obtain ⟨hwords, first, others, hcut, hfirst, -, -⟩ := phrase_eq_ok.1 hp
      obtain ⟨rfl, rfl⟩ := List.cons.inj (hsplit.symm.trans hcut)
      exact ⟨⟨w, rfl, hfirst w (by simp)⟩, hwords⟩
    · rintro ⟨⟨v, hv, hhead⟩, hwords⟩
      obtain rfl : w = v := by simpa using hv
      obtain ⟨head, modifiers, hlexemes⟩ := List.exists_cons_of_ne_nil (lex.lexemes_ne_nil (List.cons_ne_nil w body))
      obtain ⟨prepositions, hprepositions⟩ : ∃ phrases, List.Forall₂ (ReadsPrepPhrase lex) pieces phrases := by
        refine exists_forall₂ (fun piece hpiece ↦ exists_readsPrepPhrase lex (hopens piece hpiece) ?_)
        have hmem : piece ∈ splitBefore Word.isPreposition (w :: rest) := by simp [hsplit, hpiece]
        exact fun v hv ↦ hwords v (mem_of_mem_splitBefore hmem v hv)
      refine ⟨⟨head, modifiers, prepositions⟩, phrase_eq_ok.2 ⟨hwords, _, _, hsplit, ?_, hlexemes, hprepositions⟩⟩
      exact List.forall_mem_cons.2 ⟨hhead, htail⟩

theorem exists_modificationFirst {first : Chain}
    (h : (coordinationFirst (phrase lex) words : Except ParseError Chain) = .ok first) :
    ∃ c, (modificationFirst (phrase lex) words : Except ParseError Chain) = .ok c := by
  obtain ⟨-, htidy, hgrouped⟩ := spelling_coordinationFirst (fun _ _ ↦ spelling_phrase) h
  obtain ⟨hpieces, -⟩ := tidy_between_pi hgrouped htidy
  obtain ⟨-, hparts⟩ := exists_coordinationFirst_iff.1 ⟨first, h⟩
  refine exists_links_iff.2 ⟨?_, fun piece hpiece ↦ exists_links_iff.2 ⟨fun hnil ↦ ?_, fun run hrun ↦ ?_⟩⟩
  · rw [filter_nonempty_of_tidy hpieces]
    exact splitDropping_ne_nil isPi words
  · exact hpieces piece (List.mem_filter.1 hpiece).1 (by rw [tidy, hnil]; rfl)
  · -- The runs between particles are the same, whichever particle they are cut at first.
    obtain ⟨hrun, hne⟩ := List.mem_filter.1 hrun
    obtain ⟨hpiece, -⟩ := List.mem_filter.1 hpiece
    obtain ⟨piece', hpiece', hrun'⟩ := mem_splitDropping_comm hpiece hrun
    have hne' : piece' ≠ [] := by
      rintro rfl
      simp_all [splitDropping]
    refine (exists_chain_iff (not_sep_of_mem_splitDropping hrun')).2 (hparts piece' ?_ run hrun')
    exact List.mem_filter.2 ⟨hpiece', by simpa using hne'⟩

theorem forall_isPhraseWord_iff :
    (∀ piece ∈ coordinated words, ∀ part ∈ splitDropping isPi piece, ∀ w ∈ part, IsPhraseWord w) ↔
      ∀ p ∈ [Particle.la, .li, .e, .o], p.word ∉ words := by
  constructor
  · intro h p hp hmem
    have hparticle : p ≠ .en ∧ p ≠ .pi ∧ p ∈ [Particle.pi, .la, .e, .li, .en, .o] := by
      cases p <;> simp at hp ⊢
    rcases mem_or_eq_of_splitDropping eq_of_isEn hmem with hen | ⟨piece, hpiece, hmem⟩
    · exact hparticle.1 (Particle.word_inj.1 hen)
    rcases mem_or_eq_of_splitDropping eq_of_isPi hmem with hpi | ⟨part, hpart, hmem'⟩
    · exact hparticle.2.1 (Particle.word_inj.1 hpi)
    have hne : piece ≠ [] := List.ne_nil_of_mem hmem
    exact h piece (List.mem_filter.2 ⟨hpiece, by simpa using hne⟩) part hpart _ hmem' p hparticle.2.2 rfl
  · rintro h piece hpiece part hpart w hw p hp rfl
    have hpiece := (List.mem_filter.1 hpiece).1
    have hpi := not_sep_of_mem_splitDropping hpart _ hw
    have hen := not_sep_of_mem_splitDropping hpiece _ (mem_of_mem_splitDropping hpart _ hw)
    have hmem := mem_of_mem_splitDropping hpiece _ (mem_of_mem_splitDropping hpart _ hw)
    cases p with
    | pi => simp [isPi] at hpi
    | en => simp [isEn] at hen
    | la | li | e | o => exact h _ (by simp) hmem
    | anu | taso | ante | a | kin => simp at hp

/-- What can be read as a chain. -/
structure IsCoordination (words : List String) : Prop where
  particles : ∀ p ∈ [Particle.la, .li, .e, .o], p.word ∉ words
  /-- Something stands beside the `en`s, -/
  nonempty : coordinated words ≠ []
  /-- every part that they and the `pi`s set apart has a head, -/
  headed : ∀ piece ∈ coordinated words, ∀ part ∈ splitDropping isPi piece, IsHeaded part
  /-- and without an `en` the last `pi` comes before at least two words or a numeral. -/
  ending : Particle.en.word ∈ words ∨ Particle.pi.word ∉ words ∨
    ∃ last ∈ (splitDropping isPi words).getLast?, 2 ≤ last.length ∨ isLoneNumeral last = true

instance (words : List String) : Decidable (IsCoordination words) :=
  decidable_of_iff ((∀ p ∈ [Particle.la, .li, .e, .o], p.word ∉ words) ∧ coordinated words ≠ [] ∧
      (∀ piece ∈ coordinated words, ∀ part ∈ splitDropping isPi piece, IsHeaded part) ∧
      (Particle.en.word ∈ words ∨ Particle.pi.word ∉ words ∨
        ∃ last ∈ (splitDropping isPi words).getLast?, 2 ≤ last.length ∨ isLoneNumeral last = true))
    ⟨fun ⟨hp, hn, hh, he⟩ ↦ ⟨hp, hn, hh, he⟩, fun ⟨hp, hn, hh, he⟩ ↦ ⟨hp, hn, hh, he⟩⟩

theorem exists_coordinationFirst_iff_headed :
    (∃ c, (coordinationFirst (phrase lex) words : Except ParseError Chain) = .ok c) ↔
      coordinated words ≠ [] ∧ (∀ piece ∈ coordinated words, ∀ part ∈ splitDropping isPi piece, IsHeaded part) ∧
        ∀ p ∈ [Particle.la, .li, .e, .o], p.word ∉ words := by
  rw [exists_coordinationFirst_iff, ← forall_isPhraseWord_iff]
  simp only [exists_phrase_iff, forall_and]

theorem ending_iff (hne : coordinated words ≠ [])
    (hheaded : ∀ piece ∈ coordinated words, ∀ part ∈ splitDropping isPi piece, IsHeaded part) :
    (Particle.en.word ∈ words ∨ ¬ ∃ piece ∈ (coordinated words).head?, Dangles piece) ↔
      Particle.en.word ∈ words ∨ Particle.pi.word ∉ words ∨
        ∃ last ∈ (splitDropping isPi words).getLast?, 2 ≤ last.length ∨ isLoneNumeral last = true := by
  refine or_congr_right' (fun hen ↦ ?_)
  have hwords : words ≠ [] := by
    rintro rfl
    exact hne rfl
  have hpiece : coordinated words = [words] :=
    coordinated_of_forall hwords (fun w hw ↦ by simpa [isEn] using ne_of_mem_of_not_mem hw hen)
  obtain ⟨last, hlast⟩ : ∃ last, (splitDropping isPi words).getLast? = some last :=
    ⟨_, List.getLast?_eq_some_getLast (splitDropping_ne_nil isPi words)⟩
  have hlength : 0 < last.length := by
    obtain ⟨w, hw, -⟩ := hheaded words (by simp [hpiece]) last (List.mem_of_getLast? hlast)
    exact List.length_pos_of_mem (List.mem_of_head? hw)
  simp only [hpiece, List.head?_cons, Option.mem_def, Option.some.injEq, exists_eq_left', Dangles, hlast, not_and_or]
  refine or_congr_right ?_
  rcases last with _ | ⟨w, _ | ⟨v, rest⟩⟩
  · simp at hlength
  · simp [isLoneNumeral]
  · simp

theorem exists_coordination_iff :
    (∃ c, (coordination lex words : Except ParseError Chain) = .ok c) ↔ IsCoordination words := by
  constructor
  · rintro ⟨c, hc⟩
    obtain ⟨-, -, -, first, hfirst, hc⟩ := coordinationOver_eq_ok.1 hc
    obtain ⟨hne, hheaded, hparticles⟩ := exists_coordinationFirst_iff_headed.1 ⟨first, hfirst⟩
    refine ⟨hparticles, hne, hheaded, (ending_iff hne hheaded).1 ?_⟩
    rw [← hasDanglingModifier_iff hfirst, Bool.not_eq_true]
    exact hc.symm.imp (fun h ↦ h.2.1) (fun h ↦ h.1)
  · rintro ⟨hparticles, hne, hheaded, hending⟩
    obtain ⟨first, hfirst⟩ := exists_coordinationFirst_iff_headed.2 ⟨hne, hheaded, hparticles⟩
    have hread {c : Chain} (hc : (hasDanglingModifier first = false ∧ c = first) ∨ (hasDanglingModifier first = true ∧
        Particle.en.word ∈ words ∧ (modificationFirst (phrase lex) words : Except ParseError Chain) = .ok c)) :
        (coordination lex words : Except ParseError Chain) = .ok c := by
      refine coordinationOver_eq_ok.2 ⟨?_, hparticles .la (by simp), hparticles .li (by simp), first, hfirst, hc⟩
      rintro rfl
      exact hne rfl
    rw [← ending_iff hne hheaded, ← hasDanglingModifier_iff hfirst, Bool.not_eq_true] at hending
    cases hd : hasDanglingModifier first with
    | false => exact ⟨first, hread (.inl ⟨hd, rfl⟩)⟩
    | true =>
      obtain ⟨c, hc⟩ := exists_modificationFirst hfirst
      exact ⟨c, hread (.inr ⟨hd, by simpa [hd] using hending, hc⟩)⟩

theorem particle_of_coordination {c : Chain} (h : (coordination lex words : Except ParseError Chain) = .ok c) :
    (c.particle = .pi ↔ ∃ piece ∈ (coordinated words).head?, Dangles piece) ∧
      (c.particle = .en ↔ ¬ ∃ piece ∈ (coordinated words).head?, Dangles piece) := by
  obtain ⟨-, -, -, first, hfirst, hc⟩ := coordinationOver_eq_ok.1 h
  rw [← hasDanglingModifier_iff hfirst]
  rcases hc with ⟨hd, rfl⟩ | ⟨hd, -, hsecond⟩
  · obtain ⟨links, -, -, rfl⟩ := links_eq_ok.1 hfirst
    simp [Chain.particle, hd]
  · obtain ⟨links, -, -, rfl⟩ := links_eq_ok.1 hsecond
    simp [Chain.particle, hd]

/-- Which runs are chains, and which particle joins them, shows in the words alone. Where modification is tried first
because the last word would dangle, it never fails, and a memory of what was read before makes no difference. -/
theorem coordination_accepts (lex : Lexicon) (words : List String) :
    ((∃ c, (coordination lex words : Except ParseError Chain) = .ok c) ↔ IsCoordination words) ∧
    (∀ c, (coordination lex words : Except ParseError Chain) = .ok c →
      (c.particle = .pi ↔ ∃ piece ∈ (coordinated words).head?, Dangles piece) ∧
      (c.particle = .en ↔ ¬ ∃ piece ∈ (coordinated words).head?, Dangles piece)) ∧
    (∀ first, (coordinationFirst (phrase lex) words : Except ParseError Chain) = .ok first →
      ∃ c, (modificationFirst (phrase lex) words : Except ParseError Chain) = .ok c) ∧
    ∀ memory : Memory, memory.IsSound lex → Solid words →
      ((coordination lex words : Remembering Chain).run.run memory).1 = coordination lex words :=
  ⟨exists_coordination_iff, fun _ ↦ particle_of_coordination, fun _ ↦ exists_modificationFirst,
    fun memory hmemory hwords ↦ (agrees_coordination hwords memory hmemory).1⟩

theorem coordination_accepts_fallback :
    let words := ["kule", "pi", "walo", "en", "pimeja"]
    IsCoordination words ∧ ∃ c, c.particle = .pi ∧
      ((coordination Dictionary.standard.lexicon words : Remembering Chain).run.run Memory.empty).1 = .ok c := by
  intro words
  obtain ⟨haccepts, hparticle, -, hmemory⟩ := coordination_accepts Dictionary.standard.lexicon words
  have hwords : IsCoordination words := by decide
  obtain ⟨c, hc⟩ := haccepts.2 hwords
  refine ⟨hwords, c, (hparticle c hc).1.2 ⟨["kule", "pi", "walo"], rfl, by decide⟩, ?_⟩
  rw [hmemory Memory.empty (Memory.isSound_empty _) (by decide), hc]

example : IsCoordination ["tomo", "pi", "#ATLW"] ∧ ¬ IsCoordination ["tomo", "pi", "pona"] := by decide

end Reading

end TokiPona
