import TokiPona.Dictionary.Standard
import TokiPona.Proofs.Predicate

namespace TokiPona

namespace Lexicon

variable {lex : Lexicon}

/-- A head that is no particle, before a tail that the lexicon licenses. -/
structure IsCompound (lex : Lexicon) (head : String) (tail : List String) : Prop where
  tail_ne_nil : tail ≠ []
  not_particle : lex.isParticle head = false
  licensed : lex.licenses head tail = true

theorem join_eq_ok {head : String} {tail : List String} {l : Lexeme} :
    lex.join head tail = .ok l ↔ lex.IsCompound head tail ∧ l = .compound head tail := by
  unfold join
  constructor
  · intro h
    split at h
    · simp at h
    case isFalse htail =>
    split at h
    · simp at h
    case isFalse hhead =>
    split at h
    case isTrue hlicensed =>
      exact ⟨⟨by simpa using htail, by simpa using hhead, hlicensed⟩, (Except.ok.inj h).symm⟩
    · simp at h
  · rintro ⟨⟨htail, hhead, hlicensed⟩, rfl⟩
    simp [htail, hhead, hlicensed]

theorem isCompound_longestTail {head : String} {rest : List String} {n k : Nat}
    (h : lex.longestTail head rest n = k + 1) : lex.IsCompound head (rest.take (k + 1)) := by
  fun_induction longestTail lex head rest n with
  | case1 => simp at h
  | case2 n l hjoin =>
    obtain rfl : n = k := by simpa using h
    exact (join_eq_ok.1 hjoin).1
  | case3 n e hjoin ih => exact ih h

theorem le_longestTail {head : String} {rest : List String} {n k : Nat} (hk : k ≤ n)
    (h : lex.IsCompound head (rest.take k)) : k ≤ lex.longestTail head rest n := by
  fun_induction longestTail lex head rest n with
  | case1 => exact hk
  | case2 n l hjoin => exact hk
  | case3 n e hjoin ih =>
    have hne : k ≠ n + 1 := by
      rintro rfl
      simp [join_eq_ok.2 ⟨h, rfl⟩] at hjoin
    exact ih (by omega)

/-- A lexeme at the front of a run is as long as it can be: it is licensed, if it is a compound, and no compound that
opens the run has more words than it. -/
structure IsLongest (lex : Lexicon) (words : List String) (l : Lexeme) : Prop where
  licensed : ∀ head tail, l = .compound head tail → lex.IsCompound head tail
  longest : ∀ head tail, head :: tail <+: words → lex.IsCompound head tail → (head :: tail).length ≤ l.words.length

theorem length_le_longestTail {w head : String} {rest tail : List String} (hfront : head :: tail <+: w :: rest)
    (h : lex.IsCompound head tail) : tail.length ≤ lex.longestTail w rest rest.length := by
  obtain ⟨rfl, htail⟩ := List.cons_prefix_cons.1 hfront
  rw [List.prefix_iff_eq_take.1 htail] at h
  exact le_longestTail htail.length_le h

theorem isLongest_word {w : String} {rest : List String} (h : lex.longestTail w rest rest.length = 0) :
    lex.IsLongest (w :: rest) (.word w) where
  licensed := nofun
  longest head tail hfront hcompound := by
    have := length_le_longestTail hfront hcompound
    simp only [Lexeme.words, List.length_cons, List.length_nil]
    omega

theorem isLongest_compound {w : String} {rest : List String} {n : Nat}
    (h : lex.longestTail w rest rest.length = n + 1) :
    lex.IsLongest (w :: rest) (.compound w (rest.take (n + 1))) where
  licensed := by
    rintro head tail heq
    obtain ⟨rfl, rfl⟩ := Lexeme.compound.inj heq
    exact isCompound_longestTail h
  longest head tail hfront hcompound := by
    have hle := length_le_longestTail hfront hcompound
    have hrest : tail.length ≤ rest.length := (List.cons_prefix_cons.1 hfront).2.length_le
    simp only [Lexeme.words, List.length_cons, List.length_take]
    omega

theorem IsLongest.length_le {words : List String} {l l' : Lexeme} (h : lex.IsLongest words l)
    (h' : lex.IsLongest words l') (hfront : l'.words <+: words) : l'.words.length ≤ l.words.length := by
  cases l' with
  | word w => cases l <;> simp [Lexeme.words]
  | compound head tail => exact h.longest head tail hfront (h'.licensed head tail rfl)

theorem IsLongest.eq_of_words {words : List String} {l l' : Lexeme} (h : lex.IsLongest words l)
    (h' : lex.IsLongest words l') (heq : l.words = l'.words) : l = l' := by
  cases l with
  | word w =>
    cases l' with
    | word w' => simpa [Lexeme.words] using heq
    | compound head tail =>
      exact absurd (List.cons.inj heq).2.symm (h'.licensed head tail rfl).tail_ne_nil
  | compound head tail =>
    cases l' with
    | word w' => exact absurd (List.cons.inj heq).2 (h.licensed head tail rfl).tail_ne_nil
    | compound head' tail' => simpa [Lexeme.words] using heq

theorem IsLongest.unique {words : List String} {l l' : Lexeme} (h : lex.IsLongest words l)
    (h' : lex.IsLongest words l') (hfront : l.words <+: words) (hfront' : l'.words <+: words) : l = l' := by
  have hlength : l.words.length = l'.words.length :=
    Nat.le_antisymm (h'.length_le h hfront) (h.length_le h' hfront')
  have hwords : l.words <+: l'.words := List.prefix_of_prefix_length_le hfront hfront' (Nat.le_of_eq hlength)
  exact h.eq_of_words h' (hwords.eq_of_length hlength)

/-- The lexemes make up the run, and each is as long as it can be where it starts. -/
structure CutsLongest (lex : Lexicon) (words : List String) (ls : List Lexeme) : Prop where
  words_eq : ls.flatMap Lexeme.words = words
  longest : ∀ before l after, ls = before ++ l :: after →
    lex.IsLongest (words.drop (before.flatMap Lexeme.words).length) l

theorem cutsLongest_nil {words : List String} : lex.CutsLongest words [] ↔ words = [] := by
  refine ⟨fun h ↦ h.words_eq.symm, ?_⟩
  rintro rfl
  exact ⟨rfl, by simp⟩

theorem cutsLongest_cons {words : List String} {l : Lexeme} {ls : List Lexeme} :
    lex.CutsLongest words (l :: ls) ↔
      ∃ rest, words = l.words ++ rest ∧ lex.IsLongest words l ∧ lex.CutsLongest rest ls := by
  constructor
  · rintro ⟨rfl, h⟩
    refine ⟨ls.flatMap Lexeme.words, rfl, by simpa using h [] l ls rfl, rfl, ?_⟩
    intro before l' after heq
    simpa using h (l :: before) l' after (by rw [heq, List.cons_append])
  · rintro ⟨rest, rfl, hfront, rfl, h⟩
    refine ⟨rfl, fun before l' after heq ↦ ?_⟩
    cases before with
    | nil =>
      obtain ⟨rfl, rfl⟩ := List.cons.inj heq
      simpa using hfront
    | cons l'' before =>
      obtain ⟨rfl, hrest⟩ := List.cons.inj heq
      simpa using h before l' after hrest

theorem cutsLongest_lexemes (lex : Lexicon) (words : List String) : lex.CutsLongest words (lex.lexemes words) := by
  fun_induction lexemes lex words with
  | case1 => exact cutsLongest_nil.2 rfl
  | case2 w rest h ih => exact cutsLongest_cons.2 ⟨rest, rfl, isLongest_word h, ih⟩
  | case3 w rest n h ih =>
    exact cutsLongest_cons.2 ⟨rest.drop (n + 1), by simp [Lexeme.words], isLongest_compound h, ih⟩

theorem CutsLongest.unique {words : List String} {ls ls' : List Lexeme} (h : lex.CutsLongest words ls)
    (h' : lex.CutsLongest words ls') : ls = ls' := by
  have hwords (l : Lexeme) : l.words ≠ [] := by cases l <;> simp [Lexeme.words]
  induction ls generalizing words ls' with
  | nil =>
    obtain rfl := cutsLongest_nil.1 h
    cases ls' with
    | nil => rfl
    | cons l' ls' =>
      obtain ⟨rest, heq, -⟩ := cutsLongest_cons.1 h'
      exact absurd (List.append_eq_nil_iff.1 heq.symm).1 (hwords l')
  | cons l ls ih =>
    obtain ⟨rest, hrest, hfront, hls⟩ := cutsLongest_cons.1 h
    cases ls' with
    | nil =>
      rw [cutsLongest_nil.1 h'] at hrest
      exact absurd (List.append_eq_nil_iff.1 hrest.symm).1 (hwords l)
    | cons l' ls' =>
      obtain ⟨rest', hrest', hfront', hls'⟩ := cutsLongest_cons.1 h'
      obtain rfl := hfront.unique hfront' ⟨rest, hrest.symm⟩ ⟨rest', hrest'.symm⟩
      obtain rfl := List.append_cancel_left (hrest.symm.trans hrest')
      rw [ih hls hls']

/-- Compounds are formed by longest match: the lexemes of a run are the only ones that make it up in order, that are
licensed where they are compounds, and that stand where no longer compound of the words still left could start; so a
word stands alone only where none could. -/
theorem lexemes_eq_iff (lex : Lexicon) (words : List String) (ls : List Lexeme) :
    lex.lexemes words = ls ↔ lex.CutsLongest words ls := by
  have hcut := cutsLongest_lexemes lex words
  exact ⟨fun h ↦ h ▸ hcut, fun h ↦ hcut.unique h⟩

end Lexicon

namespace Reading

def IsModal (lex : Lexicon) (l : Lexeme) : Prop := ∃ w, l = .word w ∧ lex.isModal w = true

theorem isModalLexeme_iff {lex : Lexicon} {l : Lexeme} : isModalLexeme lex l = true ↔ IsModal lex l := by
  cases l <;> simp [isModalLexeme, IsModal, Lexeme.word?]

/-- Where the lexemes of a verb stand: modals before the head, adverbs after it. A head after modals is none itself, and
without modals the lexemes start with none or are nothing else. -/
structure SplitsAtHead (lex : Lexicon) (ls : List Lexeme) (v : VerbPhrase) : Prop where
  lexemes_eq : v.lexemes = ls
  headed : ∃ l, v.head = some l
  modals : ∀ l ∈ v.modals, IsModal lex l
  head : v.modals ≠ [] → ∀ l ∈ v.head, ¬ IsModal lex l
  unmodified : v.modals = [] → (∀ l ∈ ls.head?, ¬ IsModal lex l) ∨ ∀ l ∈ ls, IsModal lex l

theorem splitsAtHead_verbPhrase (lex : Lexicon) {words : List String} (hne : words ≠ []) :
    SplitsAtHead lex (lex.lexemes words) (verbPhrase lex words) := by
  have hlexemes := lexemes_verbPhrase lex hne
  rcases verbPhrase_cases lex hne with ⟨modals, head, adverbs, hls, hmodals, hhead, heq⟩ | ⟨head, adverbs, hls, hall, heq⟩
  · have hnot : ¬ IsModal lex head := by simp [← isModalLexeme_iff, hhead]
    rw [heq] at hlexemes ⊢
    refine ⟨hlexemes, ⟨head, rfl⟩, fun l hl ↦ isModalLexeme_iff.1 (hmodals l hl), fun _ ↦ by simpa using hnot, ?_⟩
    rintro rfl
    exact .inl (by simpa [hls] using hnot)
  · rw [heq] at hlexemes ⊢
    refine ⟨hlexemes, ⟨head, rfl⟩, by simp, fun hmodals ↦ absurd rfl hmodals, fun _ ↦ .inr fun l hl ↦ ?_⟩
    exact isModalLexeme_iff.1 (hall l hl)

theorem SplitsAtHead.verbPhrase_eq {lex : Lexicon} {words : List String} {v : VerbPhrase}
    (h : SplitsAtHead lex (lex.lexemes words) v) : verbPhrase lex words = v := by
  obtain ⟨modals, _, adverbs⟩ := v
  obtain ⟨hls, ⟨head, rfl⟩, hmodals, hhead, hnone⟩ := h
  have hls : lex.lexemes words = modals ++ head :: adverbs := by simpa [VerbPhrase.lexemes] using hls.symm
  by_cases hmodal : IsModal lex head
  · -- such a head has no modal before it, so that all are modals and the second reading counts
    obtain rfl : modals = [] := by
      by_contra hne
      exact hhead hne head rfl hmodal
    have hall : ∀ l ∈ lex.lexemes words, IsModal lex l :=
      (hnone rfl).resolve_left fun hfirst ↦ hfirst head (by simp [hls]) hmodal
    exact verbPhrase_of_modals hls fun l hl ↦ isModalLexeme_iff.2 (hall l hl)
  · have hfirst : isModalLexeme lex head = false := by simpa [← isModalLexeme_iff] using hmodal
    exact verbPhrase_of_head hls (fun l hl ↦ isModalLexeme_iff.2 (hmodals l hl)) hfirst

/-- A verb splits at its first lexeme that is no modal: of every run that is not empty all words are kept in order, as
modals, head and adverbs, and there is one way only to tell these apart. -/
theorem verbPhrase_eq_iff (lex : Lexicon) {words : List String} (hne : words ≠ []) :
    (verbPhrase lex words).words = words ∧
      ∀ v, verbPhrase lex words = v ↔ SplitsAtHead lex (lex.lexemes words) v := by
  refine ⟨words_verbPhrase lex words, fun v ↦ ⟨?_, SplitsAtHead.verbPhrase_eq⟩⟩
  rintro rfl
  exact splitsAtHead_verbPhrase lex hne

/-- Two modals before a compound; the same two with nothing after them are a head and an adverb. -/
theorem verbPhrase_eq_iff_modals :
    let lex := Dictionary.standard.lexicon
    let run := ["wile", "ken", "tomo", "tawa", "kon", "mute"]
    run ≠ [] ∧ (verbPhrase lex run).words = run ∧
      SplitsAtHead lex (lex.lexemes run)
        ⟨[.word "wile", .word "ken"], some (.compound "tomo" ["tawa", "kon"]), [.word "mute"]⟩ ∧
      SplitsAtHead lex (lex.lexemes ["wile", "ken"]) ⟨[], some (.word "wile"), [.word "ken"]⟩ := by
  intro lex run
  have hne : run ≠ [] := by simp [run]
  obtain ⟨hwords, hsplit⟩ := verbPhrase_eq_iff lex hne
  have hmodals : verbPhrase lex ["wile", "ken"] = ⟨[], some (.word "wile"), [.word "ken"]⟩ := by decide +kernel
  exact ⟨hne, hwords, (hsplit _).1 (by decide +kernel), ((verbPhrase_eq_iff lex (by simp)).2 _).1 hmodals⟩

end Reading

end TokiPona
