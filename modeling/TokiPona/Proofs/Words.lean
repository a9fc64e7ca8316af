import TokiPona.Grammar
import TokiPona.Proofs.Adjacency
import TokiPona.Proofs.Sentence

namespace TokiPona

/-- The texts of the words and prepositions of a text. -/
def wordsOf (text : String) : List String := ((tokenize text).filter Token.isWord).map Token.text

theorem solid_wordsOf (text : String) : Solid (wordsOf text) := by
  intro w hw
  obtain ⟨t, ht, rfl⟩ := List.mem_map.1 hw
  obtain ⟨hmem, hword⟩ := List.mem_filter.1 ht
  exact (Token.mem_scan hmem hword).1

namespace Token

def isPlain (t : Token) : Bool := t.isWord || t.kind = .punctuation ','

theorem terminal?_of_isPlain {t : Token} (h : t.isPlain = true) : t.terminal? = none := by
  rcases hk : t.kind with _ | _ | c | c
  · simp [terminal?, hk]
  · simp [terminal?, hk]
  · obtain rfl : c = ',' := by simpa [isPlain, isWord, hk] using h
    simp only [terminal?, hk]
    decide
  · simp [terminal?, hk]

theorem isQuote_of_isPlain {t : Token} (h : t.isPlain = true) : t.isQuote = false := by
  rcases hk : t.kind with _ | _ | c | c <;> simp_all [isPlain, isWord, isQuote]

theorem isWord_of_terminal? {t : Token} {p : Punctuation} (h : t.terminal? = some p) : t.isWord = false := by
  rcases hk : t.kind with _ | _ | c | c <;> simp_all [terminal?, isWord]

end Token

namespace Reading

theorem eq_ofWord {text : String} {t : Token} (h : t ∈ (tokenize text).filter Token.isWord) :
    t = .ofWord t.start t.text :=
  (Token.mem_scan (List.mem_of_mem_filter h) (List.mem_filter.1 h).2).2

/-- Quote marks apart, the tokens are words and commas, and then the mark if there is one. -/
def IsMarkedBy (mark : Option Punctuation) (tokens : List Token) : Prop := ∃ plain last,
  tokens.filter (!·.isQuote) = plain ++ last ∧ (∀ t ∈ plain, t.isPlain = true) ∧
    last.map Token.terminal? = mark.toList.map some

theorem plainWords_eq_ok {text : String} {tokens : List Token} {words : List String}
    (hquote : ∀ t ∈ tokens, t.isQuote = false) :
    (plainWords text tokens : Except ParseError (List String)) = .ok words ↔
      (∀ t ∈ tokens, t.isPlain = true) ∧ words = (tokens.filter Token.isWord).map Token.text := by
  induction tokens generalizing words with
  | nil => simp [plainWords]
  | cons t rest ih =>
    have ih' (words) := @ih words (fun u hu ↦ hquote u (by simp [hu]))
    have ht := hquote t (by simp)
    have hcons (hword : t.isWord = true) :
        ((t.text :: ·) <$> plainWords text rest : Except ParseError (List String)) = .ok words ↔
          (t.isPlain = true ∧ ∀ u ∈ rest, u.isPlain = true) ∧
            words = ((t :: rest).filter Token.isWord).map Token.text := by
      rw [map_eq_ok, List.filter_cons_of_pos hword, List.map_cons]
      constructor
      · rintro ⟨others, hothers, rfl⟩
        obtain ⟨hplain, rfl⟩ := (ih' others).1 hothers
        exact ⟨⟨by simp [Token.isPlain, hword], hplain⟩, rfl⟩
      · rintro ⟨⟨-, hplain⟩, rfl⟩
        exact ⟨_, (ih' _).2 ⟨hplain, rfl⟩, rfl⟩
    rw [List.forall_mem_cons, plainWords]
    rcases hk : t.kind with _ | _ | c | c
    · exact hcons (by simp [Token.isWord, hk])
    · exact hcons (by simp [Token.isWord, hk])
    · by_cases hc : c = ',' <;> simp [Token.isPlain, Token.isWord, hk, hc, ih']
    · simp [Token.isQuote, hk] at ht

theorem takeMark_of_isPlain {plain last : List Token} {mark : Option Punctuation} (h : ∀ t ∈ plain, t.isPlain = true)
    (hlast : last.map Token.terminal? = mark.toList.map some) : takeMark (plain ++ last) = (plain, mark) := by
  cases mark with
  | none =>
    obtain rfl : last = [] := by simpa using hlast
    have hnone : plain.getLast?.bind Token.terminal? = none := by
      rw [Option.bind_eq_none_iff]
      exact fun t ht ↦ Token.terminal?_of_isPlain (h t (List.mem_of_getLast? ht))
    simp [takeMark, hnone]
  | some p =>
    obtain ⟨t, rfl, ht⟩ : ∃ t, last = [t] ∧ t.terminal? = some p := by simpa [List.map_eq_singleton_iff] using hlast
    simp [takeMark, ht]

theorem takeMark_eq (tokens : List Token) : ∃ last, tokens = (takeMark tokens).1 ++ last ∧
    last.map Token.terminal? = (takeMark tokens).2.toList.map some := by
  unfold takeMark
  split
  case _ p hp =>
    obtain ⟨t, ht, hterminal⟩ := Option.bind_eq_some_iff.1 hp
    obtain ⟨init, rfl⟩ := List.getLast?_eq_some_iff.1 ht
    exact ⟨[t], by simp, by simp [hterminal]⟩
  · exact ⟨[], by simp, rfl⟩

theorem filter_isWord_of_mark {tokens plain last : List Token} {mark : Option Punctuation}
    (h : tokens.filter (!·.isQuote) = plain ++ last) (hlast : last.map Token.terminal? = mark.toList.map some) :
    tokens.filter Token.isWord = plain.filter Token.isWord := by
  have hword : ∀ t ∈ last, ¬ t.isWord = true := by
    intro t ht
    obtain ⟨p, -, hp⟩ := List.mem_map.1 (hlast ▸ List.mem_map_of_mem ht)
    simp [Token.isWord_of_terminal? hp.symm]
  have hquote : tokens.filter Token.isWord = (tokens.filter (!·.isQuote)).filter Token.isWord := by
    rw [List.filter_filter]
    apply List.filter_congr
    intro t _
    rcases hk : t.kind with _ | _ | c | c <;> simp [Token.isWord, Token.isQuote, hk]
  rw [hquote, h, List.filter_append, List.filter_eq_nil_iff.2 hword, List.append_nil]

theorem sentenceWords_eq_ok {text : String} {tokens : List Token} {words : List String} {mark : Option Punctuation} :
    (sentenceWords text tokens : Except ParseError _) = .ok (words, mark) ↔
      words = (tokens.filter Token.isWord).map Token.text ∧ IsMarkedBy mark tokens := by
  have hread : (sentenceWords text tokens : Except ParseError _) =
      (plainWords text (takeMark (tokens.filter (!·.isQuote))).1 >>= fun words ↦
        pure (words, (takeMark (tokens.filter (!·.isQuote))).2)) := rfl
  rw [hread, bind_eq_ok]
  have hquote {plain last : List Token} (h : tokens.filter (!·.isQuote) = plain ++ last) :
      ∀ t ∈ plain, t.isQuote = false := by
    intro t ht
    have hmem : t ∈ tokens.filter (!·.isQuote) := h ▸ List.mem_append_left last ht
    simpa using (List.mem_filter.1 hmem).2
  constructor
  · rintro ⟨words', hwords, heq⟩
    obtain ⟨rfl, rfl⟩ := Prod.mk.inj (pure_eq_ok.1 heq)
    obtain ⟨last, htokens, hlast⟩ := takeMark_eq (tokens.filter (!·.isQuote))
    obtain ⟨hplain, rfl⟩ := (plainWords_eq_ok (hquote htokens)).1 hwords
    exact ⟨by rw [filter_isWord_of_mark htokens hlast], _, last, htokens, hplain, hlast⟩
  · rintro ⟨rfl, plain, last, htokens, hplain, hlast⟩
    rw [htokens, takeMark_of_isPlain hplain hlast, filter_isWord_of_mark htokens hlast]
    exact ⟨_, (plainWords_eq_ok (hquote htokens)).2 ⟨hplain, rfl⟩, rfl⟩

theorem words_of_sentenceWords {text : String} {words : List String} {mark : Option Punctuation}
    (h : (sentenceWords text (tokenize text) : Except ParseError _) = .ok (words, mark)) : words = wordsOf text :=
  (sentenceWords_eq_ok.1 h).1

variable {words : List String}

theorem isWord_of_mem_ofWords {start : Nat} {t : Token} (h : t ∈ Token.ofWords start words) :
    t.isWord = true ∧ t.isQuote = false := by
  rw [(Token.mem_ofWords h).2]
  unfold Token.ofWord
  split <;> simp [Token.isWord, Token.isQuote]

theorem getLast?_ofWords {start : Nat} :
    (Token.ofWords start words).getLast?.any (·.is .li) = false ↔ words.getLast? ≠ some Particle.li.word := by
  induction words generalizing start with
  | nil => simp [Token.ofWords]
  | cons v words ih =>
    cases words with
    | nil => simp [Token.ofWords, ← Bool.not_eq_true, is_ofWord]
    | cons w words => simpa [Token.ofWords] using @ih (start + v.utf8ByteSize + 1)

theorem filter_ofWords_concat {p : Token → Bool} {t : Token}
    (hp : ∀ u : Token, u.isWord = true → u.isQuote = false → p u = true) :
    (Token.ofWords 0 words ++ [t]).filter p = Token.ofWords 0 words ++ [t].filter p := by
  rw [List.filter_append, List.filter_eq_self.2]
  exact fun u hu ↦ hp u (isWord_of_mem_ofWords hu).1 (isWord_of_mem_ofWords hu).2

theorem sentenceWords_ofWords {text : String} {mark : Punctuation} {pos : Nat} :
    (sentenceWords text (Token.ofWords 0 words ++ [⟨String.singleton mark.mark, .punctuation mark.mark, pos⟩]) :
      Except ParseError _) = .ok (words, some mark) := by
  refine sentenceWords_eq_ok.2 ⟨?_, Token.ofWords 0 words, _, filter_ofWords_concat (fun u _ hquote ↦ by simp [hquote]), ?_, ?_⟩
  · rw [filter_ofWords_concat (fun u hword _ ↦ hword)]
    simp [Token.isWord]
  · exact fun t ht ↦ by simp [Token.isPlain, (isWord_of_mem_ofWords ht).1]
  · simp [Token.isQuote, Token.terminal?]

theorem trim_marked (hsolid : Solid words) (hne : words ≠ []) (mark : Punctuation) :
    Text.trim (Sentence.marked words (some mark)).toList = (Sentence.marked words (some mark)).toList ∧
      (Sentence.marked words (some mark)).toList.all Text.isBlank = false := by
  obtain ⟨w, rest, rfl⟩ := List.exists_cons_of_ne_nil hne
  obtain ⟨hw, hchars⟩ := hsolid w (by simp)
  obtain ⟨c, cs, hcs⟩ := List.exists_cons_of_ne_nil hw
  have hc : Text.isBlank c = false := by
    have := hchars c (by simp [hcs])
    simp only [Token.isWordChar, Bool.and_eq_true, Bool.not_eq_true'] at this
    exact this.1.1
  have hmark : Text.isBlank mark.mark = false := by cases mark <;> decide
  obtain ⟨mid, hmid⟩ : ∃ mid, (Sentence.marked (w :: rest) (some mark)).toList = c :: (mid ++ [mark.mark]) := by
    cases rest with
    | nil => exact ⟨cs, by simp [Sentence.marked, Word.spaced, hcs]⟩
    | cons v rest =>
      exact ⟨cs ++ ' ' :: [' '].intercalate (v.toList :: rest.map String.toList),
        by simp [Sentence.marked, Word.spaced, hcs]⟩
  rw [hmid]
  simp [Text.trim, hc, hmark]

end Reading

/-- A text that is kept as it is. -/
def IsComment (text : String) : Prop := "///".toList <+: text.toList

instance (text : String) : Decidable (IsComment text) := inferInstanceAs (Decidable ("///".toList <+: text.toList))

open Reading

variable {g : Grammar} {text shown : String} {s : Sentence}

theorem Grammar.parse_eq_ok : g.parse text shown = .ok s ↔
    ((tokenize text).filter Token.isWord).getLast?.any (·.is .li) = false ∧ text.toList.all Text.isBlank = false ∧
      ((IsComment text ∧ s = .comment text) ∨
        (¬ IsComment text ∧ adjacencyError? g.dialect text (tokenize text) = none ∧
          Text.trim text.toList = text.toList ∧
          (tokenize text).head?.any (fun t ↦ t.is .li || t.is .la) = false ∧ wordsOf text ≠ [] ∧
          ∃ mark, (sentenceWords text (tokenize text) : Except ParseError _) = .ok (wordsOf text, mark) ∧
            (sentence g.lexicon (wordsOf text) (mark.getD .period) shown : Except ParseError Sentence) = .ok s)) := by
  unfold Grammar.parse Grammar.read
  dsimp only
  -- One guard after the other, in the order in which they are checked.
  split
  case isTrue h => exact ⟨fun hread ↦ absurd hread throw_ne_ok, fun hread ↦ absurd (h.symm.trans hread.1) (by decide)⟩
  case isFalse hli =>
  split
  case isTrue h => simp [h]
  case isFalse hblank =>
  simp only [hli, hblank, true_and]
  split
  case isTrue h =>
    have hcomment : IsComment text := List.isPrefixOf_iff_prefix.1 h
    simp only [hcomment, pure_eq_ok, true_and, not_true_eq_false, false_and, or_false]
    exact eq_comm
  case isFalse h =>
  have hcomment : ¬ IsComment text := fun hlooks ↦ h (List.isPrefixOf_iff_prefix.2 hlooks)
  simp only [hcomment, false_and, false_or, not_false_eq_true, true_and]
  split
  case _ e he => simp [he]
  case _ hadj =>
  simp only [hadj, true_and]
  split
  case isTrue h => simp_all
  case isFalse htrim =>
  split
  case isTrue h => simp [h]
  case isFalse hhead =>
  simp only [bne_iff_ne, ne_eq, not_not] at htrim
  simp only [htrim, hhead, true_and]
  constructor
  · intro h
    obtain ⟨⟨words, mark⟩, hwords, h⟩ := bind_eq_ok.1 h
    obtain rfl := words_of_sentenceWords hwords
    split at h
    · exact absurd h throw_ne_ok
    · rename_i hne
      exact ⟨by simpa using hne, mark, hwords, h⟩
  · rintro ⟨hne, mark, hwords, h⟩
    simpa [hwords, hne] using h

theorem filter_isWord_marked {words : List String} (hwords : Solid words) (mark : Punctuation) :
    (tokenize (Sentence.marked words (some mark))).filter Token.isWord = Token.ofWords 0 words := by
  obtain ⟨pos, hpos⟩ := tokenize_marked hwords mark
  rw [hpos, filter_ofWords_concat (fun _ hword _ ↦ hword)]
  simp [Token.isWord]

theorem wordsOf_marked {words : List String} (hwords : Solid words) (mark : Punctuation) :
    wordsOf (Sentence.marked words (some mark)) = words := by
  simp [wordsOf, filter_isWord_marked hwords mark]

/-- A written sentence is read from the words that it is written with. -/
theorem Grammar.parse_marked {words : List String} (hsolid : Solid words) (hne : words ≠ []) {mark : Punctuation} :
    g.parse (Sentence.marked words (some mark)) shown = .ok s ↔
      words.getLast? ≠ some Particle.li.word ∧
      ((IsComment (Sentence.marked words (some mark)) ∧ s = .comment (Sentence.marked words (some mark))) ∨
        (¬ IsComment (Sentence.marked words (some mark)) ∧ words.IsChain (MayFollow g.dialect) ∧
          (∀ w ∈ words.head?, w ≠ Particle.li.word ∧ w ≠ Particle.la.word) ∧
          (sentence g.lexicon words mark shown : Except ParseError Sentence) = .ok s)) := by
  obtain ⟨pos, hpos⟩ := tokenize_marked hsolid mark
  obtain ⟨htrim, hblank⟩ := trim_marked hsolid hne mark
  have hfilter := filter_isWord_marked hsolid mark
  have hwords := wordsOf_marked hsolid mark
  have hlast : ((tokenize (Sentence.marked words (some mark))).filter Token.isWord).getLast?.any (·.is .li) = false ↔
      words.getLast? ≠ some Particle.li.word := by
    rw [hfilter]
    exact getLast?_ofWords
  have hhead : (tokenize (Sentence.marked words (some mark))).head?.any (fun t ↦ t.is .li || t.is .la) = false ↔
      ∀ w ∈ words.head?, w ≠ Particle.li.word ∧ w ≠ Particle.la.word := by
    obtain ⟨w, rest, rfl⟩ := List.exists_cons_of_ne_nil hne
    simp [hpos, Token.ofWords, ← Bool.not_eq_true, is_ofWord]
  rw [Grammar.parse_eq_ok, hlast, hhead, hwords, hpos, adjacencyError?_ofWords]
  simp [hblank, htrim, hne, sentenceWords_ofWords]

end TokiPona
