import TokiPona.Proofs.Layout
import TokiPona.Proofs.Sorted

namespace TokiPona

/-- The sentence with a mark in the place of its own. -/
def Sentence.withMark (mark : Option Punctuation) : Sentence → Sentence
  | simple s => simple { s with punctuation := mark }
  | conditional preconditions conclusion => conditional preconditions (conclusion.withMark mark)
  | vocative addressee _ => vocative addressee mark
  | fragment context _ => fragment context mark
  | exclamation phrase _ => exclamation phrase mark
  | comment text => comment text

@[simp] theorem Sentence.withoutPunctuation_withMark (mark : Option Punctuation) (s : Sentence) :
    (s.withMark mark).withoutPunctuation = s.withoutPunctuation := by
  fun_induction withMark mark s <;> simp_all [withoutPunctuation]

namespace Reading

variable {lex : Lexicon} {words : List String}

theorem withMark_sentence (b : Body) (mark mark' : Option Punctuation) (rest : OpenedClause)
    (conjunction : Option Particle) (tagQuestion : Bool) (mood : Mood) :
    (b.sentence mark rest conjunction tagQuestion mood).withMark mark' =
      b.sentence mark' rest conjunction tagQuestion mood := by
  cases b <;> rfl

theorem clause_withMark {mark : Option Punctuation} {s : Sentence}
    (h : (clause lex words mark : Except ParseError Sentence) = .ok s) (mark' : Option Punctuation) :
    (clause lex words mark' : Except ParseError Sentence) = .ok (s.withMark mark') := by
  rcases clause_eq_ok.1 h with ⟨addressee, ho, rfl⟩ | ⟨rest, ho, hread⟩
  · exact clause_eq_ok.2 (.inl ⟨addressee, ho, rfl⟩)
  · refine clause_eq_ok.2 (.inr ⟨rest, ho, ?_⟩)
    cases hread with
    | intro hconj htag hmood hlast hla hne hbody =>
      rw [withMark_sentence]
      exact .intro hconj htag hmood hlast hla hne hbody

theorem ReadsClauses.withMark {mark : Punctuation} {runs : List (List String)} {preconditions : List Sentence}
    {s : Sentence} (h : ReadsClauses lex mark runs preconditions s) (mark' : Punctuation) :
    ReadsClauses lex mark' runs preconditions (s.withMark (some mark')) := by
  induction h with
  | conclusion h => exact .conclusion (clause_withMark h _)
  | condition hli h _ ih => exact .condition hli h ih
  | contextOfCondition hne hli h _ ih => exact .contextOfCondition hne hli h ih
  | contextOfConclusion hne hli h _ ih => exact .contextOfConclusion hne hli h ih

theorem withMark_assembled (mark : Option Punctuation) (preconditions : List Sentence) (s : Sentence) :
    (assembled preconditions s).withMark mark = assembled preconditions (s.withMark mark) := by
  cases preconditions <;> rfl

theorem sentence_withMark {mark : Punctuation} {shown : String} {s : Sentence} (hne : words ≠ [])
    (h : (sentence lex words mark shown : Except ParseError Sentence) = .ok s) (mark' : Punctuation) (shown' : String) :
    (sentence lex words mark' shown' : Except ParseError Sentence) = .ok (s.withMark (some mark')) := by
  rcases (sentence_eq_ok hne).1 h with ⟨first, c, hwords, hc, rfl⟩ | ⟨preconditions, conclusion, hread, rfl⟩
  · exact (sentence_eq_ok hne).2 (.inl ⟨first, c, hwords, hc, rfl⟩)
  · exact (sentence_eq_ok hne).2 (.inr ⟨preconditions, _, hread.withMark mark', withMark_assembled _ _ _⟩)

theorem punctuation_of_sentence {mark : Punctuation} {shown : String} {s : Sentence} (hne : words ≠ [])
    (h : (sentence lex words mark shown : Except ParseError Sentence) = .ok s) : s.punctuation = some mark := by
  rcases (sentence_eq_ok hne).1 h with ⟨first, c, -, -, rfl⟩ | ⟨preconditions, conclusion, hread, rfl⟩
  · rfl
  · have hmark := hread.punctuation.1
    cases preconditions with
    | nil => exact hmark
    | cons p preconditions => exact hmark

end Reading

open Reading

/-- What a text has to be so that it is read with a mark after it. -/
structure TakesMark (dialect : Dialect) (text : String) : Prop where
  last : ((tokenize text).filter Token.isWord).getLast?.any (·.is .li) = false
  apart : (tokenize text).IsChain (TokenMayFollow dialect)
  start : ∀ c ∈ text.toList.head?, Text.isBlank c = false
  unmarked : (tokenize text).head?.any (fun t ↦ t.is .li || t.is .la) = false
  spoken : wordsOf text ≠ []
  plain : ∀ t ∈ (tokenize text).filter (!·.isQuote), t.isPlain = true

section

variable {text : String} {p : Punctuation}

theorem isMark_mark (p : Punctuation) : Token.isMark p.mark = true := by cases p <;> decide

theorem terminal?_ofMark (p : Punctuation) (pos : Nat) : (Token.ofMark pos p.mark).terminal? = some p := by
  simp [Token.ofMark, Token.terminal?, isMark_mark]

theorem tokenize_push (text : String) (p : Punctuation) : tokenize (text.push p.mark) =
    tokenize text ++ [Token.ofMark text.utf8ByteSize p.mark] := by
  have h := tokenize_insert (.inl (isMark_mark p)) text ""
  simpa [Token.scan_nil, tokenize] using h

theorem isComment_push : IsComment (text.push p.mark) ↔ IsComment text := by
  have hslash := (Token.of_isMark (.inl (isMark_mark p))).2.2
  have hchars : (text.push p.mark).toList = text.toList ++ p.mark :: [] := by simp
  rw [IsComment, IsComment, hchars]
  constructor
  · intro h
    simpa using isComment_insert hslash h
  · exact fun h ↦ h.trans (List.prefix_append _ _)

theorem isMarkedBy_concat {tokens : List Token} {t : Token} {mark : Option Punctuation} (ht : t.terminal? = some p) :
    IsMarkedBy mark (tokens ++ [t]) ↔ mark = some p ∧ ∀ u ∈ tokens.filter (!·.isQuote), u.isPlain = true := by
  have hquote : t.isQuote = false := by
    rcases hk : t.kind with _ | _ | c | c <;> simp_all [Token.terminal?, Token.isQuote]
  have hfilter : (tokens ++ [t]).filter (!·.isQuote) = tokens.filter (!·.isQuote) ++ [t] := by simp [hquote]
  rw [IsMarkedBy, hfilter]
  constructor
  · rintro ⟨plain, last, heq, hplain, hlast⟩
    have htake : takeMark (tokens.filter (!·.isQuote) ++ [t]) = (tokens.filter (!·.isQuote), some p) := by
      simp [takeMark, ht]
    rw [heq, takeMark_of_isPlain hplain hlast] at htake
    obtain ⟨rfl, rfl⟩ := Prod.mk.inj htake
    exact ⟨rfl, hplain⟩
  · rintro ⟨rfl, hplain⟩
    exact ⟨_, [t], rfl, hplain, by simp [ht]⟩

theorem isChain_concat {dialect : Dialect} {tokens : List Token} {t : Token} (h : t.isWord = false) :
    (tokens ++ [t]).IsChain (TokenMayFollow dialect) ↔ tokens.IsChain (TokenMayFollow dialect) := by
  rw [List.isChain_append]
  refine ⟨And.left, fun hchain ↦ ⟨hchain, .singleton t, fun s _ u hu ↦ ?_⟩⟩
  obtain rfl : t = u := by simpa using hu
  exact (tokenMayFollow_of_not_word h s).1

theorem trim_concat {cs : List Char} {c : Char} (hc : Text.isBlank c = false) :
    Text.trim (cs ++ [c]) = cs ++ [c] ↔ ∀ d ∈ cs.head?, Text.isBlank d = false := by
  rw [trim_eq_self_iff, List.getLast?_concat]
  cases cs <;> simp [hc]

theorem head?_concat {tokens : List Token} {t : Token} (h : t.isWord = false) :
    (tokens ++ [t]).head?.any (fun t ↦ t.is .li || t.is .la) = tokens.head?.any (fun t ↦ t.is .li || t.is .la) := by
  cases tokens with
  | nil => rcases hk : t.kind with _ | _ | c | c <;> simp_all [Token.is, Token.isWord]
  | cons s tokens => rfl

theorem Grammar.parse_push_eq_ok {g : Grammar} {shown : String} {s : Sentence} (hcomment : ¬ IsComment text) :
    g.parse (text.push p.mark) shown = .ok s ↔ TakesMark g.dialect text ∧
      (sentence g.lexicon (wordsOf text) p shown : Except ParseError Sentence) = .ok s := by
  have hblank := (Token.of_isMark (.inl (isMark_mark p))).2.1
  have hword := Token.isWord_ofMark text.utf8ByteSize p.mark
  have htokens := tokenize_push text p
  have hchars : (text.push p.mark).toList = text.toList ++ [p.mark] := by simp
  have hfilter : (tokenize (text.push p.mark)).filter Token.isWord =
      (tokenize text).filter Token.isWord := by simp [htokens, hword]
  have hwords : wordsOf (text.push p.mark) = wordsOf text := by rw [wordsOf, hfilter, wordsOf]
  have hread (mark : Option Punctuation) : (sentenceWords (text.push p.mark)
      (tokenize (text.push p.mark)) : Except ParseError _) = .ok (wordsOf text, mark) ↔
        mark = some p ∧ ∀ t ∈ (tokenize text).filter (!·.isQuote), t.isPlain = true := by
    rw [sentenceWords_eq_ok, hfilter, htokens, isMarkedBy_concat (terminal?_ofMark p _), wordsOf]
    simp
  rw [Grammar.parse_eq_ok, hfilter, hwords, isComment_push, adjacencyError?_eq_none, hchars, trim_concat hblank]
  simp only [hread, hcomment, List.all_append, List.all_cons, hblank, false_and, false_or, not_false_eq_true, true_and]
  rw [htokens, isChain_concat hword, head?_concat hword]
  constructor
  · rintro ⟨hlast, -, hapart, hstart, hhead, hne, mark, ⟨rfl, hplain⟩, hs⟩
    exact ⟨⟨hlast, hapart, hstart, hhead, hne, hplain⟩, hs⟩
  · rintro ⟨⟨hlast, hapart, hstart, hhead, hne, hplain⟩, hs⟩
    exact ⟨hlast, by simp, hapart, hstart, hhead, hne, some p, ⟨rfl, hplain⟩, hs⟩

theorem Grammar.parse_withMark {g : Grammar} {shown : String} {s : Sentence} (hcomment : ¬ IsComment text)
    (h : g.parse (text.push p.mark) shown = .ok s) (p' : Punctuation) (shown' : String) :
    g.parse (text.push p'.mark) shown' = .ok (s.withMark (some p')) := by
  obtain ⟨htakes, hs⟩ := (Grammar.parse_push_eq_ok hcomment).1 h
  exact (Grammar.parse_push_eq_ok hcomment).2 ⟨htakes, sentence_withMark htakes.spoken hs p' shown'⟩

theorem Grammar.punctuation_of_parse {g : Grammar} {shown : String} {s : Sentence} (hcomment : ¬ IsComment text)
    (h : g.parse (text.push p.mark) shown = .ok s) : s.punctuation = some p := by
  obtain ⟨htakes, hs⟩ := (Grammar.parse_push_eq_ok hcomment).1 h
  exact punctuation_of_sentence htakes.spoken hs

end

/-- The terminal mark changes nothing but itself: a text that is read with one of the four marks after it is read with
each of them, as the same tree but for the mark, and the sentence has the mark that was written. -/
theorem Grammar.parse_push_mark (g : Grammar) {text : String} (hcomment : ¬ IsComment text) (p p' : Punctuation)
    (shown shown' : String) :
    ((∃ s, g.parse (text.push p.mark) shown = .ok s) ↔ ∃ s', g.parse (text.push p'.mark) shown' = .ok s') ∧
      ∀ s s', g.parse (text.push p.mark) shown = .ok s → g.parse (text.push p'.mark) shown' = .ok s' →
        s' = s.withMark (some p') ∧ s.equivalent s' = true ∧ s.withoutPunctuation = s'.withoutPunctuation ∧
          s.punctuation = some p ∧ s'.punctuation = some p' := by
  refine ⟨⟨?_, ?_⟩, fun s s' hs hs' ↦ ?_⟩
  · rintro ⟨s, hs⟩
    exact ⟨_, Grammar.parse_withMark hcomment hs p' shown'⟩
  · rintro ⟨s', hs'⟩
    exact ⟨_, Grammar.parse_withMark hcomment hs' p shown⟩
  · have heq : s' = s.withMark (some p') :=
      Except.ok.inj (hs'.symm.trans (Grammar.parse_withMark hcomment hs p' shown'))
    have hbare : s.withoutPunctuation = s'.withoutPunctuation := by rw [heq, Sentence.withoutPunctuation_withMark]
    refine ⟨heq, ?_, hbare, Grammar.punctuation_of_parse hcomment hs, Grammar.punctuation_of_parse hcomment hs'⟩
    rw [Sentence.equivalent_iff, hbare]

/-- A condition with a quote mark after its conclusion, read as told and as asked. -/
theorem Grammar.parse_push_mark_condition :
    let g : Grammar := ⟨Dictionary.standard.lexicon, .strict⟩
    let text := "taso sina lape la, jan Mato o, mi moku »"
    ¬ IsComment text ∧ ∃ s s', g.parse (text.push ':') "" = .ok s ∧ g.parse (text.push '?') "" = .ok s' ∧
      s' = s.withMark (some .question) ∧ s.equivalent s' = true ∧ s.withoutPunctuation = s'.withoutPunctuation ∧
        s.punctuation = some .colon ∧ s'.punctuation = some .question := by
  intro g text
  have hcomment : ¬ IsComment text := by decide +kernel
  obtain ⟨hiff, hmarks⟩ := Grammar.parse_push_mark g hcomment .colon .question "" ""
  obtain ⟨s, hs, -⟩ := map_eq_ok.1 (show Sentence.words <$> g.parse (text.push ':') "" =
    .ok ["sina", "lape", "jan", "Mato", "mi", "moku"] by decide +kernel)
  obtain ⟨s', hs'⟩ := hiff.1 ⟨s, hs⟩
  exact ⟨hcomment, s, s', hs, hs', hmarks s s' hs hs'⟩

end TokiPona
