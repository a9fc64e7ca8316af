import TokiPona.Proofs.Moods

namespace TokiPona

open Reading

def isShown (c : Char) : Bool := !Text.isBlank c && !Token.isQuoteMark c

/-- The mark that a text ends in, if it does; blanks and quote marks after it do not count. -/
def terminalMark? (text : String) : Option Punctuation := (text.toList.filter isShown).getLast?.bind Punctuation.ofChar?

namespace Token

theorem isShown_of_isWordChar {c : Char} (h : isWordChar c = true) : isShown c = true ∧ Punctuation.ofChar? c = none := by
  simp only [isWordChar, Bool.and_eq_true, Bool.not_eq_true'] at h
  obtain ⟨⟨hblank, hmark⟩, hquote⟩ := h
  refine ⟨by simp [isShown, hblank, hquote], ?_⟩
  by_contra hsome
  obtain ⟨p, hp⟩ := Option.ne_none_iff_exists'.1 hsome
  rw [← Punctuation.mark_of_ofChar? hp] at hmark
  cases p <;> simp [isMark, Punctuation.mark] at hmark

theorem isShown_of_isMark {c : Char} (h : isMark c = true) : isShown c = true := by
  simp only [isMark, List.mem_cons, List.not_mem_nil, or_false, decide_eq_true_eq] at h
  rcases h with rfl | rfl | rfl | rfl | rfl | rfl <;> decide

theorem isShown_eq_false {c : Char} (hword : isWordChar c = false) (hmark : isMark c = false) : isShown c = false := by
  simpa [isWordChar, hmark, isShown] using hword

theorem terminal?_ofWord (pos : Nat) (w : String) : (ofWord pos w).isQuote = false ∧ (ofWord pos w).terminal? = none := by
  unfold ofWord
  split <;> exact ⟨rfl, rfl⟩

theorem getLast?_scan (pos : Nat) (cs : List Char) : ((scan pos cs).filter (!·.isQuote)).getLast?.map terminal? =
    (cs.filter isShown).getLast?.map Punctuation.ofChar? := by
  have hcons {α β : Type} (f : α → β) (x : α) (xs : List α) :
      (x :: xs).getLast?.map f = (xs.getLast?.map f).or (some (f x)) := by
    cases hlast : xs.getLast? <;> simp [List.getLast?_cons, hlast]
  fun_induction scan pos cs with
  | case1 => rfl
  | case2 pos c rest hc w ih =>
    -- all characters of a word count and none is a mark, so a word at the end rules out a mark
    obtain ⟨hquote, hterminal⟩ := terminal?_ofWord pos w
    have hword : ∀ d ∈ c :: rest.takeWhile isWordChar, isShown d = true ∧ Punctuation.ofChar? d = none := by
      intro d hd
      rcases List.mem_cons.1 hd with rfl | hd
      · exact isShown_of_isWordChar hc
      · exact isShown_of_isWordChar (List.all_eq_true.1 List.all_takeWhile d hd)
    have hlast : (c :: rest.takeWhile isWordChar).getLast?.map Punctuation.ofChar? = some none := by
      obtain ⟨d, hd⟩ := Option.isSome_iff_exists.1 (by simp : (c :: rest.takeWhile isWordChar).getLast?.isSome = true)
      rw [hd, Option.map_some, (hword d (List.mem_of_getLast? hd)).2]
    have hrest : c :: rest = (c :: rest.takeWhile isWordChar) ++ rest.dropWhile isWordChar := by
      rw [List.cons_append, List.takeWhile_append_dropWhile]
    rw [List.filter_cons_of_pos (by simp [hquote]), hcons, ih, hterminal, hrest, List.filter_append,
      List.filter_eq_self.2 (fun d hd ↦ (hword d hd).1), List.getLast?_append, Option.map_or, hlast]
  | case3 pos c rest hc tokens hm ih =>
    rw [List.filter_cons_of_pos rfl, List.filter_cons_of_pos (isShown_of_isMark hm), hcons, hcons, ih]
    rfl
  | case4 pos c rest hc tokens hm hq ih =>
    rw [List.filter_cons_of_neg (by simp [isQuote]), ih,
      List.filter_cons_of_neg (by simp [isShown_eq_false (by simpa using hc) (by simpa using hm)])]
  | case5 pos c rest hc tokens hm hq ih =>
    rw [ih, List.filter_cons_of_neg (by simp [isShown_eq_false (by simpa using hc) (by simpa using hm)])]

end Token

theorem Reading.mark_of_sentenceWords {text : String} {words : List String} {mark : Option Punctuation}
    (h : (sentenceWords text (tokenize text) : Except ParseError _) = .ok (words, mark)) : mark = terminalMark? text := by
  have hmark (tokens : List Token) : (takeMark tokens).2 = tokens.getLast?.bind Token.terminal? := by
    unfold takeMark
    split
    · simp_all
    case _ hnone => exact hnone.symm
  have hread : (plainWords text (takeMark ((tokenize text).filter (!·.isQuote))).1 >>= fun words ↦
      pure (words, (takeMark ((tokenize text).filter (!·.isQuote))).2) : Except ParseError _) = .ok (words, mark) := h
  obtain ⟨words', -, heq⟩ := bind_eq_ok.1 hread
  obtain ⟨-, rfl⟩ := Prod.mk.inj (pure_eq_ok.1 heq)
  have hscan := congrArg (Option.bind · id) (Token.getLast?_scan 0 text.toList)
  simp only [Option.bind_map, Function.id_comp] at hscan
  rw [hmark]
  exact hscan

/-- A predicate is governed and says something: with a chain, with a verb, or with objects or prepositions alone. -/
structure Predicate.IsWellFormed (p : Predicate) : Prop where
  governed : p.particle = .li ∨ p.particle = .o
  full : ∀ v, p.kind = .verb v →
    v.head.isSome = true ∨ (v.isEmpty = true ∧ (p.objects.isSome = true ∨ p.prepositions ≠ []))

namespace Reading

variable {lex : Lexicon}

theorem head_verbPhrase (lex : Lexicon) {words : List String} (hne : words ≠ []) :
    (verbPhrase lex words).head.isSome = true := by
  rcases verbPhrase_cases lex hne with ⟨modals, head, adverbs, -, -, -, heq⟩ | ⟨head, adverbs, -, -, heq⟩ <;>
    simp [heq]

theorem verb_of_predicateKind {words : List String} {kind : Option PredicateKind} {v : VerbPhrase}
    (h : (predicateKind lex words : Except ParseError (Option PredicateKind)) = .ok kind)
    (hv : kind.getD (.verb {}) = .verb v) : v.head.isSome = true ∨ (words = [] ∧ v = {}) := by
  cases predicateKind_eq_ok.1 h with
  | nothing => exact .inr ⟨rfl, (PredicateKind.verb.inj hv).symm⟩
  | pi => simp at hv
  | nominal => simp at hv
  | verb hne =>
    obtain rfl := PredicateKind.verb.inj hv
    exact .inl (head_verbPhrase lex hne)

theorem ReadsPredicate.isWellFormed {part : List String} {p : Predicate} (h : ReadsPredicate lex part p) :
    p.IsWellFormed := by
  have hgov : p.particle = .li ∨ p.particle = .o := by
    obtain ⟨hgov, -⟩ := h.eq_cons
    by_cases ho : p.particle = .o
    · exact .inr ho
    · exact .inl (particle_eq_li hgov ho)
  refine ⟨hgov, fun v hv ↦ ?_⟩
  cases h with
  | transitive _ _ hkind _ _ =>
    rcases verb_of_predicateKind hkind hv with hhead | ⟨-, rfl⟩
    · exact .inl hhead
    · exact .inr ⟨rfl, .inl rfl⟩
  | intransitive _ hne _ _ hkind _ hphrases =>
    rcases verb_of_predicateKind hkind hv with hhead | ⟨rfl, rfl⟩
    · exact .inl hhead
    · refine .inr ⟨rfl, .inr ?_⟩
      rintro rfl
      cases hphrases
      exact hne rfl
  | promoted =>
    obtain rfl := PredicateKind.verb.inj hv
    exact .inl rfl

end Reading

structure SimpleSentence.IsWellFormed (s : SimpleSentence) : Prop where
  predicates_ne_nil : s.predicates ≠ []
  predicates : ∀ p ∈ s.predicates, p.IsWellFormed
  contexts : ∀ phrases, .prepositional phrases ∈ s.contexts → phrases ≠ []

namespace SimpleSentence.IsWellFormed

variable {lex : Lexicon} {words : List String} {s : SimpleSentence}

theorem of_clause {mark : Option Punctuation}
    (h : (clause lex words mark : Except ParseError Sentence) = .ok (.simple s)) : s.IsWellFormed := by
  cases isRead_of_clause h with
  | simple hread =>
    refine ⟨hread.predicates, fun p hp ↦ ?_, by simp [hread.contexts]⟩
    obtain ⟨part, hpart, -⟩ := hread.predicates_read p hp
    exact hpart.isWellFormed

theorem context {c : Context} (h : s.IsWellFormed) (hc : (context lex words : Except ParseError Context) = .ok c) :
    { s with contexts := c :: s.contexts }.IsWellFormed := by
  refine ⟨h.predicates_ne_nil, h.predicates, fun phrases hmem ↦ ?_⟩
  rcases List.mem_cons.1 hmem with rfl | hmem
  · exact prepositional_ne_nil hc
  · exact h.contexts phrases hmem

end SimpleSentence.IsWellFormed

def Sentence.IsJoinable : Sentence → Prop
  | conditional _ _ | fragment _ _ | comment _ => False
  | _ => True

theorem Reading.ReadsClauses.isJoinable {lex : Lexicon} {mark : Punctuation} {runs : List (List String)}
    {preconditions : List Sentence} {s : Sentence} (h : ReadsClauses lex mark runs preconditions s) :
    (∀ p ∈ preconditions, p.IsJoinable) ∧ s.IsJoinable := by
  have hclause {words : List String} {mark : Option Punctuation} {s : Sentence}
      (h : (clause lex words mark : Except ParseError Sentence) = .ok s) : s.IsJoinable := by
    cases isRead_of_clause h <;> trivial
  induction h with
  | conclusion h => exact ⟨by simp, hclause h⟩
  | condition _ h _ ih => exact ⟨List.forall_mem_cons.2 ⟨hclause h, ih.1⟩, ih.2⟩
  | contextOfCondition _ _ _ _ ih => exact ⟨List.forall_mem_cons.2 ⟨trivial, (List.forall_mem_cons.1 ih.1).2⟩, ih.2⟩
  | contextOfConclusion _ _ _ _ _ => exact ⟨by simp, trivial⟩

structure Sentence.IsWellFormed (mark : Punctuation) (s : Sentence) : Prop where
  punctuation : s.punctuation = some mark
  conditional : ∀ preconditions conclusion, s = .conditional preconditions conclusion →
    preconditions ≠ [] ∧ (∀ p ∈ preconditions, p.IsJoinable ∧ p.punctuation = none) ∧ conclusion.IsJoinable
  simples : ∀ t ∈ s.simples, t.IsWellFormed

/-- Every sentence that is no comment is well formed and carries the mark of its text, or a period where there is none. -/
theorem Grammar.isWellFormed_of_parse (g : Grammar) {text shown : String} {s : Sentence} (h : g.parse text shown = .ok s)
    (hcomment : ¬ IsComment text) : s.IsWellFormed ((terminalMark? text).getD .period) := by
  have hsimples := Grammar.forall_simples h (fun _ _ _ _ ↦ SimpleSentence.IsWellFormed.of_clause)
    (fun _ _ _ hc ht ↦ ht.context hc)
  rcases (Grammar.parse_eq_ok.1 h).2.2 with ⟨hlooks, -⟩ | ⟨-, -, -, -, hne, mark, hwords, hread⟩
  · exact absurd hlooks hcomment
  · obtain rfl := mark_of_sentenceWords hwords
    rcases (sentence_eq_ok hne).1 hread with ⟨first, c, -, -, rfl⟩ | ⟨preconditions, conclusion, hclauses, rfl⟩
    · exact ⟨rfl, nofun, hsimples⟩
    · obtain ⟨hmark, hunmarked⟩ := hclauses.punctuation
      obtain ⟨hpre, hconclusion⟩ := hclauses.isJoinable
      refine ⟨?_, fun ps c heq ↦ ?_, hsimples⟩
      · cases preconditions <;> exact hmark
      · cases preconditions with
        | nil =>
          obtain rfl : conclusion = .conditional ps c := heq
          exact hconclusion.elim
        | cons p preconditions =>
          obtain ⟨rfl, rfl⟩ := Sentence.conditional.inj heq
          exact ⟨by simp, fun p hp ↦ ⟨hpre p hp, hunmarked p hp⟩, hconclusion⟩

/-- A question in quote marks, with a condition and a context. -/
theorem Grammar.isWellFormed_question :
    let g : Grammar := ⟨Dictionary.standard.lexicon, {}⟩
    ∃ s, g.parse "«~lon tomo la sina wile la mi moku?»" "" = .ok s ∧ s.simples.length = 2 ∧ s.IsWellFormed .question := by
  intro g
  obtain ⟨s, hs, hlength⟩ := map_eq_ok.1 (show (fun s ↦ s.simples.length) <$>
    g.parse "«~lon tomo la sina wile la mi moku?»" "" = .ok 2 by decide +kernel)
  have hmark : terminalMark? "«~lon tomo la sina wile la mi moku?»" = some .question := by decide +kernel
  have hform := Grammar.isWellFormed_of_parse g hs (by decide +kernel)
  rw [hmark] at hform
  exact ⟨s, hs, hlength, hform⟩

end TokiPona
