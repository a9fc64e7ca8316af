import TokiPona.Proofs.Layout

/-!
A `li` that is left out after `mi` or `sina` may as well be written: the text with every such `li` written out is read
as the same sentence. To write one of them is a step, which leaves the others to be written and the sentence as it is.
-/

namespace TokiPona

namespace Token

/-- That a text which starts at byte `pos` is cut behind the word `t`, with the tokens before and after. -/
def IsCutBehind (pos : Nat) (cs : List Char) (before : List Token) (t : Token) (after : List Token) : Prop :=
  ∃ front back, cs = front ++ back ∧ scan pos front = before ++ [t] ∧
    pos + (String.ofList front).utf8ByteSize = t.stop ∧ scan t.stop back = after ∧
    ∀ c ∈ back.head?, isWordChar c = false

theorem IsCutBehind.cons {pos : Nat} {c : Char} {rest : List Char} {before after : List Token} {t : Token}
    (h : IsCutBehind (pos + c.utf8Size) rest before t after) (marks : List Token)
    (hc : ∀ cs, scan pos (c :: cs) = marks ++ scan (pos + c.utf8Size) cs) :
    IsCutBehind pos (c :: rest) (marks ++ before) t after := by
  obtain ⟨front, back, rfl, hfront, hstop, hback, hhead⟩ := h
  refine ⟨c :: front, back, rfl, ?_, ?_, hback, hhead⟩
  · rw [hc, hfront, List.append_assoc]
  · rw [size_cons, ← Nat.add_assoc, hstop]

theorem isCutBehind_of_scan {pos : Nat} {cs : List Char} {before after : List Token} {t : Token}
    (h : scan pos cs = before ++ t :: after) (ht : t.isWord = true) : IsCutBehind pos cs before t after := by
  fun_induction scan pos cs generalizing before with
  | case1 => simp at h
  | case2 pos c rest hc w =>
    rename_i ih
    obtain ⟨hsolid, hchars, hrest⟩ : Word.IsSolid w ∧ c :: rest = w.toList ++ rest.dropWhile isWordChar ∧ _ :=
      leading_word hc rest
    -- The cut is behind the word at the head, or behind a later one, which the induction hypothesis finds.
    cases before with
    | nil =>
      obtain ⟨rfl, rfl⟩ := List.cons.inj h
      refine ⟨w.toList, rest.dropWhile isWordChar, hchars, ?_, ?_, rfl, hrest⟩
      · simpa [scan_nil] using scan_solid hsolid pos [] (by simp)
      · simp [stop, size, ofWord]
    | cons s before =>
      obtain ⟨rfl, hafter⟩ := List.cons.inj h
      obtain ⟨front, back, hcut, hfront, hstop, hback, hhead⟩ := ih hafter
      refine ⟨w.toList ++ front, back, by rw [hchars, hcut, List.append_assoc], ?_, ?_, hback, hhead⟩
      · rw [scan_solid hsolid pos front, hfront]
        · rfl
        · intro d hd
          exact hrest d (by rw [hcut, List.head?_append, Option.mem_def.1 hd]; rfl)
      · rw [size_append, String.ofList_toList, ← Nat.add_assoc, hstop]
  | case3 pos c rest hc tokens hm =>
    rename_i ih
    cases before with
    | nil =>
      obtain ⟨rfl, -⟩ := List.cons.inj h
      simp [isWord] at ht
    | cons s before =>
      obtain ⟨rfl, hafter⟩ := List.cons.inj h
      exact (ih hafter).cons [_] (fun cs ↦ by rw [scan_cons, if_neg hc, if_pos hm]; rfl)
  | case4 pos c rest hc tokens hm hq =>
    rename_i ih
    cases before with
    | nil =>
      obtain ⟨rfl, -⟩ := List.cons.inj h
      simp [isWord] at ht
    | cons s before =>
      obtain ⟨rfl, hafter⟩ := List.cons.inj h
      exact (ih hafter).cons [_] (fun cs ↦ by rw [scan_cons, if_neg hc, if_neg hm, if_pos hq]; rfl)
  | case5 pos c rest hc tokens hm hq =>
    rename_i ih
    exact (ih h).cons [] (fun cs ↦ by rw [scan_cons, if_neg hc, if_neg hm, if_neg hq]; rfl)

def liBehind (u : Token) : Token := ofWord (u.stop + 1) Particle.li.word

theorem is_liBehind (u : Token) (p : Particle) : u.liBehind.is p = true ↔ p = .li := by
  rw [liBehind, Reading.is_ofWord, Particle.word_inj, eq_comm]

theorem scan_written {pos : Nat} {front back : List Char} (h : ∀ c ∈ back.head?, isWordChar c = false) :
    scan pos (front ++ (" li".toList ++ back)) =
      scan pos front ++ ofWord (pos + (String.ofList front).utf8ByteSize + 1) Particle.li.word ::
        (scan (pos + (String.ofList front).utf8ByteSize) back).map (shift 3) := by
  have hblank : isWordChar ' ' = false := by decide
  have hchars : " li".toList ++ back = ' ' :: (Particle.li.word.toList ++ back) := by simp [Particle.word]
  rw [hchars, scan_append (.inl (by simpa using hblank)), scan_space, scan_solid Particle.li.isSolid_word _ _ h,
    ← scan_add]
  rfl

end Token

namespace Reading

def clauseTokens (text : String) : List (List Token) :=
  splitDropping (·.is .la) ((tokenize text).filter Token.isWord)

/-- A leading `mi` or `sina` before a word that is neither particle nor number. -/
def barePronoun? (lex : Lexicon) : List Token → Option Token
  | pronoun :: next :: _ =>
    if (pronoun.text == "mi" || pronoun.text == "sina") && next.kind = .word && next.particle?.isNone &&
        !lex.isNumeral next.text then
      some pronoun
    else none
  | _ => none

/-- The pronoun after which a clause without `li` and `o` leaves out a `li`, at its start or after a conjunction. -/
def eliding? (lex : Lexicon) (clause : List Token) : Option Token :=
  if clause.any (·.is .li) || clause.any (·.is .o) then none
  else barePronoun? lex (stripLeading (fun t ↦ t.particle?.any Particle.isConjunction) clause)

/-- The ends of these pronouns in a text, in bytes. -/
def elisions (lex : Lexicon) (text : String) : List Nat :=
  ((clauseTokens text).filterMap (eliding? lex)).map Token.stop

def insertLi : Nat → List Char → List Char
  | 0, cs => " li".toList ++ cs
  | _, [] => []
  | pos, c :: cs => c :: insertLi (pos - c.utf8Size) cs

def liAt (pos : Nat) (text : String) : String := String.ofList (insertLi pos text.toList)

/-- Writes out every `li` that is left out, the last one first, as it does not move the places before it. -/
def withWrittenLi (lex : Lexicon) (text : String) : String := (elisions lex text).foldr liAt text

def WritesLi (lex : Lexicon) (text text' : String) : Prop := ∃ pos ∈ elisions lex text, text' = liAt pos text

theorem insertLi_append (front back : List Char) :
    insertLi (String.ofList front).utf8ByteSize (front ++ back) = front ++ (" li".toList ++ back) := by
  induction front with
  | nil => cases back <;> rfl
  | cons c front ih =>
    have hpos := c.utf8Size_pos
    rw [Token.size_cons, List.cons_append, insertLi, Nat.add_sub_cancel_left, ih]
    · rfl
    · omega

/-- That a `li` is written between two tokens, with what stands around it in the text and among the tokens. -/
structure IsWritten (text text' : String) (before : List Token) (u : Token) (after : List Token) : Prop where
  chars : ∃ front back, front ≠ [] ∧ back ≠ [] ∧ text.toList = front ++ back ∧
    text'.toList = front ++ (" li".toList ++ back)
  tokens : tokenize text = before ++ u :: after
  tokens' : tokenize text' = before ++ u :: u.liBehind :: after.map (.shift 3)

theorem isWritten_liAt {text : String} {before after : List Token} {u : Token} (h : tokenize text = before ++ u :: after)
    (hu : u.isWord = true) (hafter : after ≠ []) : IsWritten text (liAt u.stop text) before u after := by
  obtain ⟨front, back, hchars, hfront, hstop, hback, hhead⟩ := Token.isCutBehind_of_scan h hu
  rw [Nat.zero_add] at hstop
  have hwritten : (liAt u.stop text).toList = front ++ (" li".toList ++ back) := by
    rw [liAt, String.toList_ofList, hchars, ← hstop, insertLi_append]
  refine ⟨⟨front, back, ?_, ?_, hchars, hwritten⟩, h, ?_⟩
  · rintro rfl
    simp [Token.scan_nil] at hfront
  · rintro rfl
    exact hafter (by rw [← hback, Token.scan_nil])
  · rw [tokenize, hwritten, Token.scan_written hhead, hfront, Nat.zero_add, hstop, hback, List.append_assoc]
    rfl

theorem clauseTokens_liAt {text : String} {init others : List (List Token)} {front rest : List Token} {u next : Token}
    (h : clauseTokens text = init ++ (front ++ u :: next :: rest) :: others) :
    (∃ before after words, IsWritten text (liAt u.stop text) before u after ∧
      after.filter Token.isWord = next :: words) ∧
    clauseTokens (liAt u.stop text) =
      init ++ (front ++ u :: u.liBehind :: (next :: rest).map (.shift 3)) ::
        others.map (List.map (.shift 3)) := by
  obtain ⟨ys, zs, hwords, hys, hzs⟩ := splitDropping_eq_append h
  obtain ⟨zs, rfl, hu, hzs⟩ := splitDropping_eq_cons hzs
  obtain ⟨words, rfl, -, -⟩ := splitDropping_eq_cons hzs
  obtain ⟨before, tokens, htokens, rfl, hfilter⟩ := List.filter_eq_append_iff.1 hwords
  obtain ⟨skipped, after, rfl, hskipped, hword, hafter⟩ := List.filter_eq_cons_iff.1 hfilter
  have hwritten : IsWritten text (liAt u.stop text) (before ++ skipped) u after := by
    refine isWritten_liAt (by rw [htokens, List.append_assoc]) hword ?_
    rintro rfl
    simp at hafter
  have hli : u.liBehind.isWord = true := Token.isWord_ofWord _ _
  have hshift : splitDropping (·.is .la) ((next :: words).map (Token.shift 3)) =
      (next :: rest).map (Token.shift 3) :: others.map (List.map (Token.shift 3)) := by
    rw [splitDropping_map]
    simp only [Token.is_shift, hzs, List.map_cons]
  have hla : u.liBehind.is .la = false := by simpa using (u.is_liBehind .la).not.2 (by decide)
  refine ⟨⟨_, _, words, hwritten, hafter⟩, ?_⟩
  have hfilter' : (tokenize (liAt u.stop text)).filter Token.isWord =
      before.filter Token.isWord ++ u :: u.liBehind :: (next :: words).map (.shift 3) := by
    rw [hwritten.tokens', ← hafter]
    simp [List.filter_map, List.filter_eq_nil_iff.2 hskipped, hword, hli, Function.comp_def]
  rw [clauseTokens, hfilter']
  exact splitDropping_append hys (splitDropping_of_not hu (splitDropping_of_not hla hshift))

theorem barePronoun?_shift (lex : Lexicon) (n : Nat) (clause : List Token) :
    barePronoun? lex (clause.map (.shift n)) = (barePronoun? lex clause).map (.shift n) := by
  match clause with
  | [] | [_] => rfl
  | pronoun :: next :: rest =>
    rw [barePronoun?, apply_ite (Option.map (Token.shift n))]
    rfl

theorem eliding?_shift (lex : Lexicon) (n : Nat) (clause : List Token) :
    eliding? lex (clause.map (.shift n)) = (eliding? lex clause).map (.shift n) := by
  rw [eliding?, eliding?, List.any_map, List.any_map, stripLeading_map, barePronoun?_shift,
    apply_ite (Option.map (Token.shift n))]
  rfl

theorem eliding?_of_li {lex : Lexicon} {clause : List Token} {t : Token} (ht : t ∈ clause) (hli : t.is .li = true) :
    eliding? lex clause = none := by
  have hany : clause.any (·.is .li) = true := List.any_eq_true.2 ⟨t, ht, hli⟩
  rw [eliding?, hany]
  rfl

theorem particle?_eq_ofWord? {t : Token} (h : t = .ofWord t.start t.text) : t.particle? = Particle.ofWord? t.text := by
  rw [h, particle?_ofWord]
  rfl

theorem isIn_map_text {clause : List Token} (h : ∀ t ∈ clause, t = .ofWord t.start t.text) (p : Particle) :
    p.isIn (clause.map Token.text) = clause.any (·.is p) := by
  rw [Bool.eq_iff_iff, Particle.isIn_iff, List.mem_map, List.any_eq_true]
  refine exists_congr (fun t ↦ and_congr_right (fun ht ↦ ?_))
  rw [h t ht, is_ofWord]
  rfl

theorem barePronoun?_eq_some {lex : Lexicon} {clause : List Token} {u : Token} (h : barePronoun? lex clause = some u)
    (hclause : ∀ t ∈ clause, t = .ofWord t.start t.text) :
    ∃ next rest, clause = u :: next :: rest ∧ IsQuiet u.text ∧ ¬ IsStructural next.text ∧
      writeLi lex (clause.map Token.text) = u.text :: Particle.li.word :: (next :: rest).map Token.text := by
  match clause with
  | [] | [_] => simp [barePronoun?] at h
  | pronoun :: next :: rest =>
    have hnext := hclause next (by simp)
    rw [barePronoun?] at h
    split at h
    case isFalse => simp at h
    case isTrue hbare =>
    obtain rfl := Option.some.inj h
    have hkind : next.kind = .word → Word.isPreposition next.text = false := by
      intro hkind
      rw [hnext] at hkind
      by_contra hp
      simp [Token.ofWord, hp] at hkind
    simp only [Bool.and_eq_true, Bool.or_eq_true, beq_iff_eq, decide_eq_true_eq, particle?_eq_ofWord? hnext] at hbare
    have hwrite : writeLi lex ((pronoun :: next :: rest).map Token.text) =
        pronoun.text :: Particle.li.word :: (next :: rest).map Token.text := by
      rw [List.map_cons, List.map_cons, writeLi, if_pos]
      simp [hbare, hkind hbare.1.1.2]
    refine ⟨next, rest, rfl, ?_, ?_, hwrite⟩
    · have hword : IsPhraseWord pronoun.text := by
        rcases hbare.1.1.1 with heq | heq <;> simp [IsPhraseWord, Particle.word, heq]
      exact hword.isQuiet
    · rintro ⟨p, -, heq⟩
      simp [heq] at hbare

/-- The pronoun that leaves out its `li` is the one behind which the reader writes it. -/
theorem eliding?_eq_some {lex : Lexicon} {clause : List Token} {u : Token} (h : eliding? lex clause = some u)
    (hclause : ∀ t ∈ clause, t = .ofWord t.start t.text) :
    ∃ front next rest, clause = front ++ u :: next :: rest ∧ IsQuiet u.text ∧ ¬ IsStructural next.text ∧
      withImpliedLi lex (clause.map Token.text) =
        front.map Token.text ++ u.text :: Particle.li.word :: (next :: rest).map Token.text := by
  rw [eliding?] at h
  split at h
  case isTrue => simp at h
  case isFalse hplain =>
  rw [← isIn_map_text hclause, ← isIn_map_text hclause] at hplain
  cases clause with
  | nil => simp [stripLeading, barePronoun?] at h
  | cons first rest =>
    have hwith : withImpliedLi lex ((first :: rest).map Token.text) =
        if (Particle.ofWord? first.text).any Particle.isConjunction then first.text :: writeLi lex (rest.map Token.text)
        else writeLi lex ((first :: rest).map Token.text) := by
      rw [withImpliedLi.eq_def, if_neg hplain]
      rfl
    rw [stripLeading, particle?_eq_ofWord? (hclause first (by simp))] at h
    split at h
    case isTrue hfirst =>
      obtain ⟨next, others, rfl, hu, hnext, hwrite⟩ :=
        barePronoun?_eq_some h (fun t ht ↦ hclause t (List.mem_cons_of_mem first ht))
      exact ⟨[first], next, others, rfl, hu, hnext, by rw [hwith, if_pos hfirst, hwrite]; rfl⟩
    case isFalse hfirst =>
      obtain ⟨next, others, heq, hu, hnext, hwrite⟩ := barePronoun?_eq_some h hclause
      exact ⟨[], next, others, heq, hu, hnext, by rw [hwith, if_neg hfirst, hwrite]; rfl⟩

section

variable {lex : Lexicon} {text text' : String}

theorem eq_ofWord_of_mem_clauseTokens {clause : List Token} (h : clause ∈ clauseTokens text) :
    ∀ t ∈ clause, t = .ofWord t.start t.text :=
  fun t ht ↦ eq_ofWord (mem_of_mem_splitDropping h t ht)

theorem exists_clause_of_elisions {before after : List Nat} {pos : Nat} (h : elisions lex text = before ++ pos :: after) :
    ∃ init clause others u, clauseTokens text = init ++ clause :: others ∧ eliding? lex clause = some u ∧ u.stop = pos ∧
      (init.filterMap (eliding? lex)).map Token.stop = before ∧
      (others.filterMap (eliding? lex)).map Token.stop = after := by
  obtain ⟨earlier, pronouns, hpronouns, rfl, hlater⟩ := List.map_eq_append_iff.1 h
  obtain ⟨u, later, rfl, rfl, rfl⟩ := List.map_eq_cons_iff.1 hlater
  obtain ⟨init, clauses, hclauses, rfl, hsome⟩ := List.filterMap_eq_append_iff.1 hpronouns
  obtain ⟨skipped, clause, others, rfl, hskipped, hu, rfl⟩ := List.filterMap_eq_cons_iff.1 hsome
  refine ⟨init ++ skipped, clause, others, u, by rw [hclauses, List.append_assoc], hu, rfl, ?_, rfl⟩
  rw [List.filterMap_append, List.filterMap_eq_nil_iff.2 hskipped, List.append_nil]

theorem elisions_liAt {init : List Nat} {pos : Nat} (h : elisions lex text = init ++ [pos]) :
    elisions lex (liAt pos text) = init := by
  obtain ⟨earlier, clause, others, u, hclauses, hu, rfl, rfl, hothers⟩ := exists_clause_of_elisions h
  have hmem : clause ∈ clauseTokens text := by simp [hclauses]
  obtain ⟨front, next, rest, rfl, -, -, -⟩ := eliding?_eq_some hu (eq_ofWord_of_mem_clauseTokens hmem)
  -- the clause has its `li` now, and none of those after it left one out
  have hwritten : eliding? lex (front ++ u :: u.liBehind :: (next :: rest).map (.shift 3)) = none :=
    eliding?_of_li (t := u.liBehind) (by simp) ((u.is_liBehind .li).2 rfl)
  have hnone : (others.map (List.map (Token.shift 3))).filterMap (eliding? lex) = [] := by
    rw [List.map_eq_nil_iff, List.filterMap_eq_nil_iff] at hothers
    rw [List.filterMap_map, List.filterMap_eq_nil_iff]
    intro other hother
    simp [eliding?_shift, hothers other hother]
  rw [elisions, (clauseTokens_liAt hclauses).2, List.filterMap_append, List.filterMap_cons_none hwritten, hnone,
    List.append_nil]

theorem writesLi_withWrittenLi (lex : Lexicon) (text : String) :
    Relation.ReflTransGen (WritesLi lex) text (withWrittenLi lex text) := by
  unfold withWrittenLi
  generalize hplaces : elisions lex text = places
  induction places using List.reverseRecOn generalizing text with
  | nil => exact .refl
  | append_singleton init pos ih =>
    rw [List.foldr_append]
    exact .head ⟨pos, by simp [hplaces], rfl⟩ (ih _ (elisions_liAt hplaces))

end

section

variable {lex : Lexicon} {dialect : Dialect} {text text' : String} {before after words : List Token} {u next : Token}

theorem IsMarkedBy.terminal?_eq_none {mark : Option Punctuation} (h : IsMarkedBy mark (before ++ after))
    (hnext : next ∈ after) (hword : next.isWord = true) : ∀ t ∈ before, t.terminal? = none := by
  obtain ⟨plain, last, heq, hplain, hlast⟩ := h
  rw [List.filter_append] at heq
  have hquote : next.isQuote = false := Token.isQuote_of_isPlain (by simp [Token.isPlain, hword])
  rcases List.append_eq_append_iff.1 heq with ⟨middle, rfl, -⟩ | ⟨middle, -, rfl⟩
  · intro t ht
    by_cases htquote : t.isQuote = true
    · rcases hk : t.kind with _ | _ | c | c <;> simp_all [Token.isQuote, Token.terminal?]
    · exact Token.terminal?_of_isPlain (hplain t (by simp [ht, htquote]))
  · -- otherwise the word would be part of the mark
    obtain ⟨p, -, hp⟩ := List.mem_map.1 (hlast ▸ List.mem_map_of_mem (a := next) (by simp [hnext, hquote]))
    simp [Token.isWord_of_terminal? hp.symm] at hword

theorem IsWritten.isComment (h : IsWritten text text' before u after) (hcomment : IsComment text') : IsComment text := by
  obtain ⟨front, back, -, -, hchars, hchars'⟩ := h.chars
  rw [IsComment, hchars'] at hcomment
  rw [IsComment, hchars]
  exact isComment_insert (by decide) (isComment_insert (by decide) (isComment_insert (by decide) hcomment))

theorem IsWritten.trim (h : IsWritten text text' before u after) (htrim : Text.trim text.toList = text.toList) :
    Text.trim text'.toList = text'.toList := by
  obtain ⟨front, back, hfront, hback, hchars, hchars'⟩ := h.chars
  rw [trim_eq_self_iff, hchars, List.head?_append_of_ne_nil _ hfront, List.getLast?_append_of_ne_nil _ hback] at htrim
  rw [trim_eq_self_iff, hchars', List.head?_append_of_ne_nil _ hfront, ← List.append_assoc,
    List.getLast?_append_of_ne_nil _ hback]
  exact htrim

theorem IsWritten.all_isBlank (h : IsWritten text text' before u after) (hblank : text.toList.all Text.isBlank = false) :
    text'.toList.all Text.isBlank = false := by
  obtain ⟨front, back, -, -, hchars, hchars'⟩ := h.chars
  rw [hchars] at hblank
  rw [hchars']
  simp_all

theorem IsWritten.head? (h : IsWritten text text' before u after) : (tokenize text').head? = (tokenize text).head? := by
  rw [h.tokens, h.tokens']
  cases before <;> rfl

theorem IsWritten.isChain (h : IsWritten text text' before u after) (hu : structural? u = none ∧ u.is .o = false)
    (hafter : ∀ t ∈ after.head?, structural? t = none) (hchain : (tokenize text).IsChain (TokenMayFollow dialect)) :
    (tokenize text').IsChain (TokenMayFollow dialect) := by
  rw [h.tokens] at hchain
  rw [h.tokens']
  obtain ⟨hbefore, hrest, hbetween⟩ := List.isChain_append.1 hchain
  refine List.isChain_append.2 ⟨hbefore, ?_, by simpa using hbetween⟩
  refine List.isChain_cons_cons.2 ⟨fun q _ ↦ ⟨hu.2, by simp [hu.1]⟩, List.isChain_cons.2 ⟨?_, ?_⟩⟩
  · rw [List.head?_map]
    intro t ht q hq
    obtain ⟨t, hmem, rfl⟩ := Option.map_eq_some_iff.1 ht
    simp [hafter t hmem] at hq
  · exact (List.isChain_map _).2 hrest.tail

theorem IsWritten.isMarkedBy {mark : Option Punctuation} (h : IsWritten text text' before u after) (hnext : next ∈ after)
    (hword : next.isWord = true) (hmarked : IsMarkedBy mark (tokenize text)) : IsMarkedBy mark (tokenize text') := by
  rw [h.tokens, ← List.singleton_append, ← List.append_assoc] at hmarked
  rw [h.tokens', ← List.singleton_append, ← List.append_assoc]
  have hplain : u.liBehind.isPlain = true := by simp [Token.isPlain, Token.liBehind, Token.isWord_ofWord]
  exact hmarked.insert_plain hplain (hmarked.terminal?_eq_none hnext hword)

theorem IsWritten.getLast? (h : IsWritten text text' before u after) (hnext : next ∈ after) (hword : next.isWord = true)
    (p : Particle) : ((tokenize text').filter Token.isWord).getLast?.any (·.is p) =
      ((tokenize text).filter Token.isWord).getLast?.any (·.is p) := by
  have hne : after.filter Token.isWord ≠ [] := List.ne_nil_of_mem (List.mem_filter.2 ⟨hnext, hword⟩)
  have hsplit : before ++ u :: after = before ++ [u] ++ after := by simp
  have hsplit' : before ++ u :: u.liBehind :: after.map (.shift 3) =
      before ++ [u, u.liBehind] ++ after.map (.shift 3) := by simp
  have hshift : (after.map (Token.shift 3)).filter Token.isWord = (after.filter Token.isWord).map (Token.shift 3) := by
    rw [List.filter_map]
    rfl
  rw [h.tokens, h.tokens', hsplit, hsplit', List.filter_append (before ++ [u]),
    List.filter_append (before ++ [u, u.liBehind]), hshift, List.getLast?_append_of_ne_nil _ hne,
    List.getLast?_append_of_ne_nil _ (by simpa using hne), List.getLast?_map]
  cases (after.filter Token.isWord).getLast? <;> rfl

theorem IsWritten.head?_wordsOf (h : IsWritten text text' before u after) (hu : u.isWord = true) :
    (wordsOf text').head? = (wordsOf text).head? := by
  rw [wordsOf, wordsOf, h.tokens, h.tokens']
  simp [hu]

theorem splitDropping_wordsOf (text : String) :
    splitDropping isLa (wordsOf text) = (clauseTokens text).map (List.map Token.text) := by
  rw [wordsOf, splitDropping_map, clauseTokens, splitDropping_congr]
  intro t ht
  rw [eq_ofWord ht, Bool.eq_iff_iff, is_ofWord]
  simp [isLa, Token.ofWord]

theorem map_laRuns_congr {f : List String → List String} {words words' : List String} (hhead : words'.head? = words.head?)
    (h : (splitDropping isLa words').map f = (splitDropping isLa words).map f) :
    (laRuns words').map f = (laRuns words).map f := by
  cases words with
  | nil => simp_all
  | cons w rest =>
    obtain ⟨rest', rfl⟩ := List.head?_eq_some_iff.1 hhead
    cases hw : isLa w with
    | true => simpa [laRuns, stripLeading, splitDropping, hw] using h
    | false => simpa [laRuns, stripLeading, hw] using h

theorem map_withImpliedLi_liAt {init others : List (List Token)} {front rest : List Token}
    (h : clauseTokens text = init ++ (front ++ u :: next :: rest) :: others)
    (himplied : withImpliedLi lex ((front ++ u :: next :: rest).map Token.text) =
      front.map Token.text ++ u.text :: Particle.li.word :: (next :: rest).map Token.text) :
    (splitDropping isLa (wordsOf (liAt u.stop text))).map (withImpliedLi lex) =
      (splitDropping isLa (wordsOf text)).map (withImpliedLi lex) := by
  have hclause : withImpliedLi lex ((front ++ u :: u.liBehind :: (next :: rest).map (.shift 3)).map Token.text) =
      withImpliedLi lex ((front ++ u :: next :: rest).map Token.text) := by
    have htexts : (front ++ u :: u.liBehind :: (next :: rest).map (.shift 3)).map Token.text =
        front.map Token.text ++ u.text :: Particle.li.word :: (next :: rest).map Token.text := by
      simp [Function.comp_def, Token.liBehind, Token.ofWord]
    rw [himplied, htexts, withImpliedLi_of_mem (.inl (by simp))]
  have hothers : (others.map (List.map (Token.shift 3))).map (withImpliedLi lex ∘ List.map Token.text) =
      others.map (withImpliedLi lex ∘ List.map Token.text) := by
    simp [Function.comp_def]
  rw [splitDropping_wordsOf, splitDropping_wordsOf, List.map_map, List.map_map, h, (clauseTokens_liAt h).2,
    List.map_append, List.map_append]
  exact congrArg _ (congrArg₂ List.cons hclause hothers)

/-- A `li` is written where the reader would put it, between words that it does not clash with. -/
structure IsImplied (lex : Lexicon) (text text' : String) (before : List Token) (u : Token) (after : List Token) : Prop
    extends IsWritten text text' before u after where
  isWord : u.isWord = true
  quiet : structural? u = none ∧ u.is .o = false
  next : ∃ next words, after.filter Token.isWord = next :: words ∧ structural? next = none
  runs : (laRuns (wordsOf text')).map (withImpliedLi lex) = (laRuns (wordsOf text)).map (withImpliedLi lex)

theorem structural?_eq_none {t : Token} (h : t = .ofWord t.start t.text) (hs : ¬ IsStructural t.text) :
    structural? t = none := by
  rw [Option.eq_none_iff_forall_ne_some]
  intro p hp
  rw [h] at hp
  exact hs ⟨p, structural?_ofWord.1 hp⟩

theorem structural?_of_head? (h : after.filter Token.isWord = next :: words) (hnext : structural? next = none) :
    ∀ t ∈ after.head?, structural? t = none := by
  intro t ht
  obtain ⟨rest, rfl⟩ := List.head?_eq_some_iff.1 ht
  cases hword : t.isWord with
  | true =>
    rw [List.filter_cons_of_pos hword] at h
    rwa [(List.cons.inj h).1]
  | false => exact structural?_of_not_word hword

theorem WritesLi.isImplied (h : WritesLi lex text text') : ∃ before u after, IsImplied lex text text' before u after := by
  obtain ⟨pos, hpos, rfl⟩ := h
  obtain ⟨earlier, later, hplaces⟩ := List.append_of_mem hpos
  obtain ⟨init, clause, others, u, hclauses, hu, rfl, -, -⟩ := exists_clause_of_elisions hplaces
  have hmem : clause ∈ clauseTokens text := by simp [hclauses]
  have hwords := eq_ofWord_of_mem_clauseTokens hmem
  obtain ⟨front, next, rest, rfl, hquiet, hnext, himplied⟩ := eliding?_eq_some hu hwords
  obtain ⟨⟨before, after, words, hwritten, hafter⟩, -⟩ := clauseTokens_liAt hclauses
  have hpronoun : u = .ofWord u.start u.text := hwords u (by simp)
  have hword : u.isWord = true := by rw [hpronoun]; exact Token.isWord_ofWord _ _
  have ho : u.is .o = false := by
    rw [hpronoun, ← Bool.not_eq_true, is_ofWord]
    exact hquiet.2
  refine ⟨before, u, after, hwritten, hword, ⟨structural?_eq_none hpronoun hquiet.1, ho⟩, ⟨next, words, hafter, ?_⟩, ?_⟩
  · exact structural?_eq_none (hwords next (by simp)) hnext
  · exact map_laRuns_congr (hwritten.head?_wordsOf hword) (map_withImpliedLi_liAt hclauses himplied)

end

end Reading

open Reading

/-- To write one `li` that is left out trips none of the checks and changes no clause that is read. -/
theorem Grammar.parse_of_writesLi {g : Grammar} {text text' shown : String} {s : Sentence}
    (h : g.parse text shown = .ok s) (hcomment : ¬ IsComment text) (hfragment : ∀ c mark, s ≠ .fragment c mark)
    (hwrites : WritesLi g.lexicon text text') : g.parse text' shown = .ok s ∧ ¬ IsComment text' := by
  obtain ⟨before, u, after, hwritten⟩ := hwrites.isImplied
  obtain ⟨next, words, hafter, hnext⟩ := hwritten.next
  obtain ⟨hmem, hword⟩ : next ∈ after ∧ next.isWord = true := List.mem_filter.1 (by simp [hafter])
  obtain ⟨hli, hblank, ⟨hlooks, -⟩ | ⟨-, hchain, htrim, hhead, hne, mark, hread, hs⟩⟩ := Grammar.parse_eq_ok.1 h
  · exact absurd hlooks hcomment
  have hcomment' : ¬ IsComment text' := fun hlooks ↦ hcomment (hwritten.isComment hlooks)
  have hne' : wordsOf text' ≠ [] := by
    intro hnil
    have hhead := hwritten.head?_wordsOf hwritten.isWord
    rw [hnil] at hhead
    exact hne (List.head?_eq_none_iff.1 hhead.symm)
  refine ⟨Grammar.parse_eq_ok.2 ⟨?_, hwritten.all_isBlank hblank, .inr ⟨hcomment', ?_, hwritten.trim htrim, ?_, hne',
    mark, ?_, ?_⟩⟩, hcomment'⟩
  · rw [hwritten.getLast? hmem hword, hli]
  · rw [adjacencyError?_eq_none] at hchain ⊢
    exact hwritten.isChain hwritten.quiet (structural?_of_head? hafter hnext) hchain
  · rw [hwritten.head?, hhead]
  · exact sentenceWords_eq_ok.2 ⟨rfl, hwritten.isMarkedBy hmem hword (sentenceWords_eq_ok.1 hread).2⟩
  · rcases (sentence_eq_ok hne).1 hs with ⟨first, c, -, -, rfl⟩ | hclauses
    · exact absurd rfl (hfragment c _)
    · exact (sentence_eq_ok hne').2 (.inr (by rwa [hwritten.runs]))

/-- A `li` that is left out may as well be written. With every `li` written out that a `la` clause without `li` and `o`
leaves out after `mi` or `sina`, or with some of them, a text that is read as a sentence and no fragment is read as the
same sentence. -/
theorem Grammar.parse_withWrittenLi (g : Grammar) {text shown : String} {s : Sentence} (h : g.parse text shown = .ok s)
    (hcomment : ¬ IsComment text) (hfragment : ∀ c mark, s ≠ .fragment c mark) (shown' : String) :
    g.parse (withWrittenLi g.lexicon text) shown' = .ok s ∧
      ∀ text', Relation.ReflTransGen (WritesLi g.lexicon) text text' → g.parse text' shown' = .ok s := by
  have hwritten : ∀ text', Relation.ReflTransGen (WritesLi g.lexicon) text text' → g.parse text' shown' = .ok s := by
    intro text' hwrites
    have hread : g.parse text' shown' = .ok s ∧ ¬ IsComment text' := by
      induction hwrites with
      | refl => exact ⟨Grammar.parse_of_parse h shown', hcomment⟩
      | tail _ hstep ih => exact Grammar.parse_of_writesLi ih.1 ih.2 hfragment hstep
    exact hread.1
  exact ⟨hwritten _ (writesLi_withWrittenLi g.lexicon text), hwritten⟩

theorem Grammar.parse_withWrittenLi_clauses :
    let g : Grammar := ⟨Dictionary.standard.lexicon, .strict⟩
    let text := "taso mi, moku la «sina pona» la mi mute la mi lape."
    let written := "taso mi li, moku la «sina li pona» la mi mute la mi li lape."
    ∃ s, g.parse text "" = .ok s ∧ withWrittenLi g.lexicon text = written ∧ g.parse written "" = .ok s := by
  intro g text written
  obtain ⟨s, hs, hsegments⟩ := map_eq_ok.1 (show (fun s ↦ s.segments.length) <$> g.parse text "" = .ok 6 by decide +kernel)
  have hwritten : withWrittenLi g.lexicon text = written := by decide +kernel
  have hfragment : ∀ c mark, s ≠ .fragment c mark := by
    rintro c mark rfl
    simp [Sentence.segments] at hsegments
  obtain ⟨hread, -⟩ := Grammar.parse_withWrittenLi g hs (by decide +kernel) hfragment ""
  exact ⟨s, hs, hwritten, hwritten ▸ hread⟩

end TokiPona
