import Mathlib.Data.List.DropRight
import Mathlib.Logic.Relation
import TokiPona.Dictionary.Standard
import TokiPona.Proofs.Words

namespace TokiPona

/-- No token of the text goes over the byte. -/
def IsBoundary (text : String) (pos : Nat) : Prop := ∀ t ∈ tokenize text, pos ≤ t.start ∨ t.stop ≤ pos

instance (text : String) (pos : Nat) : Decidable (IsBoundary text pos) :=
  inferInstanceAs (Decidable (∀ t ∈ tokenize text, pos ≤ t.start ∨ t.stop ≤ pos))

/-- One mark comes in between two tokens: a quote mark anywhere, a comma anywhere before the terminal mark. -/
inductive Inserts : String → String → Prop
  | quote (before after : String) (c : Char) (hc : Token.isQuoteMark c = true)
      (hbetween : IsBoundary (before ++ after) before.utf8ByteSize) :
      Inserts (before ++ after) (before ++ String.singleton c ++ after)
  | comma (before after : String) (hbetween : IsBoundary (before ++ after) before.utf8ByteSize)
      (hmark : ∀ t ∈ tokenize (before ++ after), t.terminal?.isSome = true → before.utf8ByteSize ≤ t.start) :
      Inserts (before ++ after) (before ++ String.singleton ',' ++ after)

namespace Token

def shift (n : Nat) (t : Token) : Token := { t with start := t.start + n }

@[simp] theorem text_shift (n : Nat) (t : Token) : (t.shift n).text = t.text := rfl
@[simp] theorem kind_shift (n : Nat) (t : Token) : (t.shift n).kind = t.kind := rfl
@[simp] theorem is_shift (n : Nat) (t : Token) (p : Particle) : (t.shift n).is p = t.is p := rfl
@[simp] theorem isWord_shift (n : Nat) (t : Token) : (t.shift n).isWord = t.isWord := rfl
@[simp] theorem isQuote_shift (n : Nat) (t : Token) : (t.shift n).isQuote = t.isQuote := rfl
@[simp] theorem terminal?_shift (n : Nat) (t : Token) : (t.shift n).terminal? = t.terminal? := rfl
@[simp] theorem structural?_shift (n : Nat) (t : Token) : Reading.structural? (t.shift n) = Reading.structural? t := rfl

theorem scan_add (pos n : Nat) (cs : List Char) : scan (pos + n) cs = (scan pos cs).map (shift n) := by
  fun_induction scan pos cs with
  | case1 pos => rw [scan_nil, List.map_nil]
  | case2 pos c rest hc w ih =>
    rw [scan_cons, if_pos hc, List.map_cons, ← ih, Nat.add_right_comm]
    rfl
  | case3 pos c rest hc tokens hm ih =>
    rw [scan_cons, if_neg hc, if_pos hm, List.map_cons, ← ih, Nat.add_right_comm]
    rfl
  | case4 pos c rest hc tokens hm hq ih =>
    rw [scan_cons, if_neg hc, if_neg hm, if_pos hq, List.map_cons, ← ih, Nat.add_right_comm]
    rfl
  | case5 pos c rest hc tokens hm hq ih =>
    rw [scan_cons, if_neg hc, if_neg hm, if_neg hq, ← ih, Nat.add_right_comm]

theorem size_cons (c : Char) (cs : List Char) :
    (String.ofList (c :: cs)).utf8ByteSize = c.utf8Size + (String.ofList cs).utf8ByteSize := by
  rw [← List.singleton_append, String.ofList_append, String.utf8ByteSize_append, ← String.utf8ByteSize_singleton]
  rfl

theorem size_append (cs cs' : List Char) : (String.ofList (cs ++ cs')).utf8ByteSize =
    (String.ofList cs).utf8ByteSize + (String.ofList cs').utf8ByteSize := by
  rw [String.ofList_append, String.utf8ByteSize_append]

theorem size_takeWhile (c : Char) (rest : List Char) : (String.ofList (c :: rest)).utf8ByteSize =
    (String.ofList (c :: rest.takeWhile isWordChar)).utf8ByteSize +
      (String.ofList (rest.dropWhile isWordChar)).utf8ByteSize := by
  rw [← size_append, List.cons_append, List.takeWhile_append_dropWhile]

theorem start_lt_of_mem_scan {pos : Nat} {cs : List Char} {t : Token} (h : t ∈ scan pos cs) :
    t.start < pos + (String.ofList cs).utf8ByteSize := by
  fun_induction scan pos cs with
  | case1 => simp at h
  | case2 pos c rest hc w ih =>
    have hpos := c.utf8Size_pos
    have hw : w.utf8ByteSize = c.utf8Size + (String.ofList (rest.takeWhile isWordChar)).utf8ByteSize := size_cons _ _
    have hsize : _ = w.utf8ByteSize + _ := size_takeWhile c rest
    rcases List.mem_cons.1 h with rfl | h
    · simp only [ofWord]
      omega
    · have := ih h
      omega
  | case3 pos c rest hc tokens hm ih =>
    have hpos := c.utf8Size_pos
    rw [size_cons]
    rcases List.mem_cons.1 h with rfl | h
    · simp only
      omega
    · have := ih h
      omega
  | case4 pos c rest hc tokens hm hq ih =>
    have hpos := c.utf8Size_pos
    rw [size_cons]
    rcases List.mem_cons.1 h with rfl | h
    · simp only
      omega
    · have := ih h
      omega
  | case5 pos c rest hc tokens hm hq ih =>
    have := ih h
    rw [size_cons]
    omega

theorem scan_append {pos : Nat} {before after : List Char}
    (h : (∀ c ∈ after.head?, isWordChar c = false) ∨ ∀ t ∈ scan pos (before ++ after),
      pos + (String.ofList before).utf8ByteSize ≤ t.start ∨ t.stop ≤ pos + (String.ofList before).utf8ByteSize) :
    scan pos (before ++ after) = scan pos before ++ scan (pos + (String.ofList before).utf8ByteSize) after := by
  fun_induction scan pos before with
  | case1 pos => simp
  | case2 pos c rest hc w ih =>
    by_cases hall : ∀ d ∈ rest, isWordChar d = true
    · -- the first part is one word, which has to end with it
      have hafter : ∀ d ∈ after.head?, isWordChar d = false := by
        rcases h with h | h
        · exact h
        intro d hd
        obtain ⟨others, rfl⟩ := List.head?_eq_some_iff.1 hd
        by_contra hword
        rw [List.cons_append, scan_cons, if_pos hc] at h
        have hspan := h _ List.mem_cons_self
        have hpos := c.utf8Size_pos
        have hpos' := d.utf8Size_pos
        rw [List.takeWhile_append_of_pos hall, List.takeWhile_cons_of_pos (by simpa using hword)] at hspan
        simp only [stop, size, ofWord, size_cons, size_append] at hspan
        omega
      have hw : w = String.ofList (c :: rest) := by rw [← List.takeWhile_eq_self_iff.2 hall]
      have hsolid : Word.IsSolid w := by
        rw [Word.IsSolid, hw, String.toList_ofList]
        exact ⟨by simp, List.forall_mem_cons.2 ⟨hc, hall⟩⟩
      have hscan := scan_solid hsolid pos after hafter
      rw [hw, String.toList_ofList] at hscan
      rw [hscan, List.dropWhile_eq_nil_iff.2 hall, scan_nil, hw]
      rfl
    · have hlength : (rest.takeWhile isWordChar).length ≠ rest.length := fun hlength ↦
        hall (List.takeWhile_eq_self_iff.1 ((List.takeWhile_prefix _).eq_of_length hlength))
      have hdrop : (rest.dropWhile isWordChar).isEmpty = false := by simpa using hall
      have hsize : _ = w.utf8ByteSize + _ := size_takeWhile c rest
      rw [List.cons_append, scan_cons, if_pos hc, List.takeWhile_append, if_neg hlength, List.dropWhile_append, hdrop,
        hsize, ← Nat.add_assoc] at h ⊢
      rw [if_neg (by simp)] at h ⊢
      rw [ih (h.imp_right fun h t ht ↦ h t (List.mem_cons_of_mem _ ht))]
      rfl
  | case3 pos c rest hc tokens hm ih =>
    rw [List.cons_append, scan_cons, if_neg hc, if_pos hm, size_cons, ← Nat.add_assoc] at h ⊢
    rw [ih (h.imp_right fun h t ht ↦ h t (List.mem_cons_of_mem _ ht))]
    rfl
  | case4 pos c rest hc tokens hm hq ih =>
    rw [List.cons_append, scan_cons, if_neg hc, if_neg hm, if_pos hq, size_cons, ← Nat.add_assoc] at h ⊢
    rw [ih (h.imp_right fun h t ht ↦ h t (List.mem_cons_of_mem _ ht))]
    rfl
  | case5 pos c rest hc tokens hm hq ih =>
    rw [List.cons_append, scan_cons, if_neg hc, if_neg hm, if_neg hq, size_cons, ← Nat.add_assoc] at h ⊢
    exact ih h

theorem text_of_punctuation {pos : Nat} {cs : List Char} {t : Token} {c : Char} (h : t ∈ scan pos cs)
    (hkind : t.kind = .punctuation c) : t.text = String.singleton c := by
  cases isGenuine_of_mem_scan h with
  | word start hw =>
    simp only [ofWord] at hkind
    split at hkind <;> simp at hkind
  | mark start hc => rw [TokenKind.punctuation.inj hkind]
  | quote start hc => simp at hkind

@[simp] theorem isPlain_shift (n : Nat) (t : Token) : (t.shift n).isPlain = t.isPlain := rfl

def isKept (t : Token) : Bool := !t.isQuote && t.kind ≠ .punctuation ','

end Token

/-- The texts of the tokens of a text, quote marks and commas apart. -/
def keptTexts (text : String) : List String := ((tokenize text).filter Token.isKept).map Token.text

namespace Reading

section

variable {tokens tokens' : List Token} {t : Token} {n : Nat}

theorem structural?_of_not_word (h : t.isWord = false) : structural? t = none := by
  rcases hk : t.kind with _ | _ | c | c <;> simp_all [structural?, Token.particle?, Token.isWord]

theorem tokenMayFollow_of_not_word {dialect : Dialect} (h : t.isWord = false) (s : Token) :
    TokenMayFollow dialect s t ∧ TokenMayFollow dialect t s := by
  have hnone := structural?_of_not_word h
  have ho : t.is .o = false := by
    rcases hk : t.kind with _ | _ | c | c <;> simp_all [Token.is, Token.isWord]
  exact ⟨fun q hq ↦ by simp [hnone] at hq, fun q _ ↦ ⟨ho, fun p hp ↦ by simp [hnone] at hp⟩⟩

theorem isChain_insert {dialect : Dialect} (h : t.isWord = false)
    (hchain : (tokens ++ tokens').IsChain (TokenMayFollow dialect)) :
    (tokens ++ t :: tokens'.map (Token.shift n)).IsChain (TokenMayFollow dialect) := by
  obtain ⟨hbefore, hafter, -⟩ := List.isChain_append.1 hchain
  refine List.isChain_append.2 ⟨hbefore, List.isChain_cons.2 ⟨?_, (List.isChain_map _).2 hafter⟩, ?_⟩
  · exact fun u _ ↦ (tokenMayFollow_of_not_word h u).2
  · intro s _ u hu
    obtain rfl : t = u := by simpa using hu
    exact (tokenMayFollow_of_not_word h s).1

theorem filter_isWord_insert (h : t.isWord = false) : (tokens ++ t :: tokens'.map (Token.shift n)).filter Token.isWord =
    tokens.filter Token.isWord ++ (tokens'.filter Token.isWord).map (Token.shift n) := by
  simp [List.filter_map, h, Function.comp_def]

theorem getLast?_insert (h : t.isWord = false) (p : Particle) :
    ((tokens ++ t :: tokens'.map (Token.shift n)).filter Token.isWord).getLast?.any (·.is p) =
      ((tokens ++ tokens').filter Token.isWord).getLast?.any (·.is p) := by
  rw [filter_isWord_insert h, List.filter_append, List.getLast?_append, List.getLast?_append, List.getLast?_map]
  cases (tokens'.filter Token.isWord).getLast? <;> simp

theorem head?_insert (h : t.isWord = false)
    (hhead : (tokens ++ tokens').head?.any (fun t ↦ t.is .li || t.is .la) = false) :
    (tokens ++ t :: tokens'.map (Token.shift n)).head?.any (fun t ↦ t.is .li || t.is .la) = false := by
  cases tokens with
  | nil => rcases hk : t.kind with _ | _ | c | c <;> simp_all [Token.is, Token.isWord]
  | cons s tokens => simpa using hhead

theorem IsMarkedBy.insert_quote {mark : Option Punctuation} (h : t.isQuote = true)
    (hmarked : IsMarkedBy mark (tokens ++ tokens')) : IsMarkedBy mark (tokens ++ t :: tokens'.map (Token.shift n)) := by
  obtain ⟨plain, last, heq, hplain, hlast⟩ := hmarked
  have hfilter : (tokens ++ t :: tokens'.map (Token.shift n)).filter (!·.isQuote) =
      tokens.filter (!·.isQuote) ++ (tokens'.filter (!·.isQuote)).map (Token.shift n) := by
    simp [List.filter_map, h, Function.comp_def]
  rw [List.filter_append] at heq
  rw [IsMarkedBy, hfilter]
  rcases List.append_eq_append_iff.1 heq with ⟨middle, rfl, hafter⟩ | ⟨middle, hbefore, rfl⟩
  · rw [hafter]
    refine ⟨tokens.filter (!·.isQuote) ++ middle.map (Token.shift n), last.map (Token.shift n), by simp, ?_,
      by simpa [Function.comp_def] using hlast⟩
    simpa [or_imp, forall_and] using hplain
  · rw [hbefore]
    exact ⟨plain, middle ++ (tokens'.filter (!·.isQuote)).map (Token.shift n), by simp, hplain,
      by simpa [Function.comp_def] using hlast⟩

theorem IsMarkedBy.insert_plain {mark : Option Punctuation} (h : t.isPlain = true)
    (hunmarked : ∀ u ∈ tokens, u.terminal? = none) (hmarked : IsMarkedBy mark (tokens ++ tokens')) :
    IsMarkedBy mark (tokens ++ t :: tokens'.map (Token.shift n)) := by
  obtain ⟨plain, last, heq, hplain, hlast⟩ := hmarked
  have hfilter : (tokens ++ t :: tokens'.map (Token.shift n)).filter (!·.isQuote) =
      tokens.filter (!·.isQuote) ++ t :: (tokens'.filter (!·.isQuote)).map (Token.shift n) := by
    simp [List.filter_map, Token.isQuote_of_isPlain h, Function.comp_def]
  rw [List.filter_append] at heq
  obtain ⟨middle, rfl, hafter⟩ : ∃ middle, plain = tokens.filter (!·.isQuote) ++ middle ∧
      tokens'.filter (!·.isQuote) = middle ++ last := by
    rcases List.append_eq_append_iff.1 heq with hsplit | ⟨middle, hbefore, rfl⟩
    · exact hsplit
    · -- what is no longer plain ends in the mark, which the first tokens do not have
      cases middle with
      | nil => exact ⟨[], by simp [hbefore], by simp⟩
      | cons u middle =>
        have hu : u ∈ tokens.filter (!·.isQuote) := by simp [hbefore]
        have hsome : u.terminal? ∈ mark.toList.map some := by simp [← hlast]
        rw [hunmarked u (List.mem_of_mem_filter hu)] at hsome
        simp at hsome
  rw [IsMarkedBy, hfilter, hafter]
  refine ⟨tokens.filter (!·.isQuote) ++ t :: middle.map (Token.shift n), last.map (Token.shift n), by simp, ?_,
    by simpa [Function.comp_def] using hlast⟩
  simpa [or_imp, forall_and, h] using hplain

end

theorem trim_eq_self_iff {cs : List Char} : Text.trim cs = cs ↔
    (∀ c ∈ cs.head?, Text.isBlank c = false) ∧ ∀ c ∈ cs.getLast?, Text.isBlank c = false := by
  have htrim : Text.trim cs = (cs.dropWhile Text.isBlank).rdropWhile Text.isBlank := rfl
  have hfront : cs.dropWhile Text.isBlank = cs ↔ ∀ c ∈ cs.head?, Text.isBlank c = false := by
    cases cs <;> simp [List.dropWhile_eq_self_iff]
  have hback : cs.rdropWhile Text.isBlank = cs ↔ ∀ c ∈ cs.getLast?, Text.isBlank c = false := by
    rw [List.rdropWhile_eq_self_iff]
    cases cs <;> simp [List.getLast?_eq_some_getLast]
  rw [htrim, ← hfront, ← hback]
  constructor
  · intro h
    have hlength : (cs.dropWhile Text.isBlank).length = cs.length := by
      apply Nat.le_antisymm (List.dropWhile_suffix _).length_le
      have hprefix := List.rdropWhile_prefix Text.isBlank (l := cs.dropWhile Text.isBlank)
      exact (congrArg List.length h).symm.le.trans hprefix.length_le
    have heq := (List.dropWhile_suffix Text.isBlank (l := cs)).eq_of_length hlength
    exact ⟨heq, by rwa [heq] at h⟩
  · rintro ⟨h, h'⟩
    rw [h, h']

theorem trim_insert {before after : List Char} {c : Char} (hc : Text.isBlank c = false)
    (h : Text.trim (before ++ after) = before ++ after) :
    Text.trim (before ++ c :: after) = before ++ c :: after := by
  rw [trim_eq_self_iff] at h ⊢
  obtain ⟨hfront, hback⟩ := h
  constructor
  · cases before with
    | nil => simpa using hc
    | cons d before => simpa using hfront
  · cases after with
    | nil => simpa using hc
    | cons d after => simpa using hback

theorem isComment_insert {before after : List Char} {c : Char} (hc : c ≠ '/')
    (h : ['/', '/', '/'] <+: before ++ c :: after) : ['/', '/', '/'] <+: before ++ after := by
  by_cases hlength : before.length < 3
  · have hfront : before ++ [c] <+: ['/', '/', '/'] :=
      List.prefix_of_prefix_length_le ⟨after, by simp⟩ h (by simp; omega)
    have hmem : c ∈ ['/', '/', '/'] := hfront.subset (by simp)
    simp [hc] at hmem
  · have hfront : ['/', '/', '/'] <+: before :=
      List.prefix_of_prefix_length_le h (List.prefix_append _ _) (by simp; omega)
    exact hfront.trans (List.prefix_append _ _)

end Reading

open Reading

theorem tokenize_append {before after : String} (h : IsBoundary (before ++ after) before.utf8ByteSize) :
    tokenize (before ++ after) = Token.scan 0 before.toList ++ Token.scan before.utf8ByteSize after.toList := by
  have hscan := @Token.scan_append 0 before.toList after.toList
  rw [String.ofList_toList, Nat.zero_add, ← String.toList_append] at hscan
  exact hscan (.inr h)

def Token.ofMark (pos : Nat) (c : Char) : Token :=
  ⟨String.singleton c, if isMark c then .punctuation c else .quote c, pos⟩

theorem Token.of_isMark {c : Char} (h : isMark c = true ∨ isQuoteMark c = true) :
    isWordChar c = false ∧ Text.isBlank c = false ∧ c ≠ '/' := by
  simp only [isMark, isQuoteMark, List.mem_cons, List.not_mem_nil, or_false, decide_eq_true_eq, or_assoc] at h
  rcases h with rfl | rfl | rfl | rfl | rfl | rfl | rfl | rfl <;> decide

theorem Token.isWord_ofMark (pos : Nat) (c : Char) : (ofMark pos c).isWord = false := by
  by_cases h : isMark c = true <;> simp [ofMark, isWord, h]

theorem tokenize_insert {c : Char} (hc : Token.isMark c = true ∨ Token.isQuoteMark c = true) (before after : String) :
    tokenize (before ++ String.singleton c ++ after) =
      Token.scan 0 before.toList ++ Token.ofMark before.utf8ByteSize c ::
        (Token.scan before.utf8ByteSize after.toList).map (Token.shift c.utf8Size) := by
  have hword := (Token.of_isMark hc).1
  have hscan : Token.scan before.utf8ByteSize (c :: after.toList) = Token.ofMark before.utf8ByteSize c ::
      Token.scan (before.utf8ByteSize + c.utf8Size) after.toList := by
    rw [Token.scan_cons, if_neg (by simp [hword])]
    by_cases hmark : Token.isMark c = true
    · simp [Token.ofMark, hmark]
    · simp [Token.ofMark, hmark, hc.resolve_left hmark]
  have hcut := @Token.scan_append 0 before.toList (c :: after.toList) (.inl (by simpa using hword))
  rw [String.ofList_toList, Nat.zero_add, hscan, Token.scan_add] at hcut
  rw [tokenize, ← hcut]
  simp

section

variable {g : Grammar} {text text' shown : String} {s : Sentence}

theorem Grammar.parse_of_insert {before after : String} {c : Char} (h : g.parse (before ++ after) shown = .ok s)
    (hcomment : ¬ IsComment (before ++ after)) (hbetween : IsBoundary (before ++ after) before.utf8ByteSize)
    (hc : Token.isMark c = true ∨ Token.isQuoteMark c = true)
    (hmarked : ∀ mark, IsMarkedBy mark (tokenize (before ++ after)) →
      IsMarkedBy mark (tokenize (before ++ String.singleton c ++ after))) :
    g.parse (before ++ String.singleton c ++ after) shown = .ok s ∧
      ¬ IsComment (before ++ String.singleton c ++ after) := by
  obtain ⟨-, hblank, hslash⟩ := Token.of_isMark hc
  have hword := Token.isWord_ofMark before.utf8ByteSize c
  have htokens := tokenize_append hbetween
  have htokens' := tokenize_insert hc before after
  have hchars : (before ++ String.singleton c ++ after).toList = before.toList ++ c :: after.toList := by simp
  have hcomment' : ¬ IsComment (before ++ String.singleton c ++ after) := by
    intro hlooks
    rw [IsComment, hchars] at hlooks
    refine hcomment ?_
    rw [IsComment, String.toList_append]
    exact isComment_insert hslash hlooks
  have hwords : wordsOf (before ++ String.singleton c ++ after) = wordsOf (before ++ after) := by
    rw [wordsOf, wordsOf, htokens', htokens, filter_isWord_insert hword]
    simp [Function.comp_def]
  obtain ⟨hli, -, ⟨hlooks, -⟩ | ⟨-, hchain, htrim, hhead, hne, mark, hread, hs⟩⟩ := Grammar.parse_eq_ok.1 h
  · exact absurd hlooks hcomment
  -- each check asks no more of a text with one more mark in it
  refine ⟨Grammar.parse_eq_ok.2 ⟨?_, ?_, .inr ⟨hcomment', ?_, ?_, ?_, ?_, mark, ?_, ?_⟩⟩, hcomment'⟩
  · rw [htokens', getLast?_insert hword, ← htokens, hli]
  · rw [hchars]
    simp [hblank]
  · rw [adjacencyError?_eq_none] at hchain ⊢
    rw [htokens] at hchain
    rw [htokens']
    exact isChain_insert hword hchain
  · rw [String.toList_append] at htrim
    rw [hchars]
    exact trim_insert hblank htrim
  · rw [htokens] at hhead
    rw [htokens']
    exact head?_insert hword hhead
  · rwa [hwords]
  · exact sentenceWords_eq_ok.2 ⟨rfl, hmarked mark (sentenceWords_eq_ok.1 hread).2⟩
  · rwa [hwords]

theorem Grammar.parse_of_parse (h : g.parse text shown = .ok s) (shown' : String) : g.parse text shown' = .ok s := by
  obtain ⟨hli, hblank, ⟨hlooks, hs⟩ | ⟨hcomment, hchain, htrim, hhead, hne, mark, hread, hs⟩⟩ := Grammar.parse_eq_ok.1 h
  · exact Grammar.parse_eq_ok.2 ⟨hli, hblank, .inl ⟨hlooks, hs⟩⟩
  · refine Grammar.parse_eq_ok.2 ⟨hli, hblank, .inr ⟨hcomment, hchain, htrim, hhead, hne, mark, hread, ?_⟩⟩
    exact (sentence_eq_ok hne).2 ((sentence_eq_ok hne).1 hs)

theorem Grammar.parse_of_inserts (h : g.parse text shown = .ok s) (hcomment : ¬ IsComment text)
    (hinserts : Inserts text text') : g.parse text' shown = .ok s ∧ ¬ IsComment text' := by
  cases hinserts with
  | quote before after c hc hbetween =>
    refine Grammar.parse_of_insert h hcomment hbetween (.inr hc) (fun mark hmarked ↦ ?_)
    have hquote : (Token.ofMark before.utf8ByteSize c).isQuote = true := by
      simp only [Token.isQuoteMark, List.mem_cons, List.not_mem_nil, or_false, decide_eq_true_eq] at hc
      rcases hc with rfl | rfl <;> rfl
    rw [tokenize_append hbetween] at hmarked
    rw [tokenize_insert (.inr hc)]
    exact hmarked.insert_quote hquote
  | comma before after hbetween hmark =>
    refine Grammar.parse_of_insert h hcomment hbetween (.inl rfl) (fun mark hmarked ↦ ?_)
    have htokens := tokenize_append hbetween
    rw [htokens] at hmarked
    rw [tokenize_insert (.inl rfl)]
    refine hmarked.insert_plain (by simp [Token.isPlain, Token.ofMark, Token.isMark]) (fun u hu ↦ ?_)
    by_contra hsome
    have hle := hmark u (by simp [htokens, hu]) (Option.isSome_iff_ne_none.2 hsome)
    have hlt := Token.start_lt_of_mem_scan hu
    rw [String.ofList_toList] at hlt
    omega

theorem keptTexts_of_isMarkedBy {mark : Option Punctuation} (h : IsMarkedBy mark (tokenize text)) :
    keptTexts text = wordsOf text ++ mark.toList.map fun p ↦ String.singleton p.mark := by
  obtain ⟨plain, last, htokens, hplain, hlast⟩ := h
  have hterminal : ∀ t ∈ last, ∃ p ∈ mark, t.terminal? = some p := by
    intro t ht
    obtain ⟨p, hp, heq⟩ := List.mem_map.1 (hlast ▸ List.mem_map_of_mem ht)
    exact ⟨p, by simpa using hp, heq.symm⟩
  have hkept : (tokenize text).filter Token.isKept = plain.filter Token.isWord ++ last := by
    have hsplit : (tokenize text).filter Token.isKept =
        ((tokenize text).filter (!·.isQuote)).filter (fun t ↦ t.kind ≠ .punctuation ',') := by
      rw [List.filter_filter]
      exact List.filter_congr fun t _ ↦ Bool.and_comm _ _
    rw [hsplit, htokens, List.filter_append]
    congr 1
    · refine List.filter_congr fun t ht ↦ ?_
      have := hplain t ht
      rcases hk : t.kind with _ | _ | c | c <;> simp_all [Token.isPlain, Token.isWord]
    · refine List.filter_eq_self.2 fun t ht ↦ ?_
      obtain ⟨p, -, hp⟩ := hterminal t ht
      rw [decide_eq_true_eq]
      intro hcomma
      have hnone := Token.terminal?_of_isPlain (t := t) (by simp [Token.isPlain, hcomma])
      simp [hnone] at hp
  have htexts : last.map Token.text = mark.toList.map fun p ↦ String.singleton p.mark := by
    have htext {t : Token} {p : Punctuation} (ht : t ∈ last) (hp : t.terminal? = some p) :
        t.text = String.singleton p.mark := by
      have hmem : t ∈ (tokenize text).filter (!·.isQuote) := htokens ▸ List.mem_append_right plain ht
      rcases hk : t.kind with _ | _ | c | c <;> simp only [Token.terminal?, hk, reduceCtorEq] at hp
      rw [Token.text_of_punctuation (List.mem_of_mem_filter hmem) hk, Punctuation.mark_of_ofChar? hp]
    cases mark with
    | none =>
      obtain rfl : last = [] := by simpa using hlast
      rfl
    | some p =>
      obtain ⟨t, rfl, ht⟩ : ∃ t, last = [t] ∧ t.terminal? = some p := by
        simpa [List.map_eq_singleton_iff] using hlast
      simp [htext (by simp) ht]
  rw [keptTexts, wordsOf, hkept, filter_isWord_of_mark htokens hlast, List.map_append, htexts]

theorem eq_of_keptTexts {words words' : List String} {mark mark' : Option Punctuation} (hwords : Solid words)
    (hwords' : Solid words')
    (h : (words ++ mark.toList.map fun p ↦ String.singleton p.mark) =
      words' ++ mark'.toList.map fun p ↦ String.singleton p.mark) : words = words' ∧ mark = mark' := by
  have hsolid (p : Punctuation) : ¬ Word.IsSolid (String.singleton p.mark) := by cases p <;> decide
  cases mark with
  | none =>
    cases mark' with
    | none => exact ⟨by simpa using h, rfl⟩
    | some p => exact absurd (hwords _ (by simpa using congrArg (String.singleton p.mark ∈ ·) h)) (hsolid p)
  | some p =>
    cases mark' with
    | none => exact absurd (hwords' _ (by simpa using congrArg (String.singleton p.mark ∈ ·) h)) (hsolid p)
    | some p' =>
      obtain ⟨rfl, hmark⟩ := List.append_inj' h rfl
      have heq : p.mark = p'.mark := by simpa using hmark
      have hp : some p = some p' := by rw [← Punctuation.ofChar?_mark, heq, Punctuation.ofChar?_mark]
      exact ⟨rfl, hp⟩

end

/-- Layout, quote marks and commas do not matter: texts with the same tokens apart from these are read as the same
sentence if they are read at all, and to put quote marks, or commas before the mark, between tokens leaves the sentence
as it is. -/
theorem Grammar.parse_of_layout (g : Grammar) {text shown : String} {s : Sentence} (h : g.parse text shown = .ok s)
    (hcomment : ¬ IsComment text) :
    (∀ text' shown' s', g.parse text' shown' = .ok s' → ¬ IsComment text' → keptTexts text' = keptTexts text → s' = s) ∧
      ∀ text' shown', Relation.ReflTransGen Inserts text text' → g.parse text' shown' = .ok s := by
  constructor
  · intro text' shown' s' h' hcomment' hkept
    obtain ⟨-, -, ⟨hlooks, -⟩ | ⟨-, -, -, -, hne, mark, hread, hs⟩⟩ := Grammar.parse_eq_ok.1 h
    · exact absurd hlooks hcomment
    obtain ⟨-, -, ⟨hlooks, -⟩ | ⟨-, -, -, -, hne', mark', hread', hs'⟩⟩ := Grammar.parse_eq_ok.1 h'
    · exact absurd hlooks hcomment'
    rw [keptTexts_of_isMarkedBy (sentenceWords_eq_ok.1 hread).2,
      keptTexts_of_isMarkedBy (sentenceWords_eq_ok.1 hread').2] at hkept
    obtain ⟨hwords, rfl⟩ := eq_of_keptTexts (solid_wordsOf text') (solid_wordsOf text) hkept
    rw [hwords] at hs'
    rw [(sentence_eq_ok hne).2 ((sentence_eq_ok hne).1 hs')] at hs
    exact Except.ok.inj hs
  · intro text' shown' hinserts
    have hread : g.parse text' shown' = .ok s ∧ ¬ IsComment text' := by
      induction hinserts with
      | refl => exact ⟨Grammar.parse_of_parse h shown', hcomment⟩
      | tail _ hstep ih => exact Grammar.parse_of_inserts ih.1 ih.2 hstep
    exact hread.1

theorem Grammar.parse_of_layout_quoted :
    let g : Grammar := ⟨Dictionary.standard.lexicon, .strict⟩
    ∃ s, g.parse "ona li, pi jan pona." "" = .ok s ∧
      keptTexts "ona  li\n,pi jan, pona ." = keptTexts "ona li, pi jan pona." ∧
      g.parse "ona  li\n,pi jan, pona ." "" = .ok s ∧
      Relation.ReflTransGen Inserts "ona li, pi jan pona." "«ona, li, pi jan pona.»" ∧
      g.parse "«ona, li, pi jan pona.»" "" = .ok s := by
  intro g
  obtain ⟨s, hs, -⟩ := map_eq_ok.1 (show Sentence.words <$> g.parse "ona li, pi jan pona." "" =
    .ok ["ona", "jan", "pona"] by decide +kernel)
  obtain ⟨s', hs', -⟩ := map_eq_ok.1 (show Sentence.words <$> g.parse "ona  li\n,pi jan, pona ." "" =
    .ok ["ona", "jan", "pona"] by decide +kernel)
  have hkept : keptTexts "ona  li\n,pi jan, pona ." = keptTexts "ona li, pi jan pona." := by decide +kernel
  have hinserts : Relation.ReflTransGen Inserts "ona li, pi jan pona." "«ona, li, pi jan pona.»" := by
    refine .tail (b := "«ona, li, pi jan pona.") (.tail (b := "ona, li, pi jan pona.") (.tail .refl ?_) ?_) ?_
    · exact .comma "ona" " li, pi jan pona." (by decide +kernel) (by decide +kernel)
    · exact .quote "" "ona, li, pi jan pona." '«' (by decide +kernel) (by decide +kernel)
    · exact .quote "«ona, li, pi jan pona." "" '»' (by decide +kernel) (by decide +kernel)
  obtain ⟨hsame, hinserted⟩ := Grammar.parse_of_layout g hs (by decide +kernel)
  obtain rfl := hsame _ _ s' hs' (by decide +kernel) hkept
  exact ⟨s', hs, hkept, hs', hinserts, hinserted _ _ hinserts⟩

end TokiPona
