import Mathlib.Data.List.Sort
import TokiPona.Proofs.Layout

namespace TokiPona

theorem Word.isPreposition_iff {w : String} :
    isPreposition w = true ↔ w.toList.head? = some '~' ∧ 1 < w.utf8ByteSize := by
  have hsize : w.utf8ByteSize = (String.ofList w.toList).utf8ByteSize := by rw [String.ofList_toList]
  rw [hsize]
  unfold isPreposition
  split
  case _ d ds hw =>
    have hpos := d.utf8Size_pos
    have htilde : Char.utf8Size '~' = 1 := by decide
    refine iff_of_true rfl ⟨by rw [hw]; rfl, ?_⟩
    rw [hw, Token.size_cons, Token.size_cons]
    omega
  case _ hw =>
    refine iff_of_false (by simp) ?_
    rintro ⟨hhead, hlong⟩
    obtain ⟨rest, hrest⟩ := List.head?_eq_some_iff.1 hhead
    cases rest with
    | nil =>
      rw [hrest] at hlong
      exact absurd hlong (by decide)
    | cons d ds => exact hw d ds hrest

namespace Token

variable {pos : Nat} {cs : List Char} {t : Token}

/-- What a token has to be between two parts of a text: a mark, a quote mark, or a word that goes on at neither end. -/
def FitsBetween (front : List Char) (t : Token) (back : List Char) : Prop :=
  (∃ c, t.kind = .punctuation c ∧ isMark c = true ∧ t.text = String.singleton c) ∨
  (∃ c, t.kind = .quote c ∧ isQuoteMark c = true ∧ t.text = String.singleton c) ∨
  (t = ofWord t.start t.text ∧ Word.IsSolid t.text ∧
    (∀ c ∈ front.getLast?, isWordChar c = false) ∧ ∀ c ∈ back.head?, isWordChar c = false)

/-- That a text which starts at byte `pos` has the token at its place. -/
def OccursIn (pos : Nat) (cs : List Char) (t : Token) : Prop :=
  ∃ front back, cs = front ++ (t.text.toList ++ back) ∧ t.start = pos + (String.ofList front).utf8ByteSize ∧
    t.FitsBetween front back

theorem OccursIn.append (front : List Char) (h : OccursIn (pos + (String.ofList front).utf8ByteSize) cs t)
    (hends : (∀ c ∈ front.getLast?, isWordChar c = false) ∨ ∀ c ∈ cs.head?, isWordChar c = false) :
    OccursIn pos (front ++ cs) t := by
  obtain ⟨front', back, rfl, hstart, hfits⟩ := h
  refine ⟨front ++ front', back, by rw [List.append_assoc], by rw [hstart, size_append, Nat.add_assoc], ?_⟩
  rcases hfits with hmark | hquote | ⟨hword, hsolid, hfront', hback⟩
  · exact .inl hmark
  · exact .inr (.inl hquote)
  refine .inr (.inr ⟨hword, hsolid, ?_, hback⟩)
  rcases List.eq_nil_or_concat front' with rfl | ⟨init, d, rfl⟩
  · rcases hends with hfront | hhead
    · simpa using hfront
    · -- the word would start with a character that is part of no word
      obtain ⟨d, ds, hd⟩ := List.exists_cons_of_ne_nil hsolid.1
      have hnot := hhead d (by simp [hd])
      rw [hsolid.2 d (by simp [hd])] at hnot
      exact absurd hnot (by simp)
  · simpa using hfront'

theorem occursIn_of_mem_scan (h : t ∈ scan pos cs) : OccursIn pos cs t := by
  fun_induction scan pos cs with
  | case1 => simp at h
  | case2 pos c rest hc w ih =>
    obtain ⟨hsolid, hchars, hrest⟩ : Word.IsSolid w ∧ c :: rest = w.toList ++ rest.dropWhile isWordChar ∧ _ :=
      leading_word hc rest
    rcases List.mem_cons.1 h with rfl | h
    · exact ⟨[], rest.dropWhile isWordChar, hchars, by simp [ofWord], .inr (.inr ⟨rfl, hsolid, by simp, hrest⟩)⟩
    · rw [hchars]
      exact OccursIn.append _ (by rw [String.ofList_toList]; exact ih h) (.inr hrest)
  | case3 pos c rest hc tokens hm ih =>
    rcases List.mem_cons.1 h with rfl | h
    · exact ⟨[], rest, by simp, by simp, .inl ⟨c, rfl, hm, rfl⟩⟩
    · exact OccursIn.append [c] (by simpa [size_cons] using ih h) (.inl (by simpa using hc))
  | case4 pos c rest hc tokens hm hq ih =>
    rcases List.mem_cons.1 h with rfl | h
    · exact ⟨[], rest, by simp, by simp, .inr (.inl ⟨c, rfl, hq, rfl⟩)⟩
    · exact OccursIn.append [c] (by simpa [size_cons] using ih h) (.inl (by simpa using hc))
  | case5 pos c rest hc tokens hm hq ih =>
    exact OccursIn.append [c] (by simpa [size_cons] using ih h) (.inl (by simpa using hc))

theorem scan_append_of_last {front back : List Char} (h : ∀ c ∈ front.getLast?, isWordChar c = false) :
    scan pos (front ++ back) = scan pos front ++ scan (pos + (String.ofList front).utf8ByteSize) back := by
  rcases List.eq_nil_or_concat front with rfl | ⟨init, c, rfl⟩
  · simp [scan_nil]
  have hc : isWordChar c = false := h c (by simp)
  have hone (n : Nat) (cs : List Char) : scan n (c :: cs) = scan n [c] ++ scan (n + c.utf8Size) cs := by
    simp only [scan_cons, hc, scan_nil]
    cases isMark c <;> cases isQuoteMark c <;> rfl
  rw [List.concat_eq_append, List.append_assoc, List.singleton_append, scan_append (.inl (by simpa using hc)), hone,
    scan_append (.inl (by simpa using hc)), size_append, size_cons, List.append_assoc, Nat.add_assoc]
  simp

theorem mem_scan_of_occursIn (h : OccursIn pos cs t) : t ∈ scan pos cs := by
  obtain ⟨front, back, rfl, hstart, hfits⟩ := h
  have hmem (hhere : t ∈ scan t.start (t.text.toList ++ back)) (hcut : scan pos (front ++ (t.text.toList ++ back)) =
      scan pos front ++ scan (pos + (String.ofList front).utf8ByteSize) (t.text.toList ++ back)) :
      t ∈ scan pos (front ++ (t.text.toList ++ back)) := by
    rw [hcut, ← hstart]
    exact List.mem_append_right _ hhere
  obtain ⟨text, kind, start⟩ := t
  rcases hfits with ⟨c, rfl, hc, rfl⟩ | ⟨c, rfl, hc, rfl⟩ | ⟨hword, hsolid, hfront, hback⟩
  · have hnot : isWordChar c = false := by simp [isWordChar, hc]
    apply hmem
    · simp [scan_cons, hnot, hc]
    · exact scan_append (.inl (by simpa using hnot))
  · have hnot : isWordChar c = false := by simp [isWordChar, hc]
    apply hmem
    · simp [scan_cons, hnot, hc, isMark_of_isQuoteMark hc]
    · exact scan_append (.inl (by simpa using hnot))
  · apply hmem
    · rw [scan_solid hsolid _ _ hback, ← hword]
      exact List.mem_cons_self
    · exact scan_append_of_last hfront

theorem mem_scan_iff : t ∈ scan pos cs ↔ OccursIn pos cs t := ⟨occursIn_of_mem_scan, mem_scan_of_occursIn⟩

theorem le_start_of_mem_scan (h : t ∈ scan pos cs) : pos ≤ t.start := by
  obtain ⟨before, after, -, hstart⟩ := standsIn_of_mem_scan h
  omega

theorem pairwise_scan (pos : Nat) (cs : List Char) : (scan pos cs).Pairwise fun t u ↦ t.stop ≤ u.start := by
  fun_induction scan pos cs with
  | case1 => exact .nil
  | case2 pos c rest hc w ih => exact .cons (fun u hu ↦ le_start_of_mem_scan hu) ih
  | case3 pos c rest hc tokens hm ih => exact .cons (fun u hu ↦ by simpa [stop, size] using le_start_of_mem_scan hu) ih
  | case4 pos c rest hc tokens hm hq ih =>
    exact .cons (fun u hu ↦ by simpa [stop, size] using le_start_of_mem_scan hu) ih
  | case5 pos c rest hc tokens hm hq ih => exact ih

theorem exists_occursIn (front : List Char) {c : Char} (hc : Text.isBlank c = false) (back : List Char) :
    ∃ t, OccursIn 0 (front ++ c :: back) t ∧ t.start ≤ (String.ofList front).utf8ByteSize ∧
      (String.ofList front).utf8ByteSize + c.utf8Size ≤ t.stop := by
  by_cases hm : isMark c = true
  · refine ⟨⟨String.singleton c, .punctuation c, (String.ofList front).utf8ByteSize⟩, ⟨front, back, ?_⟩, ?_⟩
    · exact ⟨by simp, by simp, .inl ⟨c, rfl, hm, rfl⟩⟩
    · simp [stop, size]
  by_cases hq : isQuoteMark c = true
  · refine ⟨⟨String.singleton c, .quote c, (String.ofList front).utf8ByteSize⟩, ⟨front, back, ?_⟩, ?_⟩
    · exact ⟨by simp, by simp, .inr (.inl ⟨c, rfl, hq, rfl⟩)⟩
    · simp [stop, size]
  have hword : isWordChar c = true := by simp [isWordChar, hc, hm, hq]
  -- the word goes as far as it can to both sides
  obtain ⟨init, first, hfront, hinit, hfirst⟩ : ∃ init first, front = init ++ first ∧
      (∀ d ∈ init.getLast?, isWordChar d = false) ∧ ∀ d ∈ first, isWordChar d = true := by
    refine ⟨front.rdropWhile isWordChar, front.rtakeWhile isWordChar, ?_, fun d hd ↦ ?_, ?_⟩
    · exact List.rdropWhile_append_rtakeWhile.symm
    · have hhead := List.head?_dropWhile_not isWordChar front.reverse
      rw [← List.getLast?_reverse, ← List.rdropWhile, hd] at hhead
      simpa using hhead
    · exact fun d hd ↦ List.mem_rtakeWhile_imp hd
  obtain ⟨hsolid, hchars, hrest⟩ := leading_word hword back
  let w := String.ofList (first ++ c :: back.takeWhile isWordChar)
  have hw : w.toList = first ++ c :: back.takeWhile isWordChar := String.toList_ofList
  refine ⟨ofWord (String.ofList init).utf8ByteSize w, ⟨init, back.dropWhile isWordChar, ?_, ?_, ?_⟩, ?_, ?_⟩
  · rw [hfront, hchars]
    simp [ofWord, hw]
  · simp [ofWord]
  · refine .inr (.inr ⟨rfl, ⟨by simp [ofWord, hw], fun d hd ↦ ?_⟩, hinit, hrest⟩)
    simp only [ofWord, hw, List.mem_append] at hd
    rcases hd with hd | hd
    · exact hfirst d hd
    · exact hsolid.2 d (by simpa using hd)
  · rw [hfront, size_append]
    exact Nat.le_add_right _ _
  · simp only [ofWord, stop, size, hfront, size_append, size_cons, w]
    omega

/-- The token is the slice of the text at its place, which starts and ends between characters. -/
def IsSlice (text : String) (t : Token) : Prop :=
  ∃ (hstart : String.Pos.Raw.IsValid text ⟨t.start⟩) (hstop : String.Pos.Raw.IsValid text ⟨t.stop⟩)
    (h : text.pos _ hstart ≤ text.pos _ hstop), (text.slice _ _ h).copy = t.text

theorem isSlice_iff {text : String} : t.IsSlice text ↔ StandsIn 0 text t := by
  constructor
  · rintro ⟨hstart, hstop, h⟩
    obtain ⟨before, after, hbefore, -⟩ := String.copy_slice_eq_iff_splits.1 h
    refine ⟨before, after, hbefore.eq_append.trans String.append_assoc.symm, ?_⟩
    simpa [String.rawEndPos] using congrArg String.Pos.Raw.byteIdx hbefore.offset_eq_rawEndPos
  · rintro ⟨before, after, rfl, hstart⟩
    rw [Nat.zero_add] at hstart
    have hvalid : String.Pos.Raw.IsValid (before ++ t.text ++ after) ⟨t.start⟩ :=
      String.Pos.Raw.isValid_iff_exists_append.2 ⟨before, t.text ++ after, String.append_assoc, by rw [hstart]; rfl⟩
    have hvalid' : String.Pos.Raw.IsValid (before ++ t.text ++ after) ⟨t.stop⟩ :=
      String.Pos.Raw.isValid_iff_exists_append.2
        ⟨before ++ t.text, after, rfl, by simp [stop, size, hstart, String.rawEndPos]⟩
    refine ⟨hvalid, hvalid', String.copy_slice_eq_iff_splits.2 ⟨before, after, ⟨String.append_assoc, ?_⟩, ⟨rfl, ?_⟩⟩⟩
    · rw [String.offset_pos, hstart]
      rfl
    · simp [stop, size, hstart, String.rawEndPos]

def Holds (t : Token) (pos : Nat) (c : Char) : Prop := t.start ≤ pos ∧ pos + c.utf8Size ≤ t.stop

/-- A run of characters that words are made of, with no such character before it or after it. -/
def IsWholeWord (text : String) (t : Token) : Prop :=
  (∀ c ∈ t.text.toList, isWordChar c = true) ∧ ∃ before after, text = before ++ t.text ++ after ∧
    t.start = before.utf8ByteSize ∧ (∀ c ∈ before.toList.getLast?, isWordChar c = false) ∧
    ∀ c ∈ after.toList.head?, isWordChar c = false

/-- The tokens are the text, blanks apart. -/
structure Cover (text : String) (tokens : List Token) : Prop where
  start_lt_stop : ∀ t ∈ tokens, t.start < t.stop
  stop_le_start : tokens.Pairwise fun t u ↦ t.stop ≤ u.start
  slice : ∀ t ∈ tokens, t.IsSlice text
  /-- Each character that is no blank lies in a token, and in no second one. -/
  holds : ∀ before c after, text = before ++ String.singleton c ++ after → Text.isBlank c = false →
    ∃! t, t ∈ tokens ∧ t.Holds before.utf8ByteSize c
  not_blank : ∀ t ∈ tokens, ∀ c ∈ t.text.toList, Text.isBlank c = false
  mark : ∀ t ∈ tokens, ∀ c, t.kind = .punctuation c → isMark c = true ∧ t.text = String.singleton c
  quote : ∀ t ∈ tokens, ∀ c, t.kind = .quote c → isQuoteMark c = true ∧ t.text = String.singleton c
  word : ∀ t ∈ tokens, t.isWord = true → t.IsWholeWord text
  preposition : ∀ t ∈ tokens, t.isWord = true →
    (t.kind = .preposition ↔ t.text.toList.head? = some '~' ∧ 1 < t.text.utf8ByteSize)

theorem kind_eq_preposition_iff (h : t = ofWord t.start t.text) :
    t.kind = .preposition ↔ t.text.toList.head? = some '~' ∧ 1 < t.text.utf8ByteSize := by
  rw [← Word.isPreposition_iff, h, ofWord]
  cases Word.isPreposition t.text <;> simp

theorem FitsBetween.ne_nil {front back : List Char} (h : t.FitsBetween front back) : t.text.toList ≠ [] := by
  rcases h with ⟨c, -, -, htext⟩ | ⟨c, -, -, htext⟩ | ⟨-, hsolid, -⟩
  · simp [htext]
  · simp [htext]
  · exact hsolid.1

theorem FitsBetween.not_blank {front back : List Char} (h : t.FitsBetween front back) :
    ∀ c ∈ t.text.toList, Text.isBlank c = false := by
  have hmarks (c : Char) (hc : isMark c = true ∨ isQuoteMark c = true) : Text.isBlank c = false := by
    simp only [isMark, isQuoteMark, decide_eq_true_eq, List.mem_cons, List.not_mem_nil, or_false] at hc
    rcases hc with (rfl | rfl | rfl | rfl | rfl | rfl) | rfl | rfl <;> decide
  rcases h with ⟨c, -, hc, htext⟩ | ⟨c, -, hc, htext⟩ | ⟨-, hsolid, -⟩
  · simpa [htext] using hmarks c (.inl hc)
  · simpa [htext] using hmarks c (.inr hc)
  · intro c hc
    have hword := hsolid.2 c hc
    simp only [isWordChar, Bool.and_eq_true, Bool.not_eq_true_eq_eq_false] at hword
    exact hword.1.1

theorem FitsBetween.of_not_isWord {front back : List Char} (h : t.FitsBetween front back) {c : Char} :
    (t.kind = .punctuation c → isMark c = true ∧ t.text = String.singleton c) ∧
      (t.kind = .quote c → isQuoteMark c = true ∧ t.text = String.singleton c) := by
  rcases h with ⟨d, hkind, hd⟩ | ⟨d, hkind, hd⟩ | ⟨hword, -⟩
  · exact ⟨fun h ↦ TokenKind.punctuation.inj (hkind.symm.trans h) ▸ hd, fun h ↦ by simp [hkind] at h⟩
  · exact ⟨fun h ↦ by simp [hkind] at h, fun h ↦ TokenKind.quote.inj (hkind.symm.trans h) ▸ hd⟩
  · have hisWord := isWord_ofWord t.start t.text
    rw [← hword, isWord] at hisWord
    exact ⟨fun h ↦ by simp [h] at hisWord, fun h ↦ by simp [h] at hisWord⟩

theorem FitsBetween.of_isWord {front back : List Char} (h : t.FitsBetween front back) (hword : t.isWord = true) :
    t = ofWord t.start t.text ∧ Word.IsSolid t.text ∧
      (∀ c ∈ front.getLast?, isWordChar c = false) ∧ ∀ c ∈ back.head?, isWordChar c = false := by
  rcases h with ⟨c, hkind, -⟩ | ⟨c, hkind, -⟩ | h
  · simp [isWord, hkind] at hword
  · simp [isWord, hkind] at hword
  · exact h

theorem start_lt_stop_of_ne_nil (h : t.text.toList ≠ []) : t.start < t.stop := by
  obtain ⟨c, cs, hcs⟩ := List.exists_cons_of_ne_nil h
  have hsize : t.text.utf8ByteSize = (String.ofList (c :: cs)).utf8ByteSize := by rw [← hcs, String.ofList_toList]
  have hpos := c.utf8Size_pos
  rw [size_cons] at hsize
  simp only [stop, size]
  omega

theorem eq_of_holds {tokens : List Token} (h : tokens.Pairwise fun t u ↦ t.stop ≤ u.start) {t u : Token} {c : Char}
    (ht : t ∈ tokens) (hu : u ∈ tokens) (htc : t.Holds pos c) (huc : u.Holds pos c) : t = u := by
  have hpos := c.utf8Size_pos
  have hclash {t u : Token} (h : t.stop ≤ u.start) (ht : t.Holds pos c) (hu : u.Holds pos c) : False := by
    obtain ⟨-, ht⟩ := ht
    obtain ⟨hu, -⟩ := hu
    omega
  have hall := List.Pairwise.forall_of_forall_of_flip (R := fun t u ↦ t.Holds pos c → u.Holds pos c → t = u)
    (fun t _ _ _ ↦ rfl) (h.imp fun h ht hu ↦ (hclash h ht hu).elim) (h.imp fun h hu ht ↦ (hclash h ht hu).elim)
  exact hall ht hu htc huc

theorem Cover.occursIn {text : String} {tokens : List Token} (h : Cover text tokens) (ht : t ∈ tokens) :
    OccursIn 0 text.toList t := by
  have hne : t.text.toList ≠ [] := by
    intro hnil
    have hlt := h.start_lt_stop t ht
    rw [← String.toList_empty, String.toList_inj] at hnil
    simp [stop, size, hnil] at hlt
  obtain ⟨before, after, htext, hstart⟩ := isSlice_iff.1 (h.slice t ht)
  have hplace (front back : String) (htext : text = front ++ t.text ++ back) (hstart : t.start = front.utf8ByteSize)
      (hfits : t.FitsBetween front.toList back.toList) : OccursIn 0 text.toList t :=
    ⟨front.toList, back.toList, by simp [htext], by simp [hstart], hfits⟩
  by_cases hword : t.isWord = true
  · obtain ⟨hchars, front, back, htext, hstart, hfront, hback⟩ := h.word t ht hword
    have hkind : t = ofWord t.start t.text := by
      have hpreposition := (h.preposition t ht hword).trans Word.isPreposition_iff.symm
      obtain ⟨text, kind, start⟩ := t
      simp only [ofWord, mk.injEq, true_and, and_true]
      cases kind <;> simp_all [isWord]
    exact hplace front back htext hstart (.inr (.inr ⟨hkind, ⟨hne, hchars⟩, hfront, hback⟩))
  · apply hplace before after htext (by simpa using hstart)
    cases hkind : t.kind with
    | word => simp [isWord, hkind] at hword
    | preposition => simp [isWord, hkind] at hword
    | punctuation c => exact .inl ⟨c, hkind, h.mark t ht c hkind⟩
    | quote c => exact .inr (.inl ⟨c, hkind, h.quote t ht c hkind⟩)

end Token

theorem cover_tokenize (text : String) : Token.Cover text (tokenize text) := by
  have hapart := Token.pairwise_scan 0 text.toList
  have hfits : ∀ t ∈ tokenize text, ∃ front back, text.toList = front ++ (t.text.toList ++ back) ∧
      t.start = 0 + (String.ofList front).utf8ByteSize ∧ t.FitsBetween front back :=
    fun t ht ↦ Token.mem_scan_iff.1 ht
  constructor
  case start_lt_stop =>
    intro t ht
    obtain ⟨front, back, -, -, hfits⟩ := hfits t ht
    exact Token.start_lt_stop_of_ne_nil hfits.ne_nil
  case stop_le_start => exact hapart
  case slice =>
    intro t ht
    have hstands := Token.standsIn_of_mem_scan ht
    rw [String.ofList_toList] at hstands
    exact Token.isSlice_iff.2 hstands
  case holds =>
    intro before c after htext hc
    obtain ⟨t, hoccurs, hstart, hstop⟩ := Token.exists_occursIn before.toList hc after.toList
    rw [String.ofList_toList] at hstart hstop
    have ht : t ∈ tokenize text := by
      rw [tokenize, htext]
      exact Token.mem_scan_iff.2 (by simpa using hoccurs)
    refine ⟨t, ⟨ht, hstart, hstop⟩, ?_⟩
    rintro u ⟨hu, hholds⟩
    exact Token.eq_of_holds hapart hu ht hholds ⟨hstart, hstop⟩
  case not_blank =>
    intro t ht
    obtain ⟨front, back, -, -, hfits⟩ := hfits t ht
    exact hfits.not_blank
  case mark =>
    intro t ht c
    obtain ⟨front, back, -, -, hfits⟩ := hfits t ht
    exact hfits.of_not_isWord.1
  case quote =>
    intro t ht c
    obtain ⟨front, back, -, -, hfits⟩ := hfits t ht
    exact hfits.of_not_isWord.2
  case word =>
    intro t ht hword
    obtain ⟨front, back, htext, hstart, hfits⟩ := hfits t ht
    obtain ⟨-, hsolid, hfront, hback⟩ := hfits.of_isWord hword
    refine ⟨hsolid.2, String.ofList front, String.ofList back, ?_, by simpa using hstart, ?_, ?_⟩
    · rw [← String.toList_inj, htext]
      simp
    · simpa using hfront
    · simpa using hback
  case preposition =>
    intro t ht hword
    obtain ⟨front, back, -, -, hfits⟩ := hfits t ht
    exact Token.kind_eq_preposition_iff (hfits.of_isWord hword).1

/-- The tokens of a text are its one cover. -/
theorem tokenize_eq_iff {text : String} {tokens : List Token} : tokenize text = tokens ↔ Token.Cover text tokens := by
  refine ⟨fun h ↦ h ▸ cover_tokenize text, fun h ↦ ?_⟩
  have hcover := cover_tokenize text
  have hmem : ∀ t ∈ tokens, t ∈ tokenize text := fun t ht ↦ Token.mem_scan_iff.2 (h.occursIn ht)
  have hmem' : ∀ t ∈ tokenize text, t ∈ tokens := by
    intro t ht
    -- its first character lies in some token of the cover, which is one of the text, and so is `t` itself
    obtain ⟨before, after, htext, hstart⟩ := Token.isSlice_iff.1 (hcover.slice t ht)
    obtain ⟨front, back, -, -, hfits⟩ := Token.mem_scan_iff.1 ht
    obtain ⟨c, cs, hcs⟩ := List.exists_cons_of_ne_nil hfits.ne_nil
    have hchar : text = before ++ String.singleton c ++ (String.ofList cs ++ after) := by
      rw [htext, ← String.toList_inj]
      simp [hcs]
    obtain ⟨u, ⟨hu, hholds⟩, -⟩ := h.holds _ c _ hchar (hfits.not_blank c (by simp [hcs]))
    have hself : t.Holds before.utf8ByteSize c := by
      have hsize : t.text.utf8ByteSize = (String.ofList (c :: cs)).utf8ByteSize := by rw [← hcs, String.ofList_toList]
      rw [Token.size_cons] at hsize
      constructor
      · omega
      · simp only [Token.stop, Token.size]
        omega
    rwa [Token.eq_of_holds hcover.stop_le_start ht (hmem u hu) hself hholds]
  have hlt {tokens : List Token} (h : Token.Cover text tokens) : tokens.Pairwise fun t u ↦ t.start < u.start :=
    h.stop_le_start.imp_of_mem fun ht _ hle ↦ Nat.lt_of_lt_of_le (h.start_lt_stop _ ht) hle
  have hirrefl : Std.Irrefl fun t u : Token ↦ t.start < u.start := ⟨fun t ↦ Nat.lt_irrefl _⟩
  have hantisymm : Std.Antisymm fun t u : Token ↦ t.start < u.start := ⟨fun t u h h' ↦ by omega⟩
  exact List.Pairwise.eq_of_mem_iff (hlt hcover) (hlt h) (fun t ↦ ⟨hmem' t, hmem t⟩)

example : (tokenize "«ma» ~lon,").map (fun t ↦ (t.start, t.stop)) = [(0, 2), (2, 4), (4, 6), (7, 11), (11, 12)] := by
  decide +kernel

end TokiPona
