import TokiPona.Sentence
import TokiPona.Token

namespace TokiPona

/-- The text of a word token: something, and no blank, mark or quote mark in it. -/
def Word.IsSolid (w : String) : Prop := w.toList ≠ [] ∧ ∀ c ∈ w.toList, Token.isWordChar c = true

instance (w : String) : Decidable (Word.IsSolid w) :=
  decidable_of_iff (w.toList.isEmpty = false ∧ w.toList.all Token.isWordChar = true) (by simp [Word.IsSolid])

theorem Particle.isSolid_word (p : Particle) : Word.IsSolid p.word := by
  cases p <;> decide

def Solid (words : List String) : Prop := ∀ w ∈ words, Word.IsSolid w

instance (words : List String) : Decidable (Solid words) := inferInstanceAs (Decidable (∀ w ∈ words, Word.IsSolid w))

theorem Solid.mono {words words' : List String} (h : Solid words) (hsub : ∀ w ∈ words', w ∈ words) : Solid words' :=
  fun w hw ↦ h w (hsub w hw)

theorem Solid.append {words words' : List String} (h : Solid words) (h' : Solid words') : Solid (words ++ words') :=
  fun w hw ↦ (List.mem_append.1 hw).elim (h w) (h' w)

theorem Solid.flatMap {α : Type} {f : α → List String} {xs : List α} (h : ∀ x ∈ xs, Solid (f x)) : Solid (xs.flatMap f) := by
  intro w hw
  obtain ⟨x, hx, hw⟩ := List.mem_flatMap.1 hw
  exact h x hx w hw

theorem Particle.solid_word (p : Particle) : Solid [p.word] := by simpa [Solid] using p.isSolid_word

namespace Token

-- These two stand in for the equations of `scan`, which Lean does not find by itself.
theorem scan_nil (pos : Nat) : scan pos [] = [] := by
  unfold scan
  rfl

theorem scan_cons (pos : Nat) (c : Char) (rest : List Char) :
    scan pos (c :: rest) =
      if isWordChar c then
        ofWord pos (String.ofList (c :: rest.takeWhile isWordChar)) ::
          scan (pos + (String.ofList (c :: rest.takeWhile isWordChar)).utf8ByteSize) (rest.dropWhile isWordChar)
      else if isMark c then ⟨String.singleton c, .punctuation c, pos⟩ :: scan (pos + c.utf8Size) rest
      else if isQuoteMark c then ⟨String.singleton c, .quote c, pos⟩ :: scan (pos + c.utf8Size) rest
      else scan (pos + c.utf8Size) rest := by
  conv =>
    lhs
    unfold scan

theorem scan_space (pos : Nat) (rest : List Char) : scan pos (' ' :: rest) = scan (pos + 1) rest := by
  rw [scan_cons, if_neg (by decide), if_neg (by decide), if_neg (by decide)]
  rfl

theorem isWord_ofWord (pos : Nat) (w : String) : (ofWord pos w).isWord = true := by
  unfold ofWord
  split <;> rfl

theorem leading_word {c : Char} (hc : isWordChar c = true) (rest : List Char) :
    Word.IsSolid (String.ofList (c :: rest.takeWhile isWordChar)) ∧
      c :: rest = (String.ofList (c :: rest.takeWhile isWordChar)).toList ++ rest.dropWhile isWordChar ∧
      ∀ d ∈ (rest.dropWhile isWordChar).head?, isWordChar d = false := by
  refine ⟨?_, ?_, fun d hd ↦ ?_⟩
  · rw [Word.IsSolid, String.toList_ofList]
    exact ⟨by simp, List.forall_mem_cons.2 ⟨hc, List.all_eq_true.1 List.all_takeWhile⟩⟩
  · rw [String.toList_ofList, List.cons_append, List.takeWhile_append_dropWhile]
  · have hhead := List.head?_dropWhile_not isWordChar rest
    rw [hd] at hhead
    simpa using hhead

theorem isMark_of_isQuoteMark {c : Char} (h : isQuoteMark c = true) : isMark c = false := by
  simp only [isQuoteMark, decide_eq_true_eq, List.mem_cons, List.not_mem_nil, or_false] at h
  rcases h with rfl | rfl <;> decide

/-- A token as texts have them, of the kind that its spelling says, wherever it may stand. -/
inductive IsGenuine : Token → Prop
  | word (pos : Nat) {w : String} (hw : Word.IsSolid w) : IsGenuine (ofWord pos w)
  | mark (pos : Nat) {c : Char} (hc : isMark c = true) : IsGenuine ⟨String.singleton c, .punctuation c, pos⟩
  | quote (pos : Nat) {c : Char} (hc : isQuoteMark c = true) : IsGenuine ⟨String.singleton c, .quote c, pos⟩

theorem isGenuine_of_mem_scan {pos : Nat} {cs : List Char} {t : Token} (h : t ∈ scan pos cs) : t.IsGenuine := by
  fun_induction scan pos cs with
  | case1 => simp at h
  | case2 pos c rest hc w ih =>
    rcases List.mem_cons.1 h with rfl | h
    · exact .word pos (leading_word hc rest).1
    · exact ih h
  | case3 pos c rest hc tokens hm ih =>
    rcases List.mem_cons.1 h with rfl | h
    · exact .mark pos hm
    · exact ih h
  | case4 pos c rest hc tokens hm hq ih =>
    rcases List.mem_cons.1 h with rfl | h
    · exact .quote pos hq
    · exact ih h
  | case5 pos c rest hc tokens hm hq ih => exact ih h

theorem mem_scan {pos : Nat} {cs : List Char} {t : Token} (h : t ∈ scan pos cs) (ht : t.isWord = true) :
    Word.IsSolid t.text ∧ t = ofWord t.start t.text := by
  cases isGenuine_of_mem_scan h with
  | word start hw => exact ⟨hw, rfl⟩
  | mark start hc => simp [isWord] at ht
  | quote start hc => simp [isWord] at ht

/-- That a token stands in a text at its place, where the text starts at byte `pos`. -/
def StandsIn (pos : Nat) (text : String) (t : Token) : Prop :=
  ∃ before after : String, text = before ++ t.text ++ after ∧ t.start = pos + before.utf8ByteSize

theorem standsIn_append {pos : Nat} {t : Token} (h : t.start = pos) (after : String) :
    StandsIn pos (t.text ++ after) t :=
  ⟨"", after, by simp, by simp [h]⟩

theorem StandsIn.append_left {pos : Nat} {text : String} {t : Token} {w : String}
    (h : StandsIn (pos + w.utf8ByteSize) text t) : StandsIn pos (w ++ text) t := by
  obtain ⟨before, after, rfl, hstart⟩ := h
  exact ⟨w ++ before, after, by simp [String.append_assoc], by simp [hstart, Nat.add_assoc]⟩

theorem ofList_cons (c : Char) (cs : List Char) : String.ofList (c :: cs) = String.singleton c ++ String.ofList cs := by
  rw [String.singleton_eq_ofList, ← String.ofList_append, List.singleton_append]

theorem standsIn_of_mem_scan {pos : Nat} {cs : List Char} {t : Token} (h : t ∈ scan pos cs) :
    StandsIn pos (String.ofList cs) t := by
  fun_induction scan pos cs with
  | case1 => simp at h
  | case2 pos c rest hc w ih =>
    have hw : String.ofList (c :: rest) = w ++ String.ofList (rest.dropWhile isWordChar) := by
      rw [← String.ofList_append, List.cons_append, List.takeWhile_append_dropWhile]
    rw [hw]
    rcases List.mem_cons.1 h with rfl | h
    · exact standsIn_append (t := .ofWord pos w) rfl _
    · exact (ih h).append_left
  | case3 pos c rest hc tokens hm ih =>
    rw [ofList_cons]
    rcases List.mem_cons.1 h with rfl | h
    · exact standsIn_append (t := ⟨String.singleton c, .punctuation c, pos⟩) rfl _
    · exact StandsIn.append_left (by simpa using ih h)
  | case4 pos c rest hc tokens hm hq ih =>
    rw [ofList_cons]
    rcases List.mem_cons.1 h with rfl | h
    · exact standsIn_append (t := ⟨String.singleton c, .quote c, pos⟩) rfl _
    · exact StandsIn.append_left (by simpa using ih h)
  | case5 pos c rest hc tokens hm hq ih =>
    rw [ofList_cons]
    exact StandsIn.append_left (by simpa using ih h)

/-- The tokens of words written from byte `pos` on with one space between neighbours. -/
def ofWords : Nat → List String → List Token
  | _, [] => []
  | pos, w :: ws => ofWord pos w :: ofWords (pos + w.utf8ByteSize + 1) ws

@[simp] theorem map_text_ofWords (pos : Nat) (ws : List String) : (ofWords pos ws).map text = ws := by
  induction ws generalizing pos with
  | nil => rfl
  | cons w ws ih => simp [ofWords, ofWord, ih]

theorem mem_ofWords {pos : Nat} {ws : List String} {t : Token} (h : t ∈ ofWords pos ws) :
    t.text ∈ ws ∧ t = ofWord t.start t.text := by
  induction ws generalizing pos with
  | nil => simp [ofWords] at h
  | cons w ws ih =>
    rcases List.mem_cons.1 h with rfl | h
    · exact ⟨by simp [ofWord], rfl⟩
    · exact ⟨List.mem_cons_of_mem _ (ih h).1, (ih h).2⟩

theorem scan_solid {w : String} (hw : Word.IsSolid w) (pos : Nat) (rest : List Char)
    (hrest : ∀ c ∈ rest.head?, isWordChar c = false) :
    scan pos (w.toList ++ rest) = ofWord pos w :: scan (pos + w.utf8ByteSize) rest := by
  obtain ⟨hne, hall⟩ := hw
  obtain ⟨c, cs, hcs⟩ := List.exists_cons_of_ne_nil hne
  have htake : (cs ++ rest).takeWhile isWordChar = cs := by
    rw [List.takeWhile_append_of_pos (fun d hd ↦ hall d (by simp [hcs, hd]))]
    cases rest with
    | nil => simp
    | cons d rest => simp [hrest d rfl]
  have hdrop : (cs ++ rest).dropWhile isWordChar = rest := by
    rw [List.dropWhile_append_of_pos (fun d hd ↦ hall d (by simp [hcs, hd]))]
    cases rest with
    | nil => simp
    | cons d rest => simp [hrest d rfl]
  have hofList : String.ofList (c :: cs) = w := by rw [← hcs, String.ofList_toList]
  rw [hcs, List.cons_append, scan_cons, if_pos (hall c (by simp [hcs])), htake, hdrop, hofList]

def movedTo (pos : Nat) (t : Token) : Token := { t with start := pos }

theorem IsGenuine.scan_eq {t : Token} (h : t.IsGenuine) (pos : Nat) (rest : List Char)
    (hrest : ∀ c ∈ rest.head?, isWordChar c = false) :
    scan pos (t.text.toList ++ rest) = t.movedTo pos :: scan (pos + t.size) rest := by
  cases h with
  | word start hw => exact scan_solid hw pos rest hrest
  | @mark start c hc =>
    have hchar : isWordChar c = false := by simp [isWordChar, hc]
    rw [String.toList_singleton, List.singleton_append, scan_cons, if_neg (by simp [hchar]), if_pos hc, size,
      String.utf8ByteSize_singleton]
    rfl
  | @quote start c hc =>
    have hchar : isWordChar c = false := by simp [isWordChar, hc]
    rw [String.toList_singleton, List.singleton_append, scan_cons, if_neg (by simp [hchar]),
      if_neg (by simp [isMark_of_isQuoteMark hc]), if_pos hc, size, String.utf8ByteSize_singleton]
    rfl

def laidOut : Nat → List Token → List Token
  | _, [] => []
  | pos, t :: run => t.movedTo pos :: laidOut (pos + t.size + 1) run

theorem laidOut_ofWord (pos : Nat) (ws : List String) : laidOut pos (ws.map (ofWord 0)) = ofWords pos ws := by
  induction ws generalizing pos with
  | nil => rfl
  | cons w ws ih =>
    rw [List.map_cons, laidOut, ih]
    rfl

theorem scan_fragment {run : List Token} (hrun : ∀ t ∈ run, t.IsGenuine) (pos : Nat) (rest : List Char)
    (hrest : ∀ c ∈ rest.head?, isWordChar c = false) :
    ∃ pos', scan pos ((fragment run).toList ++ rest) = laidOut pos run ++ scan pos' rest := by
  induction run generalizing pos with
  | nil => exact ⟨pos, by simp [fragment, Word.spaced, laidOut]⟩
  | cons t run ih =>
    have ht := hrun t (by simp)
    cases run with
    | nil => exact ⟨_, by simpa [fragment, Word.spaced, laidOut] using ht.scan_eq pos rest hrest⟩
    | cons u run =>
      obtain ⟨pos', hpos'⟩ := ih (fun v hv ↦ hrun v (by simp [hv])) (pos + t.size + 1)
      refine ⟨pos', ?_⟩
      have hsplit : (fragment (t :: u :: run)).toList ++ rest =
          t.text.toList ++ (' ' :: ((fragment (u :: run)).toList ++ rest)) := by
        simp [fragment, Word.spaced]
      -- without the space two words would be cut as one
      have hspace : isWordChar ' ' = false := by decide
      rw [hsplit, ht.scan_eq pos _ (by simp [hspace]), scan_space, hpos']
      rfl

/-- A run of solid words is cut into these words, whatever is not part of a word comes after it. -/
theorem scan_spaced {ws : List String} (hws : ∀ w ∈ ws, Word.IsSolid w) (pos : Nat) (rest : List Char)
    (hrest : ∀ c ∈ rest.head?, isWordChar c = false) :
    ∃ pos', scan pos ((Word.spaced ws).toList ++ rest) = ofWords pos ws ++ scan pos' rest := by
  have hrun : ∀ t ∈ ws.map (ofWord 0), t.IsGenuine := List.forall_mem_map.2 fun w hw ↦ .word 0 (hws w hw)
  have htext : fragment (ws.map (ofWord 0)) = Word.spaced ws := by simp [fragment, ofWord, Function.comp_def]
  obtain ⟨pos', hscan⟩ := scan_fragment hrun pos rest hrest
  rw [htext, laidOut_ofWord] at hscan
  exact ⟨pos', hscan⟩

end Token

theorem tokenize_spaced {ws : List String} (hws : ∀ w ∈ ws, Word.IsSolid w) :
    tokenize (Word.spaced ws) = Token.ofWords 0 ws := by
  obtain ⟨pos, hpos⟩ := Token.scan_spaced hws 0 [] (by simp)
  simpa [tokenize, Token.scan_nil] using hpos

theorem tokenize_marked {ws : List String} (hws : ∀ w ∈ ws, Word.IsSolid w) (p : Punctuation) :
    ∃ pos, tokenize (Sentence.marked ws (some p)) =
      Token.ofWords 0 ws ++ [⟨String.singleton p.mark, .punctuation p.mark, pos⟩] := by
  have hmark : Token.isWordChar p.mark = false ∧ Token.isMark p.mark = true := by cases p <;> decide
  obtain ⟨pos, hpos⟩ := Token.scan_spaced hws 0 [p.mark] (by simp [hmark.1])
  refine ⟨pos, ?_⟩
  have hscan : Token.scan pos [p.mark] = [⟨String.singleton p.mark, .punctuation p.mark, pos⟩] := by
    rw [Token.scan_cons, if_neg (by simp [hmark.1]), if_pos hmark.2, Token.scan_nil]
  rw [hscan] at hpos
  simpa [tokenize, Sentence.marked] using hpos

theorem Word.spaced_injOn {ws ws' : List String} (hws : ∀ w ∈ ws, IsSolid w) (hws' : ∀ w ∈ ws', IsSolid w)
    (h : spaced ws = spaced ws') : ws = ws' := by
  have htokens : Token.ofWords 0 ws = Token.ofWords 0 ws' := by
    rw [← tokenize_spaced hws, ← tokenize_spaced hws', h]
  simpa using congrArg (List.map Token.text) htokens

end TokiPona
