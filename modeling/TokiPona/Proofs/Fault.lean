import TokiPona.Proofs.Spelling
import TokiPona.Proofs.Token

/-!
Accesses to a run by place and cuts of a text at a byte, each of which may be out of range. What happens then is left
open, as a fault that takes the place of the result. How a text becomes tokens, and a run of words pieces or lexemes, is
said once more with these accesses written out, and none of them comes to a fault.
-/

namespace TokiPona

namespace Reading

/-- What an access out of range does where it should give a result. -/
abbrev Fault (m : Type → Type) : Type 1 := (α : Type) → m α

namespace Fault

variable {m : Type → Type} [Monad m] {α : Type} (fault : Fault m)

def item (xs : List α) (i : Nat) : m α :=
  match xs[i]? with
  | some x => pure x
  | none => fault α

def slice (xs : List α) (start stop : Nat) : m (List α) :=
  if start ≤ stop ∧ stop ≤ xs.length then pure ((xs.take stop).drop start) else fault (List α)

def suffix (xs : List α) (start : Nat) : m (List α) := fault.slice xs start xs.length

/-- A place counted from the end. -/
def fromEnd (xs : List α) (k : Nat) : m Nat := if k ≤ xs.length then pure (xs.length - k) else fault Nat

/-- The text from one byte up to another, each of which has to be the first byte of a character or the end. -/
def textSlice (s : String) (start stop : Nat) : m String :=
  if h : start ≤ stop ∧ String.Pos.Raw.IsValid s ⟨start⟩ ∧ String.Pos.Raw.IsValid s ⟨stop⟩ then
    pure (s.slice (s.pos ⟨start⟩ h.2.1) (s.pos ⟨stop⟩ h.2.2) h.1).copy
  else fault String

def textFrom (s : String) (start : Nat) : m String := fault.textSlice s start s.utf8ByteSize

theorem item_eq {xs : List α} {i : Nat} {x : α} (h : xs[i]? = some x) : fault.item xs i = pure x := by
  rw [item, h]

@[simp] theorem item_zero (x : α) (xs : List α) : fault.item (x :: xs) 0 = pure x := rfl

theorem slice_eq {xs : List α} {start stop : Nat} (h : start ≤ stop ∧ stop ≤ xs.length) :
    fault.slice xs start stop = pure ((xs.take stop).drop start) := if_pos h

theorem suffix_eq {xs : List α} {start : Nat} (h : start ≤ xs.length) :
    fault.suffix xs start = pure (xs.drop start) := by
  rw [suffix, slice_eq fault ⟨h, Nat.le_refl _⟩, List.take_length]

@[simp] theorem suffix_one (x : α) (xs : List α) : fault.suffix (x :: xs) 1 = pure xs :=
  suffix_eq fault (by simp)

theorem fromEnd_eq {xs : List α} {k : Nat} (h : k ≤ xs.length) : fault.fromEnd xs k = pure (xs.length - k) := if_pos h

theorem textSlice_append (s t u : String) :
    fault.textSlice (s ++ t ++ u) s.utf8ByteSize (s.utf8ByteSize + t.utf8ByteSize) = pure t := by
  have hstart : String.Pos.Raw.IsValid (s ++ t ++ u) ⟨s.utf8ByteSize⟩ :=
    String.Pos.Raw.isValid_iff_exists_append.2 ⟨s, t ++ u, String.append_assoc, rfl⟩
  have hstop : String.Pos.Raw.IsValid (s ++ t ++ u) ⟨s.utf8ByteSize + t.utf8ByteSize⟩ :=
    String.Pos.Raw.isValid_iff_exists_append.2 ⟨s ++ t, u, rfl, by simp [String.rawEndPos]⟩
  rw [textSlice, dif_pos ⟨Nat.le_add_right _ _, hstart, hstop⟩]
  have hcopy : ∃ h : String.pos _ _ hstart ≤ String.pos _ _ hstop, (String.slice _ _ _ h).copy = t :=
    String.copy_slice_eq_iff_splits.2 ⟨s, u, ⟨String.append_assoc, rfl⟩, ⟨rfl, by simp [String.rawEndPos]⟩⟩
  exact congrArg pure hcopy.snd

theorem textFrom_append (s t : String) : fault.textFrom (s ++ t) s.utf8ByteSize = pure t := by
  have h := fault.textSlice_append s t ""
  rwa [String.append_empty, ← String.utf8ByteSize_append] at h

example : (textFrom (fun _ ↦ none) "~ñ" 2 : Option String) = none := by decide

end Fault

namespace Checked

section

variable {m : Type → Type} [Monad m] (fault : Fault m) (lex : Lexicon)

/-- The tokens of what is left of a text from byte `pos` on, in `n` steps. A character that opens no token is cut off. -/
def scan : Nat → Nat → List Char → m (List Token)
  | 0, _, _ => pure []
  | _ + 1, _, [] => pure []
  | n + 1, pos, c :: rest =>
    if Token.isWordChar c then do
      let w := String.ofList (c :: rest.takeWhile Token.isWordChar)
      let tokens ← scan n (pos + w.utf8ByteSize) (rest.dropWhile Token.isWordChar)
      pure (.ofWord pos w :: tokens)
    else if Token.isMark c then do
      let tokens ← scan n (pos + c.utf8Size) rest
      pure (⟨String.singleton c, .punctuation c, pos⟩ :: tokens)
    else if Token.isQuoteMark c then do
      let tokens ← scan n (pos + c.utf8Size) rest
      pure (⟨String.singleton c, .quote c, pos⟩ :: tokens)
    else do
      let left ← fault.textFrom (String.ofList (c :: rest)) c.utf8Size
      scan n (pos + c.utf8Size) left.toList

theorem scan_eq [LawfulMonad m] {n pos : Nat} {cs : List Char} (h : cs.length ≤ n) :
    scan fault n pos cs = pure (Token.scan pos cs) := by
  -- each step takes a character at least, so `n` of them are enough
  induction n generalizing pos cs with
  | zero =>
    obtain rfl : cs = [] := List.eq_nil_of_length_eq_zero (Nat.le_zero.1 h)
    rw [scan, Token.scan_nil]
  | succ n ih =>
    cases cs with
    | nil => rw [scan, Token.scan_nil]
    | cons c rest =>
      have hrest : rest.length ≤ n := by simpa using h
      have hlater : (rest.dropWhile Token.isWordChar).length ≤ n :=
        Nat.le_trans (List.dropWhile_sublist _).length_le hrest
      have hleft : fault.textFrom (String.ofList (c :: rest)) c.utf8Size = pure (String.ofList rest) := by
        rw [Token.ofList_cons, ← String.utf8ByteSize_singleton]
        exact fault.textFrom_append _ _
      rw [scan, Token.scan_cons, hleft]
      simp only [ih hlater, ih hrest, pure_bind, String.toList_ofList]
      split_ifs <;> rfl

/-- The tokens of a text. What a mark or quote mark says is cut out of the text once its place is known. -/
def tokenize (text : String) : m (List Token) := do
  let tokens ← scan fault text.toList.length 0 text.toList
  tokens.mapM fun t ↦
    if t.isWord then pure t
    else do
      let mark ← fault.textSlice text t.start t.stop
      pure { t with text := mark }

theorem tokenize_eq [LawfulMonad m] (text : String) : tokenize fault text = pure (TokiPona.tokenize text) := by
  have hmark : ∀ t ∈ TokiPona.tokenize text, fault.textSlice text t.start t.stop = pure t.text := by
    intro t ht
    obtain ⟨before, after, htext, hstart⟩ := Token.standsIn_of_mem_scan ht
    rw [String.ofList_toList] at htext
    rw [Token.stop, Token.size, hstart, Nat.zero_add, htext, Fault.textSlice_append]
  have hpure := List.mapM_pure (m := m) (l := TokiPona.tokenize text) (f := id)
  rw [List.map_id] at hpure
  rw [tokenize, scan_eq fault (Nat.le_refl _), pure_bind, ← hpure]
  exact mapM_congr_of_mem (fun t ht ↦ by simp [hmark t ht])

section

variable {α : Type}

/-- What a window of two shows as it moves along a run, each time read by its two places. -/
def windows : List α → m (List (α × α))
  | [] => pure []
  | x :: rest => do
    let window := (x :: rest).take 2
    if window.length = 2 then do
      let first ← fault.item window 0
      let second ← fault.item window 1
      let others ← windows rest
      pure ((first, second) :: others)
    else pure []

theorem windows_eq [LawfulMonad m] (xs : List α) : windows fault xs = pure (xs.zip (xs.drop 1)) := by
  induction xs with
  | nil => rfl
  | cons x rest ih =>
    cases rest with
    | nil => rfl
    | cons y rest =>
      have hsecond : fault.item [x, y] 1 = pure y := rfl
      rw [windows, ih]
      simp [hsecond]

/-- Cuts what is left from place `i` on; the piece at hand starts at `start`. -/
def cutBefore (p : α → Bool) (xs : List α) (start i : Nat) : List α → m (List (List α))
  | [] => do
    let piece ← fault.suffix xs start
    pure [piece]
  | x :: rest =>
    if p x then do
      let piece ← fault.slice xs start i
      let pieces ← cutBefore p xs i (i + 1) rest
      pure (piece :: pieces)
    else cutBefore p xs start (i + 1) rest

def splitBefore (p : α → Bool) (xs : List α) : m (List (List α)) :=
  if xs.isEmpty then pure [] else cutBefore fault p xs 0 1 (xs.drop 1)

theorem cutBefore_eq [LawfulMonad m] {p : α → Bool} (cut : List α) {piece : List α} (hne : piece ≠ [])
    (htail : ∀ x ∈ piece.tail, p x = false) (rest : List α) :
    cutBefore fault p (cut ++ piece ++ rest) cut.length (cut.length + piece.length) rest =
      pure (TokiPona.splitBefore p (piece ++ rest)) := by
  -- `cut` has been handed out, `piece` is at hand, and `rest` is still to come
  induction rest generalizing cut piece with
  | nil =>
    rw [cutBefore, Fault.suffix_eq fault (by simp)]
    simp [splitBefore_of_tail hne htail]
  | cons x rest ih =>
    rw [cutBefore]
    split
    case isTrue hx =>
      have ih' := ih (cut ++ piece) (List.cons_ne_nil x []) (by simp)
      simp only [List.length_append, List.length_singleton, List.append_assoc, List.singleton_append] at ih'
      have hpiece : ((cut ++ (piece ++ x :: rest)).take (cut.length + piece.length)).drop cut.length = piece := by
        simp [List.take_append]
      rw [Fault.slice_eq fault (by simp), splitBefore_append_of_opens hne htail hx]
      simp [ih', hpiece]
    case isFalse hx =>
      have htail' : ∀ y ∈ (piece ++ [x]).tail, p y = false := by
        rw [List.tail_append_of_ne_nil hne, List.forall_mem_append]
        exact ⟨htail, by simpa using hx⟩
      simpa [Nat.add_assoc] using ih cut (by simp) htail'

theorem splitBefore_eq [LawfulMonad m] (p : α → Bool) (xs : List α) :
    splitBefore fault p xs = pure (TokiPona.splitBefore p xs) := by
  cases xs with
  | nil => rfl
  | cons x xs => exact cutBefore_eq fault [] (List.cons_ne_nil x []) (by simp) xs

end

def bare (w : String) : m String := if Word.isPreposition w then fault.textFrom w 1 else pure w

theorem bare_eq (w : String) : bare fault w = pure (Word.bare w) := by
  unfold bare
  split
  case isTrue hw =>
    have htext := fault.textFrom_append "~" (Word.bare w)
    rwa [tilde_bare hw] at htext
  case isFalse hw => rw [bare_of_isPreposition_eq_false (by simpa using hw)]

def longestTail (words : List String) (head : String) (i : Nat) : Nat → m (List String)
  | 0 => pure []
  | n + 1 => do
    let tail ← fault.slice words (i + 1) (i + 1 + (n + 1))
    match lex.join head tail with
    | .ok _ => pure tail
    | .error _ => longestTail words head i n

theorem longestTail_eq [LawfulMonad m] (before : List String) (head : String) {rest : List String} {n : Nat}
    (hn : n ≤ rest.length) :
    longestTail fault lex (before ++ head :: rest) head before.length n =
      pure (rest.take (lex.longestTail head rest n)) := by
  induction n with
  | zero => rfl
  | succ n ih =>
    have htail : ((before ++ head :: rest).take (before.length + 1 + (n + 1))).drop (before.length + 1) =
        rest.take (n + 1) := by
      rw [List.append_cons, List.drop_take, List.drop_left' (by simp), Nat.add_sub_cancel_left]
    have hrange : before.length + 1 ≤ before.length + 1 + (n + 1) ∧
        before.length + 1 + (n + 1) ≤ (before ++ head :: rest).length := by
      simp only [List.length_append, List.length_cons]
      omega
    rw [longestTail, Fault.slice_eq fault hrange, pure_bind, htail, Lexicon.longestTail]
    cases lex.join head (rest.take (n + 1)) with
    | ok compound => rfl
    | error e => exact ih (by omega)

def lexemesFrom (words : List String) (i : Nat) : m (List Lexeme) :=
  if i < words.length then do
    let head ← fault.item words i
    let tail ← longestTail fault lex words head i (words.length - (i + 1))
    let others ← lexemesFrom words (i + 1 + tail.length)
    pure ((if tail.isEmpty then .word head else .compound head tail) :: others)
  else pure []
termination_by words.length - i

theorem lexemesFrom_append [LawfulMonad m] (before : List String) {w : String} {rest tail after : List String}
    (htail : rest.take (lex.longestTail w rest rest.length) = tail) (hrest : tail ++ after = rest) :
    lexemesFrom fault lex (before ++ w :: rest) before.length =
      ((if tail.isEmpty then .word w else .compound w tail) :: ·) <$>
        lexemesFrom fault lex (before ++ w :: tail ++ after) (before ++ w :: tail).length := by
  have hw : (before ++ w :: rest)[before.length]? = some w := by simp
  have hlength : (before ++ w :: rest).length - (before.length + 1) = rest.length := by
    simp only [List.length_append, List.length_cons]
    omega
  rw [lexemesFrom, if_pos (by simp), Fault.item_eq fault hw, pure_bind, hlength,
    longestTail_eq fault lex before w (Nat.le_refl _), pure_bind, htail]
  simp [← hrest, Nat.add_right_comm, Nat.add_assoc]

theorem lexemesFrom_eq [LawfulMonad m] (before rest : List String) :
    lexemesFrom fault lex (before ++ rest) before.length = pure (lex.lexemes rest) := by
  fun_induction Lexicon.lexemes lex rest generalizing before with
  | case1 => simp [lexemesFrom]
  | case2 w rest hlongest ih =>
    have htail : rest.take (lex.longestTail w rest rest.length) = [] := by simp [hlongest]
    rw [lexemesFrom_append fault lex before htail rfl, ih, map_pure]
    rfl
  | case3 w rest n hlongest ih =>
    have htail : rest.take (lex.longestTail w rest rest.length) = rest.take (n + 1) := by rw [hlongest]
    rw [lexemesFrom_append fault lex before htail (List.take_append_drop _ _), ih, map_pure]
    cases rest with
    | nil => simp [Lexicon.longestTail] at hlongest
    | cons v rest => rfl

def lexemes (words : List String) : m (List Lexeme) := lexemesFrom fault lex words 0

theorem lexemes_eq [LawfulMonad m] (words : List String) : lexemes fault lex words = pure (lex.lexemes words) :=
  lexemesFrom_eq fault lex [] words

end

end Checked

end Reading

end TokiPona
