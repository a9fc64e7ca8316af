import TokiPona.Dictionary.Standard
import TokiPona.Proofs.Fault
import TokiPona.Proofs.Guards

namespace TokiPona

namespace Reading

namespace Checked

section

variable {m : Type → Type} [Monad m] (fault : Fault m) (lex : Lexicon)

/-- What is found first as a window of two moves along the tokens. -/
def findPair? {α : Type} (find? : Token × Token → Option α) (tokens : List Token) : m (Option α) := do
  let pairs ← windows fault tokens
  pure (pairs.findSome? find?)

theorem findPair?_eq [LawfulMonad m] {α : Type} (find? : Token × Token → Option α) (tokens : List Token) :
    findPair? fault find? tokens = pure ((neighbours tokens).findSome? find?) := by
  rw [findPair?, windows_eq, pure_bind, neighbours]

def doubled? : List Token → m (Option Particle) :=
  findPair? fault fun (s, t) ↦ do
    let p ← structural? s
    let q ← structural? t
    if p = q then some p else none

theorem doubled?_eq [LawfulMonad m] (tokens : List Token) :
    doubled? fault tokens = pure (Reading.doubled? tokens) := findPair?_eq fault _ tokens

def afterO? : List Token → m (Option Particle) :=
  findPair? fault fun (s, t) ↦ if s.is .o then structural? t else none

theorem afterO?_eq [LawfulMonad m] (tokens : List Token) : afterO? fault tokens = pure (Reading.afterO? tokens) :=
  findPair?_eq fault _ tokens

def clash? (dialect : Dialect) : List Token → m (Option (Particle × Particle)) :=
  findPair? fault fun (s, t) ↦ do
    let p ← structural? s
    let q ← structural? t
    if p = .li && q = .pi && dialect.liPi then none else some (p, q)

theorem clash?_eq [LawfulMonad m] (dialect : Dialect) (tokens : List Token) :
    clash? fault dialect tokens = pure (Reading.clash? dialect tokens) := findPair?_eq fault _ tokens

def adjacencyError? (dialect : Dialect) (text : String) (tokens : List Token) : m (Option ParseError) := do
  match ← doubled? fault tokens with
  | some p => pure (some (.doubleParticle p text))
  | none =>
    match ← afterO? fault tokens with
    | some p => pure (some (.illegalPair .o p text))
    | none =>
      let clash ← clash? fault dialect tokens
      pure (clash.map fun (p, q) ↦ .illegalPair p q text)

theorem adjacencyError?_eq [LawfulMonad m] (dialect : Dialect) (text : String) (tokens : List Token) :
    adjacencyError? fault dialect text tokens = pure (Reading.adjacencyError? dialect text tokens) := by
  simp only [adjacencyError?, Reading.adjacencyError?, doubled?_eq, afterO?_eq, clash?_eq, pure_bind]
  cases Reading.doubled? tokens <;> cases Reading.afterO? tokens <;> rfl

def splitAtHead (isModal : Lexeme → Bool) (lexemes : List Lexeme) : m (Option VerbPhrase) :=
  match lexemes.findIdx? (!isModal ·) with
  | none => pure none
  | some i => do
    let modals ← fault.slice lexemes 0 i
    let head ← fault.item lexemes i
    let adverbs ← fault.suffix lexemes (i + 1)
    pure (some ⟨modals, some head, adverbs⟩)

theorem splitAtHead_eq [LawfulMonad m] (isModal : Lexeme → Bool) (lexemes : List Lexeme) :
    splitAtHead fault isModal lexemes = pure (Reading.splitAtHead isModal lexemes) := by
  rw [splitAtHead, Reading.splitAtHead, List.takeWhile_eq_take_findIdx_not, List.dropWhile_eq_drop_findIdx_not]
  cases hi : lexemes.findIdx? (!isModal ·) with
  | none =>
    rw [List.findIdx?_eq_none_iff_findIdx_eq] at hi
    simp [hi]
  | some i =>
    obtain ⟨hlt, hi⟩ := List.findIdx?_eq_some_iff_findIdx_eq.1 hi
    simp only [hi, List.drop_eq_getElem_cons hlt, Fault.slice_eq fault ⟨Nat.zero_le i, hlt.le⟩,
      Fault.item_eq fault (List.getElem?_eq_getElem hlt), Fault.suffix_eq fault hlt, pure_bind, List.drop_zero]

def verbPhrase (words : List String) : m VerbPhrase := do
  let lexemes ← lexemes fault lex words
  match ← splitAtHead fault (isModalLexeme lex) lexemes with
  | some phrase => pure phrase
  | none =>
    let phrase ← splitAtHead fault (fun _ ↦ false) lexemes
    pure (phrase.getD {})

theorem verbPhrase_eq [LawfulMonad m] (words : List String) :
    verbPhrase fault lex words = pure (Reading.verbPhrase lex words) := by
  simp only [verbPhrase, Reading.verbPhrase, lexemes_eq, splitAtHead_eq, pure_bind]
  cases Reading.splitAtHead (isModalLexeme lex) (lex.lexemes words) <;> rfl

def promoted? : List (List String) → m (Option (String × List (List String)))
  | [] => pure none
  | [w] :: rest => do
    let verb ← bare fault w
    pure (some (verb, rest))
  | piece :: rest => do
    let found ← promoted? rest
    pure (found.map fun (w, rest) ↦ (w, piece :: rest))

theorem promoted?_eq [LawfulMonad m] (pieces : List (List String)) :
    promoted? fault pieces = pure (Reading.promoted? pieces) := by
  fun_induction Reading.promoted? pieces with
  | case1 => rfl
  | case2 w rest => simp [promoted?, bare_eq]
  | case3 piece rest hpiece ih => simp [promoted?, ih]

def settleVerb (kind : Option PredicateKind) (pieces : List (List String)) :
    m (PredicateKind × List (List String)) := do
  match kind with
  | some kind => pure (kind, pieces)
  | none =>
    match ← promoted? fault pieces with
    | some (w, rest) => pure (.verb { head := some (.word w) }, rest)
    | none => pure (.verb {}, pieces)

theorem settleVerb_eq [LawfulMonad m] (kind : Option PredicateKind) (pieces : List (List String)) :
    settleVerb fault kind pieces = pure (Reading.settleVerb kind pieces) := by
  cases kind with
  | some kind => rfl
  | none =>
    simp only [settleVerb, Reading.settleVerb, promoted?_eq, pure_bind]
    cases Reading.promoted? pieces <;> rfl

def hasInnerO (words : List String) : m Bool :=
  if 2 < words.length then do
    let last ← fault.fromEnd words 1
    let inner ← fault.slice words 1 last
    pure (inner.any isO)
  else pure false

theorem hasInnerO_eq [LawfulMonad m] (words : List String) :
    hasInnerO fault words = pure (Reading.hasInnerO words) := by
  rw [hasInnerO, Reading.hasInnerO]
  split
  case isTrue h =>
    rw [Fault.fromEnd_eq fault (by omega), pure_bind, Fault.slice_eq fault (by omega), pure_bind, List.dropLast_eq_take,
      List.length_drop, ← List.drop_take]
  case isFalse h =>
    rcases words with _ | ⟨u, _ | ⟨v, _ | ⟨w, rest⟩⟩⟩
    · rfl
    · rfl
    · rfl
    · simp at h

def takeTag (words : List String) : m (Bool × List String) :=
  if 2 < words.length then do
    let i ← fault.fromEnd words 2
    let v ← fault.item words i
    if v == Particle.anu.word then do
      let j ← fault.fromEnd words 1
      let w ← fault.item words j
      if w == "seme" then pure (true, words.take i) else pure (false, words)
    else pure (false, words)
  else pure (false, words)

theorem takeTag_eq [LawfulMonad m] (words : List String) : takeTag fault words = pure (Reading.takeTag words) := by
  rw [takeTag, Reading.takeTag]
  split
  case isTrue h =>
    obtain ⟨w, v, u, rest, hrev⟩ : ∃ w v u rest, words.reverse = w :: v :: u :: rest := by
      rw [← List.length_reverse] at h
      generalize words.reverse = reversed at h
      rcases reversed with _ | ⟨w, _ | ⟨v, _ | ⟨u, rest⟩⟩⟩
      · simp at h
      · simp at h
      · simp at h
      · exact ⟨w, v, u, rest, rfl⟩
    obtain rfl : words = (u :: rest).reverse ++ [v, w] := by
      rw [← List.reverse_reverse words, hrev]
      simp
    have hv : ((u :: rest).reverse ++ [v, w])[rest.length + 1]? = some v := by
      rw [List.getElem?_append_right (by simp)]
      simp
    have hw : ((u :: rest).reverse ++ [v, w])[rest.length + 2]? = some w := by
      rw [List.getElem?_append_right (by simp)]
      simp
    rw [Fault.fromEnd_eq fault (by simp), Fault.fromEnd_eq fault (by simp), hrev]
    have hlength : ((u :: rest).reverse ++ [v, w]).length = rest.length + 3 := by simp
    simp only [hlength, Nat.reduceSubDiff, Fault.item_eq fault hv, Fault.item_eq fault hw, pure_bind]
    rw [List.take_left' (by simp)]
    cases v == Particle.anu.word <;> cases w == "seme" <;> rfl
  case isFalse h =>
    rcases words with _ | ⟨u, _ | ⟨v, _ | ⟨w, rest⟩⟩⟩
    · rfl
    · rfl
    · rfl
    · simp at h

def withImpliedLi (words : List String) : m (List String) :=
  if Particle.li.isIn words || Particle.o.isIn words then pure words
  else do
    let start := if (words.head?.bind Particle.ofWord?).any Particle.isConjunction then 1 else 0
    let rest ← fault.suffix words (min start words.length)
    pure (words.take start ++ writeLi lex rest)

theorem withImpliedLi_eq [LawfulMonad m] (words : List String) :
    withImpliedLi fault lex words = pure (Reading.withImpliedLi lex words) := by
  unfold withImpliedLi Reading.withImpliedLi
  split
  · rfl
  dsimp only
  rw [Fault.suffix_eq fault (Nat.min_le_right _ _), pure_bind]
  cases words with
  | nil => rfl
  | cons w rest => cases hw : (Particle.ofWord? w).any Particle.isConjunction <;> simp [hw]

end

variable {m : Type → Type} [Monad m] [MonadExceptOf ParseError m] [Recall m] (fault : Fault m) (lex : Lexicon)

def headed (words : List String) (prepositions : List PrepPhrase) : m Phrase := do
  match ← lexemes fault lex words with
  | head :: modifiers => pure ⟨head, modifiers, prepositions⟩
  | [] => throw (.emptyArgument .phrase)

omit [Recall m] in
theorem headed_eq [LawfulMonad m] (words : List String) (prepositions : List PrepPhrase) :
    headed fault lex words prepositions = Reading.headed lex words prepositions := by
  cases hlexemes : lex.lexemes words <;> simp [headed, Reading.headed, lexemes_eq, hlexemes]

def phraseOver (read : List (List String) → m (List PrepPhrase)) (words : List String) : m Phrase :=
  if words.isEmpty then throw (.emptyArgument .phrase)
  else Recall.phrase (Word.spaced words) do
    refuseParticles words
    let pieces ← splitBefore fault Word.isPreposition words
    let first ← fault.item pieces 0
    let w ← fault.item first 0
    if Word.isPreposition w then throw (.emptySpan .phraseHead (Word.spaced words))
    else do
      let rest ← fault.suffix pieces 1
      let prepositions ← read rest
      headed fault lex first prepositions

theorem phraseOver_eq [LawfulMonad m] {w : String} {ws body : List String} {pieces : List (List String)}
    (hsplit : TokiPona.splitBefore Word.isPreposition (w :: ws) = (w :: body) :: pieces)
    (read : List (List String) → m (List PrepPhrase)) :
    phraseOver fault lex read (w :: ws) = Recall.phrase (Word.spaced (w :: ws)) (do
      refuseParticles (w :: ws)
      if Word.isPreposition w then throw (.emptySpan .phraseHead (Word.spaced (w :: ws)))
      else read pieces >>= Reading.headed lex (w :: body)) := by
  simp [phraseOver, splitBefore_eq, hsplit, headed_eq]

/-- A run without prepositions has no pieces for them to open. -/
def plainPhrase (words : List String) : m Phrase :=
  phraseOver fault lex (fun pieces ↦ if pieces.isEmpty then pure [] else fault (List PrepPhrase)) words

theorem plainPhrase_eq [LawfulMonad m] {words : List String} (h : NoPreposition words) :
    plainPhrase fault lex words = Reading.plainPhrase lex words := by
  cases words with
  | nil => rfl
  | cons w ws =>
    rw [plainPhrase, phraseOver_eq fault lex (h.splitBefore_eq (by simp)), Reading.plainPhrase]
    simp [h w]

def complement : List String → m (Option Chain)
  | [] => pure none
  | words => some <$> coordinationOver (plainPhrase fault lex) words

theorem complement_eq [LawfulMonad m] {words : List String} (h : NoPreposition words) :
    complement fault lex words = Reading.complement lex words := by
  cases words with
  | nil => rfl
  | cons w ws =>
    rw [complement, Reading.complement,
      coordinationOver_congr (fun run hrun ↦ plainPhrase_eq fault lex (fun v hv ↦ h v (hrun v hv)))]
    all_goals simp

def prepPhrases : List (List String) → m (List PrepPhrase)
  | [] => pure []
  | [] :: rest => prepPhrases rest
  | (w :: words) :: rest =>
    if Word.isPreposition w then do
      let governed ← complement fault lex words
      let preposition ← bare fault w
      let phrases ← prepPhrases rest
      pure (⟨preposition, governed⟩ :: phrases)
    else prepPhrases rest

theorem prepPhrases_eq [LawfulMonad m] {pieces : List (List String)} (h : ∀ piece ∈ pieces, NoPreposition piece.tail) :
    prepPhrases fault lex pieces = Reading.prepPhrases lex pieces := by
  induction pieces with
  | nil => rfl
  | cons piece pieces ih =>
    obtain ⟨hpiece, hpieces⟩ := List.forall_mem_cons.1 h
    cases piece with
    | nil => exact ih hpieces
    | cons w words =>
      have hcomplement : complement fault lex words = Reading.complement lex words := complement_eq fault lex hpiece
      simp [prepPhrases, Reading.prepPhrases, hcomplement, bare_eq, ih hpieces]

theorem noPreposition_tail {words first : List String} {pieces : List (List String)}
    (h : TokiPona.splitBefore Word.isPreposition words = first :: pieces) :
    ∀ piece ∈ first :: pieces, NoPreposition piece.tail := by
  intro piece hpiece
  exact not_of_mem_tail_splitBefore (h ▸ hpiece)

def phrase (words : List String) : m Phrase := phraseOver fault lex (prepPhrases fault lex) words

theorem phrase_eq [LawfulMonad m] (words : List String) : phrase fault lex words = Reading.phrase lex words := by
  cases words with
  | nil => rfl
  | cons w ws =>
    obtain ⟨body, pieces, hsplit⟩ := splitBefore_cons Word.isPreposition w ws
    have hpieces := (List.forall_mem_cons.1 (noPreposition_tail hsplit)).2
    rw [phrase, phraseOver_eq fault lex hsplit, prepPhrases_eq fault lex hpieces, Reading.phrase, hsplit]
    rfl

def chain (words : List String) : m Chain := piChain (phrase fault lex) words

theorem chain_eq [LawfulMonad m] (words : List String) : chain fault lex words = Reading.chain lex words :=
  piChain_congr (fun run _ ↦ phrase_eq fault lex run)

def coordination (words : List String) : m Chain := coordinationOver (phrase fault lex) words

theorem coordination_eq [LawfulMonad m] (words : List String) :
    coordination fault lex words = Reading.coordination lex words :=
  coordinationOver_congr (fun run _ ↦ phrase_eq fault lex run)

def nominal (words : List String) : m Chain := do
  let chain ← chain fault lex words
  chainOfLinks .en [chain]

theorem nominal_eq [LawfulMonad m] (words : List String) : nominal fault lex words = Reading.nominal lex words := by
  rw [nominal, Reading.nominal, chain_eq]

def predicateKind : List String → m (Option PredicateKind)
  | [] => pure none
  | w :: rest =>
    if isPi w then (some ∘ .pi) <$> nominal fault lex rest
    else if Particle.pi.isIn (w :: rest) then (some ∘ .nominal) <$> nominal fault lex (w :: rest)
    else (some ∘ .verb) <$> verbPhrase fault lex (w :: rest)

theorem predicateKind_eq [LawfulMonad m] (words : List String) :
    predicateKind fault lex words = Reading.predicateKind lex words := by
  cases words with
  | nil => rfl
  | cons w rest => simp [predicateKind, Reading.predicateKind, nominal_eq, verbPhrase_eq]

def object (clause part : List String) : m Chain :=
  if part.length < 2 then throw (.degenerateObject (Word.spaced clause))
  else do
    let words ← fault.suffix part 1
    chain fault lex words

theorem object_eq [LawfulMonad m] (clause part : List String) :
    object fault lex clause part = Reading.object lex clause part := by
  match part with
  | [] => rfl
  | [w] => rfl
  | v :: w :: words => simp [object, Reading.object, chain_eq]

def transitive (clause : List String) : m Predicate := do
  let pieces ← splitBefore fault isE clause
  match pieces with
  | [] => throw (.emptyArgument .predicate)
  | verbPart :: objectParts => do
    let particle ← governor clause
    let verb ← fault.suffix verbPart 1
    let kind ← predicateKind fault lex verb
    let lastPieces ← splitBefore fault Word.isPreposition (objectParts.getLast?.getD [])
    match lastPieces with
    | [] => throw (.degenerateObject (Word.spaced clause))
    | lastObject :: trailing =>
      let objects ← (objectParts.dropLast ++ [lastObject]).mapM (object fault lex clause)
      let prepositions ← prepPhrases fault lex trailing
      let objects ← chainOfLinks .e objects
      pure ⟨particle, kind.getD (.verb {}), some objects, prepositions⟩

theorem transitive_eq [LawfulMonad m] (clause : List String) :
    transitive fault lex clause = Reading.transitive lex clause := by
  rw [transitive, Reading.transitive, splitBefore_eq, pure_bind]
  cases hsplit : TokiPona.splitBefore isE clause with
  | nil => rfl
  | cons verbPart objectParts =>
    obtain ⟨v, verb, rfl⟩ := List.exists_cons_of_ne_nil (splitBefore_eq_cons hsplit).1
    simp only [Fault.suffix_one, pure_bind, predicateKind_eq, splitBefore_eq, List.drop_succ_cons, List.drop_zero]
    cases hlast : TokiPona.splitBefore Word.isPreposition (objectParts.getLast?.getD []) with
    | nil => rfl
    | cons lastObject trailing =>
      have hobject : object fault lex clause = Reading.object lex clause := funext (object_eq fault lex clause)
      have htrailing := prepPhrases_eq fault lex (List.forall_mem_cons.1 (noPreposition_tail hlast)).2
      simp only [hobject, htrailing]

def intransitive (clause : List String) : m Predicate := do
  let pieces ← splitBefore fault Word.isPreposition clause
  match pieces with
  | [] => throw (.emptyArgument .predicate)
  | verbPart :: pieces => do
    let particle ← governor clause
    let verb ← fault.suffix verbPart 1
    let kind ← predicateKind fault lex verb
    let (kind, pieces) ← settleVerb fault kind pieces
    let prepositions ← prepPhrases fault lex pieces
    pure ⟨particle, kind, none, prepositions⟩

theorem intransitive_eq [LawfulMonad m] (clause : List String) :
    intransitive fault lex clause = Reading.intransitive lex clause := by
  rw [intransitive, Reading.intransitive, splitBefore_eq, pure_bind]
  cases hsplit : TokiPona.splitBefore Word.isPreposition clause with
  | nil => rfl
  | cons verbPart pieces =>
    obtain ⟨v, verb, rfl⟩ := List.exists_cons_of_ne_nil (splitBefore_eq_cons hsplit).1
    simp only [Fault.suffix_one, pure_bind, predicateKind_eq, settleVerb_eq, List.drop_succ_cons, List.drop_zero]
    refine bind_congr (fun particle ↦ bind_congr (fun kind ↦ ?_))
    have hpieces := (List.forall_mem_cons.1 (noPreposition_tail hsplit)).2
    rw [prepPhrases_eq fault lex (fun piece hpiece ↦ hpieces piece (mem_of_mem_settleVerb piece hpiece))]

def predicate (clause : List String) : m Predicate :=
  if clause.length < 2 then throw (.emptySpan .predicate (Word.spaced clause))
  else if Particle.e.isIn clause then transitive fault lex clause
  else intransitive fault lex clause

theorem predicate_eq [LawfulMonad m] (clause : List String) :
    predicate fault lex clause = Reading.predicate lex clause := by
  rw [predicate, Reading.predicate, transitive_eq, intransitive_eq]

def addressees (runs : List (List String)) : m (List Chain) :=
  (runs.filter (!·.isEmpty)).mapM (coordination fault lex)

theorem addressees_eq [LawfulMonad m] (runs : List (List String)) :
    addressees fault lex runs = Reading.addressees lex runs := by
  rw [addressees, Reading.addressees, funext (coordination_eq fault lex)]

/-- The place of the first `o o` that something comes before. -/
def doubleO? (words : List String) : m (Option Nat) := do
  let pairs ← windows fault words
  pure ((pairs.findIdx? fun (v, w) ↦ isO v && isO w).filter (0 < ·))

theorem splitDoubleO_eq (words : List String) : splitDoubleO words =
    ((words.zip (words.drop 1)).findIdx? fun (v, w) ↦ isO v && isO w).map
      (fun i ↦ (words.take i, words.drop (i + 2))) := by
  fun_induction splitDoubleO words with
  | case1 v w rest h => simp [List.findIdx?_cons, h]
  | case2 v w rest h ih => simp [List.findIdx?_cons, h, ih, Function.comp_def]
  | case3 words h =>
    rcases words with _ | ⟨v, _ | ⟨w, rest⟩⟩
    · rfl
    · rfl
    · exact absurd rfl (h v w rest)

def openDoubleO (words : List String) (i : Nat) : m Opening := do
  let before ← fault.slice words 0 i
  let vocatives ← addressees fault lex (splitDropping isO before)
  if words.length = i + 2 then
    match vocatives with
    | [addressee] => pure (.call addressee)
    | _ => throw (.emptySpan .imperative (Word.spaced words))
  else do
    -- The two particles themselves are looked at for their places in the text.
    let _ ← fault.item words i
    let _ ← fault.item words (i + 1)
    let after ← fault.suffix words (i + 2)
    pure (.clause ⟨vocatives, .imperative, true, placeholderSubject ++ Particle.o.word :: after⟩)

theorem openDoubleO_eq [LawfulMonad m] {words : List String} {i : Nat} (h : i + 2 ≤ words.length) :
    openDoubleO fault lex words i = Reading.openDoubleO lex words (words.take i) (words.drop (i + 2)) := by
  rw [openDoubleO, Reading.openDoubleO, Fault.slice_eq fault ⟨Nat.zero_le i, by omega⟩, pure_bind, addressees_eq]
  refine bind_congr (fun vocatives ↦ ?_)
  by_cases hlength : words.length = i + 2
  · rw [if_pos hlength, List.drop_eq_nil_of_le hlength.le]
    rcases vocatives with _ | ⟨addressee, _ | ⟨second, others⟩⟩ <;> rfl
  · have hi : i < words.length := by omega
    have hj : i + 1 < words.length := by omega
    have hafter : words.drop (i + 2) ≠ [] := by
      rw [List.ne_nil_iff_length_pos, List.length_drop]
      omega
    obtain ⟨w, after, hafter⟩ := List.exists_cons_of_ne_nil hafter
    rw [if_neg hlength, Fault.item_eq fault (List.getElem?_eq_getElem hi), pure_bind,
      Fault.item_eq fault (List.getElem?_eq_getElem hj), pure_bind, Fault.suffix_eq fault h, pure_bind, hafter]

def openCalls (words : List String) : m Opening := do
  let runs := splitDropping isO words
  let last ← fault.fromEnd runs 1
  let calls ← fault.slice runs 0 last
  let vocatives ← addressees fault lex (calls.takeWhile fun run ↦ !Particle.li.isIn run && !Particle.e.isIn run)
  let rest := afterLastO words
  match (rest.head?.bind Particle.ofWord?).filter Particle.isStructural with
  | some p => throw (.illegalPair .o p (Word.spaced words))
  | none => pure (.clause { vocatives, words := rest })

theorem openCalls_eq [LawfulMonad m] (words : List String) :
    openCalls fault lex words = Reading.openCalls lex words := by
  have hlength : 1 ≤ (splitDropping isO words).length :=
    List.length_pos_iff.2 (splitDropping_ne_nil isO words)
  cases hfirst : ((afterLastO words).head?.bind Particle.ofWord?).filter Particle.isStructural <;>
    simp only [openCalls, Reading.openCalls, Fault.fromEnd_eq fault hlength, pure_bind, addressees_eq, hfirst,
      List.dropLast_eq_take, Fault.slice_eq fault ⟨Nat.zero_le _, Nat.sub_le _ 1⟩, List.drop_zero]

def openClause (words : List String) : m Opening := do
  match ← doubleO? fault words with
  | some i => openDoubleO fault lex words i
  | none => do
    let inner ← hasInnerO fault words
    if inner && Particle.li.isIn words then openCalls fault lex words
    else pure (.clause { words })

theorem openClause_eq [LawfulMonad m] (words : List String) :
    openClause fault lex words = Reading.openClause lex words := by
  rw [openClause, Reading.openClause, splitDoubleO_eq, doubleO?, windows_eq, pure_bind, pure_bind]
  cases hi : (words.zip (words.drop 1)).findIdx? fun (v, w) ↦ isO v && isO w with
  | none => simp [hasInnerO_eq, openCalls_eq]
  | some i =>
    have hlength : i + 2 ≤ words.length := by
      have hlt := (List.findIdx?_eq_some_iff_findIdx_eq.1 hi).1
      rw [List.length_zip, List.length_drop] at hlt
      omega
    cases i with
    | zero => simp [Option.filter, hasInnerO_eq, openCalls_eq]
    | succ i =>
      obtain ⟨w, rest, rfl⟩ := List.exists_cons_of_ne_nil (List.ne_nil_of_length_pos (by omega : 0 < words.length))
      exact openDoubleO_eq fault lex hlength

def predication (whole : List String) (subject : Option Chain) (parts : List (List String)) : m Body :=
  if parts.isEmpty then throw (.missingPredicate (Word.spaced whole))
  else .predication subject <$> parts.mapM (predicate fault lex)

theorem predication_eq [LawfulMonad m] (whole : List String) (subject : Option Chain) (parts : List (List String)) :
    predication fault lex whole subject parts = Reading.predication lex whole subject parts := by
  rw [predication, Reading.predication, funext (predicate_eq fault lex)]

def statement (whole : List String) (parts : List (List String)) : m Body := do
  let first ← fault.item parts 0
  let w ← fault.item first 0
  if isO w then predication fault lex whole none parts
  else do
    let subject ← coordination fault lex first
    let rest ← fault.suffix parts 1
    predication fault lex whole (some subject) rest

theorem statement_eq [LawfulMonad m] (whole : List String) (w : String) (ws : List String) (rest : List (List String)) :
    statement fault lex whole ((w :: ws) :: rest) = Reading.statement lex whole ((w :: ws) :: rest) := by
  cases hw : isO w <;> simp [statement, Reading.statement, predication_eq, coordination_eq, hw]

def body (whole : List String) (parts : List (List String)) : m Body :=
  match parts with
  | [only] =>
    match exclamation lex only with
    | some phrase => pure (.exclamation phrase)
    | none => statement fault lex whole parts
  | [addressee, last] =>
    if last.length = 1 then do
      let w ← fault.item last 0
      if isO w then .call <$> coordination fault lex addressee else statement fault lex whole parts
    else statement fault lex whole parts
  | _ => statement fault lex whole parts

theorem body_eq [LawfulMonad m] (whole : List String) (w : String) (ws : List String) (rest : List (List String)) :
    body fault lex whole ((w :: ws) :: rest) = Reading.body lex whole ((w :: ws) :: rest) := by
  have hstatement := statement_eq fault lex whole w ws
  match rest with
  | [] => cases hphrase : exclamation lex (w :: ws) <;> simp [body, Reading.body, hstatement, hphrase]
  | [[]] => simp [body, Reading.body, hstatement]
  | [[v]] => simp [body, Reading.body, hstatement, coordination_eq]
  | [_ :: _ :: _] => simp [body, Reading.body, hstatement]
  | _ :: _ :: _ => simp [body, Reading.body, hstatement]

def openedClause (whole : List String) (mark : Option Punctuation) (clause : OpenedClause) : m Sentence := do
  let (conjunction, words) := takeConjunction clause.words
  let (tagQuestion, words) ← takeTag fault words
  if words.getLast?.any isLi then throw (.trailingLi (Word.spaced whole))
  else if Particle.la.isIn words then throw (.leftoverLa (Word.spaced whole))
  else
    let (mood, words) := takeMood clause.mood words
    if words.isEmpty then throw (.emptySpan .sentence (Word.spaced whole))
    else do
      let parts ← splitBefore fault (fun w ↦ isLi w || isO w) words
      match ← body fault lex whole parts with
      | .exclamation phrase => pure (.exclamation phrase mark)
      | .call addressee => pure (.vocative addressee mark)
      | .predication subject predicates =>
        pure (.simple
          { subject, predicates, punctuation := mark, conjunction, vocatives := clause.vocatives, tagQuestion,
            mood, placeholder := clause.placeholder })

theorem openedClause_eq [LawfulMonad m] (whole : List String) (mark : Option Punctuation) (rest : OpenedClause) :
    openedClause fault lex whole mark rest = Reading.openedClause lex whole mark rest := by
  simp only [openedClause, Reading.openedClause, takeTag_eq, pure_bind, splitBefore_eq]
  split
  · rfl
  split
  · rfl
  split
  · rfl
  case isFalse hne =>
    obtain ⟨w, rest, hwords⟩ := List.exists_cons_of_ne_nil (by simpa using hne)
    obtain ⟨ws, parts, hsplit⟩ := splitBefore_cons (fun w ↦ isLi w || isO w) w rest
    rw [hwords, hsplit]
    refine (congrArg (· >>= _) (body_eq fault lex whole w ws parts)).trans (bind_congr (fun b ↦ ?_))
    cases b <;> rfl

def clause (words : List String) (mark : Option Punctuation) : m Sentence := do
  match ← openClause fault lex words with
  | .call addressee => pure (.vocative addressee mark)
  | .clause rest => openedClause fault lex words mark rest

theorem clause_eq [LawfulMonad m] (words : List String) (mark : Option Punctuation) :
    clause fault lex words mark = Reading.clause lex words mark := by
  rw [clause, Reading.clause, openClause_eq]
  refine bind_congr (fun o ↦ ?_)
  cases o with
  | call addressee => rfl
  | clause rest => exact openedClause_eq fault lex words mark rest

def context (words : List String) : m Context := do
  let w ← fault.item words 0
  if Word.isPreposition w then do
    let pieces ← splitBefore fault Word.isPreposition words
    .prepositional <$> prepPhrases fault lex pieces
  else .chain <$> coordination fault lex words

theorem context_eq [LawfulMonad m] {words : List String} (hne : words ≠ []) :
    context fault lex words = Reading.context lex words := by
  obtain ⟨w, rest, rfl⟩ := List.exists_cons_of_ne_nil hne
  obtain ⟨body, pieces, hsplit⟩ := splitBefore_cons Word.isPreposition w rest
  simp [context, Reading.context, splitBefore_eq, hsplit, prepPhrases_eq fault lex (noPreposition_tail hsplit),
    coordination_eq]

def attach (shown : String) (words : List String) :
    List Sentence × Sentence → m (List Sentence × Sentence)
  | (preconditions, conclusion) =>
    if words.isEmpty then throw (.emptySpan .laClause shown)
    else if Particle.li.isIn words then do
      let precondition ← clause fault lex words none
      pure (precondition :: preconditions, conclusion)
    else do
      let found ← context fault lex words
      match preconditions with
      | nearest :: others =>
        let nearest ← withContext found nearest
        pure (nearest :: others, conclusion)
      | [] =>
        let conclusion ← withContext found conclusion
        pure ([], conclusion)

theorem attach_eq [LawfulMonad m] (shown : String) (words : List String) (read : List Sentence × Sentence) :
    attach fault lex shown words read = Reading.attach lex shown words read := by
  obtain ⟨preconditions, conclusion⟩ := read
  by_cases hne : words = []
  · subst hne
    rfl
  · have hcontext := context_eq fault lex hne
    cases preconditions <;> simp only [attach, Reading.attach, clause_eq, hcontext]

def clauses (mark : Punctuation) (shown : String) : List (List String) → m (List Sentence × Sentence)
  | [] => throw .emptyInput
  | [conclusion] => do
    let conclusion ← clause fault lex conclusion (some mark)
    pure ([], conclusion)
  | first :: rest => do
    let read ← clauses mark shown rest
    attach fault lex shown first read

theorem clauses_eq [LawfulMonad m] (mark : Punctuation) (shown : String) (parts : List (List String)) :
    clauses fault lex mark shown parts = Reading.clauses lex mark shown parts := by
  induction parts with
  | nil => rfl
  | cons first rest ih =>
    cases rest with
    | nil => rw [clauses, Reading.clauses, clause_eq]
    | cons second rest =>
      rw [clauses, clauses_cons_cons, ih, funext (attach_eq fault lex shown first)]
      simp

def sentence (words : List String) (mark : Punctuation) (shown : String) : m Sentence := do
  let parts ← splitBefore fault isLa words
  match parts.getLast?.filter fun last ↦ last.length = 1 && 1 < parts.length with
  | some last => do
    let _ ← fault.item last 0
    if 2 < parts.length then throw (.headless shown)
    else do
      let first ← fault.item parts 0
      (.fragment · (some mark)) <$> coordination fault lex first
  | none => do
    let runs ← parts.mapM fun part ↦ withImpliedLi fault lex (stripLeading isLa part)
    let (preconditions, conclusion) ← clauses fault lex mark shown runs
    if preconditions.isEmpty then pure conclusion else conditional preconditions conclusion

theorem sentence_eq [LawfulMonad m] (words : List String) (mark : Punctuation) (shown : String) :
    sentence fault lex words mark shown = Reading.sentence lex words mark shown := by
  rw [sentence, Reading.sentence, splitBefore_eq, pure_bind]
  have hruns (parts : List (List String)) :
      (parts.mapM fun part ↦ withImpliedLi fault lex (stripLeading isLa part)) =
        pure (parts.map fun part ↦ Reading.withImpliedLi lex (stripLeading isLa part)) := by
    simp [withImpliedLi_eq]
  rcases TokiPona.splitBefore isLa words with _ | ⟨first, _ | ⟨second, _ | ⟨third, rest⟩⟩⟩
  · simp [hruns, clauses_eq]
  · simp [hruns, clauses_eq, Option.filter]
  · rcases second with _ | ⟨v, _ | ⟨w, others⟩⟩
    · simp [hruns, clauses_eq, Option.filter]
    · simp [coordination_eq, Option.filter]
    · simp [hruns, clauses_eq, Option.filter]
  · rw [List.getLast?_eq_some_getLast (List.cons_ne_nil _ _)]
    rcases (first :: second :: third :: rest).getLast (List.cons_ne_nil _ _) with _ | ⟨v, _ | ⟨w, others⟩⟩
    · simp [hruns, clauses_eq, Option.filter]
    · simp [Option.filter]
    · simp [hruns, clauses_eq, Option.filter]

end Checked

end Reading

namespace Grammar

open Reading

/-- Reads one normalised sentence, with every access by place written out. -/
def readChecked {m : Type → Type} [Monad m] [MonadExceptOf ParseError m] [Recall m] (fault : Fault m) (g : Grammar)
    (text shown : String) : m Sentence := do
  let tokens ← Checked.tokenize fault text
  if (tokens.filter Token.isWord).getLast?.any (·.is .li) then throw (.trailingLi shown)
  else if text.toList.all Text.isBlank then throw .emptyInput
  else if "///".toList.isPrefixOf text.toList then pure (.comment text)
  else do
    match ← Checked.adjacencyError? fault g.dialect text tokens with
    | some e => throw e
    | none =>
      if Text.trim text.toList != text.toList then throw (.malformed .surroundingBlanks text)
      else if tokens.head?.any (fun t ↦ t.is .li || t.is .la) then throw (.malformed .leadingMarker text)
      else do
        let (words, mark) ← sentenceWords text tokens
        if words.isEmpty then throw .emptyInput
        else Checked.sentence fault g.lexicon words (mark.getD .period) shown

theorem readChecked_eq {m : Type → Type} [Monad m] [LawfulMonad m] [MonadExceptOf ParseError m] [Recall m]
    (fault : Fault m) (g : Grammar) (text shown : String) : g.readChecked fault text shown = g.read text shown := by
  cases hadjacency : adjacencyError? g.dialect text (tokenize text) <;>
    simp only [readChecked, read, Checked.tokenize_eq, Checked.adjacencyError?_eq, pure_bind, Checked.sentence_eq,
      hadjacency]

def parseChecked (fault : Fault Remembering) (g : Grammar) (text shown : String) (memory : Memory) :
    Except ParseError Sentence × Memory :=
  (g.readChecked fault text shown).run.run memory

/-- Whatever the lexicon, the dialect, the memory and the text, no guard is raised, and what an access out of range
would do makes no difference, since there is none. -/
theorem parseWith_in_range (g : Grammar) (text shown : String) (memory : Memory) :
    (∀ e : ParseError, e.isGuard = true → (g.parseWith text shown memory).1 ≠ .error e) ∧
      ∀ fault : Fault Remembering, g.parseChecked fault text shown memory = g.parseWith text shown memory := by
  refine ⟨fun e he herror ↦ ?_, fun fault ↦ ?_⟩
  · have hspares := g.spares_read text shown memory
    have hrun : ((g.read text shown : Remembering Sentence).run.run memory).1 = .error e := herror
    rw [hrun] at hspares
    simp [he] at hspares
  · rw [parseChecked, readChecked_eq, parseWith]

/-- A quote mark hides the `la` that opens the text, and the memory holds a chain of nothing. -/
theorem parseWith_in_range_quoted :
    let g : Grammar := ⟨Dictionary.standard.lexicon, {}⟩
    let text := "«la jan li moku."
    let memory : Memory := { chains := [("jan", .phrases .pi [])] }
    (∀ fragment, (g.parseWith text text memory).1 ≠ .error (.leftoverLa fragment)) ∧
      ∀ e, g.parseChecked (fun _ ↦ throw e) text text memory = g.parseWith text text memory := by
  intro g text memory
  obtain ⟨hguards, hfaults⟩ := parseWith_in_range g text text memory
  exact ⟨fun fragment ↦ hguards (.leftoverLa fragment) rfl, fun e ↦ hfaults (fun _ ↦ throw e)⟩

end Grammar

end TokiPona
