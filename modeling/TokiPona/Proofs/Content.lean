import Mathlib.Algebra.BigOperators.Group.Multiset.Basic
import TokiPona.Dictionary.Standard
import TokiPona.Proofs.Assembly

/-!
What becomes of the words of a text that are no particles. Three ways to lose one are known: calls that are passed over,
a call or an exclamation that takes the place of a clause, and a preposition that becomes a verb.
-/

namespace TokiPona

/-- The bare texts of the words and prepositions of a text, particles apart. -/
def content (text : String) : Multiset String :=
  ((tokenize text).filter fun t ↦ t.isWord && t.particle?.isNone).map Token.bare

namespace Reading

def contentOf (words : List String) : Multiset String :=
  (words.filter fun w ↦ (Particle.ofWord? w).isNone).map Word.bare

theorem bare_ofWord (pos : Nat) (w : String) : (Token.ofWord pos w).bare = Word.bare w := by
  cases hw : Word.isPreposition w with
  | true => simp [Token.bare, Token.ofWord, hw]
  | false => simp [Token.bare, Token.ofWord, hw, bare_of_isPreposition_eq_false]

theorem content_eq (text : String) : content text = contentOf (wordsOf text) := by
  have htoken : ∀ t ∈ (tokenize text).filter Token.isWord, t = .ofWord t.start t.text := by
    intro t ht
    obtain ⟨hmem, hword⟩ := List.mem_filter.1 ht
    exact (Token.mem_scan hmem hword).2
  have hsplit : (tokenize text).filter (fun t ↦ t.isWord && t.particle?.isNone) =
      ((tokenize text).filter Token.isWord).filter (fun t ↦ t.particle?.isNone) := by
    rw [List.filter_filter]
    exact List.filter_congr (fun t _ ↦ Bool.and_comm _ _)
  rw [content, contentOf, wordsOf, hsplit, List.filter_map, List.map_map]
  have hfilter : ((tokenize text).filter Token.isWord).filter (fun t ↦ t.particle?.isNone) =
      ((tokenize text).filter Token.isWord).filter ((fun w ↦ (Particle.ofWord? w).isNone) ∘ Token.text) := by
    refine List.filter_congr (fun t ht ↦ ?_)
    rw [htoken t ht, particle?_ofWord]
    rfl
  rw [hfilter]
  refine congrArg _ (List.map_congr_left (fun t ht ↦ ?_))
  rw [htoken t (List.mem_of_mem_filter ht), bare_ofWord]
  rfl

variable {lex : Lexicon} {words : List String}

@[simp] theorem contentOf_nil : contentOf [] = 0 := rfl

@[simp] theorem contentOf_append (words words' : List String) :
    contentOf (words ++ words') = contentOf words + contentOf words' := by
  simp [contentOf]

theorem contentOf_cons (w : String) (words : List String) : contentOf (w :: words) = contentOf [w] + contentOf words :=
  contentOf_append [w] words

@[simp] theorem contentOf_word_cons (p : Particle) (words : List String) : contentOf (p.word :: words) = contentOf words := by
  simp [contentOf]

theorem contentOf_flatten (runs : List (List String)) : contentOf runs.flatten = (runs.map contentOf).sum := by
  induction runs with
  | nil => rfl
  | cons run runs ih => simp [ih]

theorem contentOf_intercalate (p : Particle) (runs : List (List String)) :
    contentOf ([p.word].intercalate runs) = contentOf runs.flatten := by
  induction runs with
  | nil => rfl
  | cons run runs ih =>
    cases runs with
    | nil => simp
    | cons run' runs =>
      rw [List.intercalate_cons_of_ne_nil (by simp), contentOf_append, contentOf_append, ih]
      simp

theorem contentOf_splitDropping {p : Particle} {isP : String → Bool} (hp : ∀ w, isP w = true → w = p.word)
    (words : List String) : contentOf (splitDropping isP words).flatten = contentOf words := by
  rw [← contentOf_intercalate p, intercalate_splitDropping hp]

theorem contentOf_filter_nonempty (runs : List (List String)) :
    contentOf (runs.filter (!·.isEmpty)).flatten = contentOf runs.flatten := by
  induction runs with
  | nil => rfl
  | cons run runs ih =>
    cases run with
    | nil => simpa using ih
    | cons w rest =>
      rw [List.filter_cons_of_pos (by simp), List.flatten_cons, List.flatten_cons, contentOf_append, ih, contentOf_append]

@[simp] theorem contentOf_tidy (words : List String) : contentOf (tidy words) = contentOf words := by
  rw [tidy, contentOf_intercalate, contentOf_filter_nonempty, contentOf_splitDropping eq_of_isEn]

theorem contentOf_tidyPiece (piece : List String) : contentOf (tidyPiece piece) = contentOf piece := by
  cases piece with
  | nil => rfl
  | cons w words => rw [tidyPiece, contentOf_cons, contentOf_tidy, ← contentOf_cons]

theorem contentOf_coordination {c : Chain} (h : (coordination lex words : Except ParseError Chain) = .ok c) :
    contentOf c.spelling = contentOf words := by
  rw [spelling_coordination h, contentOf_tidy]

theorem contentOf_phrases {pieces : List (List String)} {phrases : List PrepPhrase}
    (h : List.Forall₂ (ReadsPrepPhrase lex) pieces phrases) :
    contentOf (phrases.map PrepPhrase.spelling).flatten = contentOf pieces.flatten := by
  induction h with
  | nil => rfl
  | cons hp _ ih => simp [hp.spelling_eq, contentOf_tidyPiece, ih]

/-- A measure that no reader increases. The two words of the placeholder weigh next to nothing, since `jan Sanwan o` may
come out where nobody wrote it. -/
def weight (w : String) : Nat := if w ∈ placeholderSubject then 1 else w.length + 2

def mass (words : Multiset String) : Nat := (words.map weight).sum

@[simp] theorem mass_zero : mass 0 = 0 := rfl

@[simp] theorem mass_add (m n : Multiset String) : mass (m + n) = mass m + mass n := by simp [mass]

@[simp] theorem mass_singleton (w : String) : mass {w} = weight w := by simp [mass]

theorem weight_pos (w : String) : 0 < weight w := by
  unfold weight
  split <;> omega

theorem mass_eq_zero {m : Multiset String} : mass m = 0 ↔ m = 0 := by
  constructor
  · intro h
    rw [Multiset.eq_zero_iff_forall_notMem]
    intro w hw
    obtain ⟨rest, rfl⟩ := Multiset.exists_cons_of_mem hw
    have := weight_pos w
    simp only [mass, Multiset.map_cons, Multiset.sum_cons] at h
    omega
  · rintro rfl
    rfl

/-- Either nothing is lost and `P` holds, or something is and it does not. -/
def Accounts (P : Prop) (out inn : Multiset String) : Prop := (P ∧ out = inn) ∨ (¬ P ∧ mass out < mass inn)

section

variable {P Q : Prop} {out out' inn inn' : Multiset String}

theorem Accounts.of_eq (hP : P) (h : out = inn) : Accounts P out inn := .inl ⟨hP, h⟩

theorem Accounts.of_lt (hP : ¬ P) (h : mass out < mass inn) : Accounts P out inn := .inr ⟨hP, h⟩

theorem Accounts.congr (h : Accounts P out inn) (hPQ : P ↔ Q) : Accounts Q out inn := by
  rwa [Accounts, ← hPQ]

theorem Accounts.add (h : Accounts P out inn) (h' : Accounts Q out' inn') : Accounts (P ∧ Q) (out + out') (inn + inn') := by
  rcases h with ⟨hP, rfl⟩ | ⟨hP, hlt⟩
  · rcases h' with ⟨hQ, rfl⟩ | ⟨hQ, hlt⟩
    · exact .inl ⟨⟨hP, hQ⟩, rfl⟩
    · refine .inr ⟨fun h ↦ hQ h.2, ?_⟩
      simpa using hlt
  · refine .inr ⟨fun h ↦ hP h.1, ?_⟩
    rcases h' with ⟨-, rfl⟩ | ⟨-, hlt'⟩
    · simpa using hlt
    · simp only [mass_add]
      omega

theorem Accounts.eq_iff (h : Accounts P out inn) : out = inn ↔ P := by
  rcases h with ⟨hP, heq⟩ | ⟨hP, hlt⟩
  · exact ⟨fun _ ↦ hP, fun _ ↦ heq⟩
  · refine ⟨?_, fun h ↦ absurd h hP⟩
    rintro rfl
    exact absurd hlt (Nat.lt_irrefl _)

end

def lonePreposition? (part : List String) : Option String :=
  if Particle.e.isIn part then none
  else
    match splitBefore Word.isPreposition part with
    | [_] :: pieces => (promoted? pieces).map Prod.fst
    | _ => none

/-- A preposition may become a verb if it looks like a word without its mark. -/
def KeepsVerb (part : List String) : Prop :=
  ∀ w ∈ lonePreposition? part, Particle.ofWord? w = none ∧ Word.isPreposition w = false

theorem weight_bare_lt {w : String} (h : Word.isPreposition w = true) : weight (Word.bare w) < weight w := by
  have hlength : w.length = (Word.bare w).length + 1 := by
    have hcons := congrArg String.length (tilde_bare h)
    rw [String.length_append] at hcons
    have hmark : "~".length = 1 := by decide
    omega
  have hw : w ∉ placeholderSubject := by
    intro hmem
    simp only [placeholderSubject, List.mem_cons, List.not_mem_nil, or_false] at hmem
    rcases hmem with rfl | rfl <;> simp [Word.isPreposition] at h
  rw [weight, weight, if_neg hw]
  split <;> omega

theorem accounts_promoted {w : String} (hw : Word.isPreposition w = true) :
    Accounts (Particle.ofWord? (Word.bare w) = none ∧ Word.isPreposition (Word.bare w) = false)
      (contentOf [Word.bare w]) (contentOf [w]) := by
  have hin : contentOf [w] = {Word.bare w} := by simp [contentOf, ofWord?_of_isPreposition hw]
  cases hp : Particle.ofWord? (Word.bare w) with
  | some p => exact .of_lt (by simp) (by simp [contentOf, hp, ofWord?_of_isPreposition hw, weight_pos])
  | none =>
    have hout : contentOf [Word.bare w] = {Word.bare (Word.bare w)} := by simp [contentOf, hp]
    rw [hin, hout]
    cases hprep : Word.isPreposition (Word.bare w) with
    | false => exact .of_eq ⟨rfl, rfl⟩ (by rw [bare_of_isPreposition_eq_false hprep])
    | true => exact .of_lt (by simp) (by simpa using weight_bare_lt hprep)

theorem lonePreposition?_of_e {part : List String} (h : Particle.e.word ∈ part) : lonePreposition? part = none := by
  rw [lonePreposition?, if_pos (Particle.isIn_iff.2 h)]

theorem lonePreposition?_joined {particle : Particle} (hgov : particle.isGoverning = true) {verb : List String}
    {pieces : List (List String)} (he : ∀ w ∈ verb, isE w = false) (hverb : NoPreposition verb)
    (hpieces : ∀ piece ∈ pieces, Opens Word.isPreposition piece ∧ ∀ w ∈ piece, isE w = false) :
    lonePreposition? (particle.word :: joined verb [] pieces) =
      if verb = [] then (promoted? pieces).map Prod.fst else none := by
  have hnone : ¬ Particle.e.isIn (particle.word :: joined verb [] pieces) = true := by
    rw [Particle.isIn_iff]
    exact e_notMem_governed hgov he (fun piece hpiece ↦ (hpieces piece hpiece).2)
  rw [lonePreposition?, if_neg hnone, splitBefore_joined particle hverb (fun piece hpiece ↦ (hpieces piece hpiece).1)]
  cases verb <;> simp

theorem lonePreposition?_of_full {particle : Particle} (hgov : particle.isGoverning = true) {verb : List String}
    {kind : Option PredicateKind} {pieces : List (List String)} {phrases : List PrepPhrase}
    (he : ∀ w ∈ verb, isE w = false) (hverb : NoPreposition verb)
    (hkind : (predicateKind lex verb : Except ParseError (Option PredicateKind)) = .ok kind)
    (hfull : kind = none → ∀ piece ∈ pieces, piece.length ≠ 1)
    (hphrases : List.Forall₂ (ReadsPrepPhrase lex) pieces phrases) :
    lonePreposition? (particle.word :: joined verb [] pieces) = none := by
  rw [lonePreposition?_joined hgov he hverb (opens_of_reads hphrases)]
  split
  case isTrue hnil =>
    subst hnil
    rw [promoted?_eq_none.2 (hfull (pure_eq_ok.1 hkind).symm)]
    rfl
  · rfl

theorem lonePreposition?_promoted {particle : Particle} (hgov : particle.isGoverning = true)
    {before after : List (List String)} {w : String} (hfull : ∀ piece ∈ before, piece.length ≠ 1)
    (hpieces : ∀ piece ∈ before ++ [w] :: after, Opens Word.isPreposition piece ∧ ∀ v ∈ piece, isE v = false) :
    lonePreposition? (particle.word :: joined [] [] (before ++ [w] :: after)) = some (Word.bare w) := by
  rw [lonePreposition?_joined hgov (by simp) (by simp [NoPreposition]) hpieces, if_pos rfl, promoted?_append hfull]
  rfl

theorem accounts_predicate {part : List String} {p : Predicate} (h : ReadsPredicate lex part p) :
    Accounts (KeepsVerb part) (contentOf p.spelling) (contentOf part) := by
  cases h with
  | @transitive particle verb last kind init pieces chains phrases hgov hcut hkind hchains hphrases =>
    refine .of_eq (fun w hw ↦ ?_) ?_
    · rw [lonePreposition?_of_e (by simp [joined])] at hw
      simp at hw
    · rw [spelling_transitive hkind hchains]
      simp [joined, contentOf_phrases hphrases]
  | @intransitive particle verb kind pieces phrases hgov hne he hverb hkind hfull hphrases =>
    refine .of_eq (fun w hw ↦ ?_) ?_
    · rw [lonePreposition?_of_full hgov he hverb hkind hfull hphrases] at hw
      simp at hw
    · rw [spelling_intransitive (spelling_predicateKind hkind)]
      simp [joined, contentOf_phrases hphrases]
  | @promoted particle before after w phrases hgov hw hfull hphrases =>
    have hlone := lonePreposition?_promoted hgov hfull (opens_of_promoted hw hphrases)
    have hverb : (PredicateKind.verb { head := some (.word (Word.bare w)) }).spelling = [Word.bare w] := by
      simp [PredicateKind.spelling, VerbPhrase.words, VerbPhrase.lexemes, Lexeme.words]
    have hsum := (accounts_promoted hw).add (.of_eq trivial (contentOf_phrases hphrases))
    have hout : contentOf (particle.word :: joined [Word.bare w] [] (phrases.map PrepPhrase.spelling)) =
        contentOf [Word.bare w] + contentOf (phrases.map PrepPhrase.spelling).flatten := by
      simp [joined, ← contentOf_append]
    have hin : contentOf (particle.word :: joined [] [] (before ++ [w] :: after)) =
        contentOf [w] + contentOf (before ++ after).flatten := by
      simp only [joined, contentOf_word_cons, List.flatMap_nil, List.nil_append, List.flatten_append, List.flatten_cons,
        contentOf_append]
      exact add_left_comm _ _ _
    rw [spelling_intransitive hverb, hout, hin]
    exact hsum.congr (by simp [KeepsVerb, hlone])

theorem contentOf_flatMap {α : Type} (f : α → List String) (xs : List α) :
    contentOf (xs.flatMap f) = (xs.map fun x ↦ contentOf (f x)).sum := by
  rw [List.flatMap_def, contentOf_flatten, List.map_map]
  rfl

theorem contentOf_addressees {runs : List (List String)} {chains : List Chain}
    (h : (addressees lex runs : Except ParseError (List Chain)) = .ok chains) :
    contentOf (chains.flatMap Chain.spelling) = contentOf runs.flatten := by
  rw [← contentOf_filter_nonempty, contentOf_flatMap, contentOf_flatten]
  have hread := mapM_eq_ok.1 h
  exact congrArg List.sum (map_eq_map_of_forall₂ hread (fun _ _ _ hc ↦ contentOf_coordination hc))

def isBare (lex : Lexicon) : List (List String) → Bool
  | [only] => (exclamation lex only).isSome
  | [_, [w]] => isO w
  | _ => false

def KeepsVerbs (parts : List (List String)) : Prop :=
  ∀ part ∈ parts, part.head?.any isGovernor = true → KeepsVerb part

theorem isBare_of_predicates {first : List String} {rest : List (List String)} {predicates : List Predicate}
    (hfirst : rest = [] → exclamation lex first = none) (h : List.Forall₂ (ReadsPredicate lex) rest predicates) :
    isBare lex (first :: rest) = false := by
  match rest, h with
  | [], _ => simp [isBare, hfirst rfl]
  | [[]], _ => rfl
  | [[w]], .cons hw _ => exact absurd rfl (hw.ne_singleton w)
  | [_ :: _ :: _], _ => rfl
  | _ :: _ :: _, _ => simp [isBare]

theorem accounts_predicates {parts : List (List String)} {predicates : List Predicate}
    (h : List.Forall₂ (ReadsPredicate lex) parts predicates) :
    Accounts (KeepsVerbs parts) (contentOf (predicates.flatMap Predicate.spelling)) (contentOf parts.flatten) := by
  induction h with
  | nil => exact .of_eq (by simp [KeepsVerbs]) rfl
  | @cons part p parts predicates hp hrest ih =>
    obtain ⟨particle, words, hgov, -, heq⟩ := governed_of_predicate (predicate_eq_ok.2 hp)
    have hhead : part.head?.any isGovernor = true := by
      cases particle <;> simp [Particle.isGoverning] at hgov <;> simp [heq] <;> decide
    rw [List.flatMap_cons, List.flatten_cons, contentOf_append, contentOf_append]
    exact ((accounts_predicate hp).add ih).congr (by simp [KeepsVerbs, hhead])

theorem KeepsVerbs.cons_iff {first : List String} {parts : List (List String)} (h : first.head?.any isGovernor = false) :
    KeepsVerbs (first :: parts) ↔ KeepsVerbs parts := by
  simp [KeepsVerbs, h]

theorem accounts_body {parts : List (List String)} {b : Body} (h : ReadsBody lex parts b) :
    (isBare lex parts = true ∧ (∀ subject predicates, b ≠ .predication subject predicates) ∧
      contentOf b.spelling = contentOf parts.flatten) ∨
    (isBare lex parts = false ∧ (∃ subject predicates, b = .predication subject predicates) ∧
      Accounts (KeepsVerbs parts) (contentOf b.spelling) (contentOf parts.flatten)) := by
  cases h with
  | exclamation h => exact .inl ⟨by simp [isBare, h], by simp, by simp [Body.spelling, (spelling_exclamation h).1]⟩
  | call h => exact .inl ⟨rfl, by simp, by simp [Body.spelling, contentOf_coordination h]⟩
  | @command first rest predicates hfirst hexclamation hpredicates =>
    obtain ⟨p, others, hp, hothers, rfl⟩ := List.forall₂_cons_left_iff.1 hpredicates
    exact .inr ⟨isBare_of_predicates hexclamation hothers, ⟨_, _, rfl⟩, accounts_predicates hpredicates⟩
  | @statement first rest subject predicates hsubject hne hpredicates =>
    have hhead : first.head?.any isGovernor = false := by
      cases first with
      | nil => rfl
      | cons w first =>
        obtain ⟨hli, -, ho, -⟩ := notMem_of_coordination hsubject w (by simp)
        simpa using isGovernor_eq_false.2 ⟨hli, ho⟩
    refine .inr ⟨isBare_of_predicates (fun hnil ↦ absurd hnil hne) hpredicates, ⟨_, _, rfl⟩, ?_⟩
    have hsum := (Accounts.of_eq trivial (contentOf_coordination hsubject)).add (accounts_predicates hpredicates)
    simpa [Body.spelling] using hsum.congr (by rw [KeepsVerbs.cons_iff hhead, true_and])

theorem contentOf_takeConjunction (words : List String) : contentOf (takeConjunction words).2 = contentOf words := by
  rcases takeConjunction_cases words with ⟨p, rest, -, -, rfl, heq⟩ | ⟨-, heq⟩
  · simp [heq]
  · rw [heq]

theorem contentOf_takeTag (words : List String) :
    contentOf words = contentOf (takeTag words).2 + if (takeTag words).1 then contentOf tag else 0 := by
  rcases takeTag_cases words with ⟨init, -, rfl, heq⟩ | ⟨-, heq⟩
  · simp [heq]
  · simp [heq]

theorem contentOf_takeMood (mood : Mood) (words : List String) : contentOf (takeMood mood words).2 = contentOf words := by
  rcases takeMood_cases mood words with ⟨rest, rfl, -, heq⟩ | ⟨rest, -, -, heq⟩ | ⟨-, heq⟩
  · simp [heq]
  · rw [heq]
  · rw [heq]

/-- Whether a clause is read without loss once calls have come off its front. A call or an exclamation has room neither
for those called before it nor for a tag. -/
def KeepsRest (lex : Lexicon) (calls words : List String) : Prop :=
  let (tagQuestion, untagged) := takeTag (takeConjunction words).2
  let parts := splitBefore isGovernor (takeMood .declarative untagged).2
  if isBare lex parts then contentOf calls = 0 ∧ tagQuestion = false else KeepsVerbs parts

theorem contentOf_flatMap_concat {α : Type} (f : α → List String) (p : Particle) (xs : List α) :
    contentOf (xs.flatMap fun x ↦ f x ++ [p.word]) = contentOf (xs.flatMap f) := by
  simp [contentOf_flatMap]

theorem contentOf_tag : contentOf tag = {"seme"} := by decide

theorem contentOf_conjunction (p : Option Particle) : contentOf (p.toList.map Particle.word) = 0 := by
  cases p <;> simp

theorem contentOf_simple (s : SimpleSentence) : contentOf s.spelling =
    contentOf (s.contexts.flatMap Context.spelling) + (contentOf (s.vocatives.flatMap Chain.spelling) +
      (contentOf (s.writtenSubject.toList.flatMap Chain.spelling ++ s.predicates.flatMap Predicate.spelling) +
        if s.tagQuestion then contentOf tag else 0)) := by
  have hmood : contentOf (if s.mood = .hortative then [Particle.o.word] else []) = 0 := by
    split <;> simp
  have htag : contentOf (if s.tagQuestion then [Particle.anu.word, "seme"] else []) =
      if s.tagQuestion then contentOf tag else 0 := by
    split <;> rfl
  simp only [SimpleSentence.spelling, contentOf_append, contentOf_flatMap_concat, contentOf_conjunction, hmood, htag,
    add_zero, add_assoc]

theorem snd_takeMood (mood mood' : Mood) (words : List String) : (takeMood mood words).2 = (takeMood mood' words).2 := by
  unfold takeMood
  split
  · split <;> rfl
  · rfl

theorem accounts_bare {calls core : Multiset String} {tagQuestion : Bool} :
    Accounts (calls = 0 ∧ tagQuestion = false) core (calls + (core + if tagQuestion then contentOf tag else 0)) := by
  by_cases h : calls = 0 ∧ tagQuestion = false
  · exact .of_eq h (by simp [h.1, h.2])
  · refine .of_lt h ?_
    have hlost : 0 < mass calls + mass (if tagQuestion then contentOf tag else 0) := by
      by_cases hcalls : calls = 0
      · have htag : tagQuestion = true := by simpa [hcalls] using h
        have hseme := weight_pos "seme"
        simp only [htag, if_true, contentOf_tag, mass_singleton]
        omega
      · have hmass := mass_eq_zero.not.2 hcalls
        omega
    simp only [mass_add]
    omega

theorem accounts_opened {mark : Option Punctuation} {rest : OpenedClause} {s : Sentence} {calls : List String}
    (h : ReadsOpened lex mark rest s) (hplaceholder : rest.placeholder = false)
    (hcalls : contentOf (rest.vocatives.flatMap Chain.spelling) = contentOf calls) :
    Accounts (KeepsRest lex calls rest.words) (contentOf s.spelling) (contentOf calls + contentOf rest.words) := by
  obtain ⟨hconj, htag, hmood, -, -, -, hbody⟩ := h
  rename_i conjunction tagQuestion mood unjoined untagged core b
  have hcore : (takeMood .declarative untagged).2 = core := by rw [snd_takeMood _ rest.mood, hmood]
  have hwords : contentOf rest.words = contentOf core + if tagQuestion then contentOf tag else 0 := by
    rw [← contentOf_takeConjunction, hconj, contentOf_takeTag, htag, ← contentOf_takeMood rest.mood, hmood]
  have hflat := flatten_splitBefore isGovernor core
  simp only [KeepsRest, hconj, htag, hcore]
  rw [hwords]
  rcases accounts_body hbody with ⟨hbare, hb, heq⟩ | ⟨hbare, ⟨subject, predicates, rfl⟩, hsum⟩
  · rw [if_pos hbare, b.spelling_sentence hb, heq, hflat]
    exact accounts_bare
  · rw [if_neg (by simp [hbare]), Body.sentence, Sentence.spelling, contentOf_simple]
    rw [hflat] at hsum
    have htotal := (Accounts.of_eq trivial hcalls).add
      (hsum.add (.of_eq trivial (Eq.refl (if tagQuestion then contentOf tag else 0))))
    simpa [SimpleSentence.writtenSubject, hplaceholder, Body.spelling] using htotal

theorem accounts_told {mark : Option Punctuation} {vocatives : List Chain} {after : List String} {s : Sentence}
    {calls : List String} (hne : after ≠ [])
    (h : ReadsOpened lex mark ⟨vocatives, .imperative, true, placeholderSubject ++ Particle.o.word :: after⟩ s)
    (hcalls : contentOf (vocatives.flatMap Chain.spelling) = contentOf calls) :
    Accounts (KeepsRest lex calls (placeholderSubject ++ Particle.o.word :: after)) (contentOf s.spelling)
      (contentOf calls + contentOf after) := by
  obtain ⟨hconj, htag, hmood, -, -, -, hbody⟩ := h
  rename_i conjunction tagQuestion mood unjoined untagged core b
  obtain ⟨rfl, rfl, rfl, rfl, told, rfl, hafter⟩ := take_told hne hconj htag hmood
  have hparts : splitBefore isGovernor (takeMood .declarative (placeholderSubject ++ Particle.o.word :: told)).2 =
      placeholderSubject :: splitBefore isGovernor (Particle.o.word :: told) := splitBefore_told told
  have hflat := flatten_splitBefore isGovernor (Particle.o.word :: told)
  have hin : contentOf after = contentOf told + if tagQuestion then contentOf tag else 0 := by
    rw [hafter, contentOf_append]
    split <;> rfl
  simp only [KeepsRest, hconj, htag, hparts]
  rw [hin]
  obtain ⟨subject, hsubject, ⟨rfl, rfl⟩ | ⟨predicates, hpredicates, rfl⟩⟩ := hbody.of_told
  · -- `jan Sanwan o` comes out where a tag went in
    have htagged : tagQuestion = true := by
      by_contra hfalse
      exact hne (by simp [hafter, hfalse])
    have hout : contentOf (Sentence.vocative subject mark).spelling = contentOf placeholderSubject := by
      simp [Sentence.spelling, contentOf_coordination hsubject]
    have hmass : mass (contentOf placeholderSubject) < mass (contentOf tag) := by decide
    refine .of_lt (by simp [isBare, splitBefore, isO_word, htagged]) ?_
    simp only [Body.sentence, hout, htagged, mass_add, contentOf_nil, mass_zero, if_true]
    omega
  · have hne' : splitBefore isGovernor (Particle.o.word :: told) ≠ [] := splitBefore_ne_nil isGovernor (by simp)
    have hbare : isBare lex (placeholderSubject :: splitBefore isGovernor (Particle.o.word :: told)) = false :=
      isBare_of_predicates (fun hnil ↦ absurd hnil hne') hpredicates
    have hkeeps := accounts_predicates hpredicates
    rw [hflat, contentOf_word_cons] at hkeeps
    have htotal := (Accounts.of_eq trivial hcalls).add
      (hkeeps.add (.of_eq trivial (Eq.refl (if tagQuestion then contentOf tag else 0))))
    rw [if_neg (by simp [hbare]), KeepsVerbs.cons_iff (by decide), Body.sentence, Sentence.spelling, contentOf_simple]
    simpa [SimpleSentence.writtenSubject] using htotal

theorem contentOf_calls (words : List String) : contentOf words =
    contentOf (passedOver words).flatten + (contentOf (callRuns words).flatten + contentOf (afterLastO words)) := by
  have hruns (runs : List (List String)) : contentOf (runs.flatMap (· ++ [Particle.o.word])) = contentOf runs.flatten := by
    rw [contentOf_flatMap_concat (fun run ↦ run), List.flatMap_id']
  conv_lhs => rw [words_eq_calls words]
  rw [contentOf_append, contentOf_append, hruns, hruns]
  exact add_left_comm _ _ _

def KeepsClause (lex : Lexicon) (words : List String) : Prop :=
  match splitDoubleO words with
  | some (w :: before, after) => after = [] ∨ KeepsRest lex (w :: before) (placeholderSubject ++ Particle.o.word :: after)
  | some ([], _) | none =>
    if hasInnerO words && Particle.li.isIn words then
      contentOf (passedOver words).flatten = 0 ∧ KeepsRest lex (callRuns words).flatten (afterLastO words)
    else KeepsRest lex [] words

theorem KeepsClause.of_command {before after : List String} (h : splitDoubleO words = some (before, after)) (hne : before ≠ []) :
    KeepsClause lex words ↔ after = [] ∨ KeepsRest lex before (placeholderSubject ++ Particle.o.word :: after) := by
  obtain ⟨w, before, rfl⟩ := List.exists_cons_of_ne_nil hne
  simp only [KeepsClause, h]

theorem KeepsClause.of_noCommand (h : NoCommand words) : KeepsClause lex words ↔
    if hasInnerO words && Particle.li.isIn words then
      contentOf (passedOver words).flatten = 0 ∧ KeepsRest lex (callRuns words).flatten (afterLastO words)
    else KeepsRest lex [] words := by
  unfold KeepsClause
  split
  case _ hsplit => exact absurd (h _ _ hsplit) (by simp)
  · rfl
  · rfl

theorem accounts_passedOver (words : List String) : Accounts (contentOf words = 0) 0 (contentOf words) := by
  by_cases h : contentOf words = 0
  · exact .of_eq h h.symm
  · exact .of_lt h (Nat.pos_of_ne_zero (mass_eq_zero.not.2 h))

theorem accounts_clause {mark : Option Punctuation} {s : Sentence}
    (h : (clause lex words mark : Except ParseError Sentence) = .ok s) :
    Accounts (KeepsClause lex words) (contentOf s.spelling) (contentOf words) := by
  rcases clause_eq_ok.1 h with ⟨addressee, hopened, rfl⟩ | ⟨rest, hopened, hread⟩
  · cases hopened with
    | call before _ hsplit hne hread =>
      refine (Accounts.of_eq (.inl rfl) ?_).congr (KeepsClause.of_command hsplit hne).symm
      have hcalls := contentOf_addressees hread
      rw [contentOf_splitDropping eq_of_isO] at hcalls
      rw [eq_of_splitDoubleO hsplit]
      simpa [Sentence.spelling] using hcalls
  · cases hopened with
    | command before after vocatives hsplit hne hafter hcalls =>
      have hcontent := contentOf_addressees hcalls
      rw [contentOf_splitDropping eq_of_isO] at hcontent
      have hkeeps := accounts_told hafter hread hcontent
      rw [eq_of_splitDoubleO hsplit, contentOf_append, contentOf_word_cons, contentOf_word_cons]
      rw [← eq_of_splitDoubleO hsplit]
      exact hkeeps.congr (by rw [KeepsClause.of_command hsplit hne]; simp [hafter])
    | calls vocatives hnone ho hli hcalls _ =>
      have hkeeps := accounts_opened hread rfl (contentOf_addressees hcalls)
      have htotal := (accounts_passedOver (passedOver words).flatten).add hkeeps
      rw [zero_add, ← contentOf_calls] at htotal
      exact htotal.congr (by rw [KeepsClause.of_noCommand hnone]; simp [ho, hli])
    | plain hnone ho =>
      have hkeeps := @accounts_opened lex mark _ s [] hread rfl rfl
      rw [contentOf_nil, zero_add] at hkeeps
      exact hkeeps.congr (by rw [KeepsClause.of_noCommand hnone, if_neg (by simp [ho])])

theorem contentOf_context {c : Context} (h : (context lex words : Except ParseError Context) = .ok c) :
    contentOf c.spelling = contentOf words := by
  rcases context_eq_ok.1 h with ⟨-, phrases, rfl, hread⟩ | ⟨-, chain, rfl, hread⟩
  · rw [Context.spelling, List.flatMap_def, contentOf_phrases hread, flatten_splitBefore]
  · exact contentOf_coordination hread

theorem contentOf_withImpliedLi (words : List String) : contentOf (withImpliedLi lex words) = contentOf words := by
  rcases withImpliedLi_cases lex words with heq | ⟨front, pronoun, next, rest, hwords, heq, -, -⟩
  · rw [heq]
  · rw [heq, hwords, contentOf_append, contentOf_cons, contentOf_word_cons, ← contentOf_cons, ← contentOf_append]

theorem contentOf_laRuns (words : List String) : contentOf (laRuns words).flatten = contentOf words := by
  rw [laRuns, contentOf_splitDropping eq_of_isLa]
  cases words with
  | nil => rfl
  | cons w rest =>
    rw [stripLeading]
    split
    case isTrue hw => rw [eq_of_isLa w hw, contentOf_word_cons]
    · rfl

/-- Whether the clauses of a sentence are read without loss; a context always is. -/
def KeepsClauses (lex : Lexicon) : List (List String) → Prop
  | [] => True
  | [conclusion] => KeepsClause lex conclusion
  | run :: rest => (Particle.li.word ∈ run → KeepsClause lex run) ∧ KeepsClauses lex rest

theorem KeepsClauses.cons_iff {run : List String} {rest : List (List String)} (hne : rest ≠ []) :
    KeepsClauses lex (run :: rest) ↔ (Particle.li.word ∈ run → KeepsClause lex run) ∧ KeepsClauses lex rest := by
  obtain ⟨run', rest, rfl⟩ := List.exists_cons_of_ne_nil hne
  rfl

theorem accounts_clauses {mark : Punctuation} {runs : List (List String)} {preconditions : List Sentence} {s : Sentence}
    (h : ReadsClauses lex mark runs preconditions s) :
    Accounts (KeepsClauses lex runs) (contentOf (assembled preconditions s).spelling) (contentOf runs.flatten) := by
  simp only [spelling_assembled, Sentence.preconditionSpellings_eq, contentOf_append]
  induction h with
  | conclusion h => simpa [KeepsClauses] using accounts_clause h
  | @condition words rest p s preconditions hli h hrest ih =>
    have htotal := (accounts_clause h).add ih
    simpa [KeepsClauses.cons_iff hrest.ne_nil, hli, add_assoc] using htotal
  | @contextOfCondition words rest p s preconditions c hne hli h hrest ih =>
    have htotal := (Accounts.of_eq trivial (contentOf_context h)).add ih
    simpa [KeepsClauses.cons_iff hrest.ne_nil, hli, Sentence.spelling, SimpleSentence.spelling_context, add_assoc] using htotal
  | @contextOfConclusion words rest s c hne hli h hrest ih =>
    have htotal := (Accounts.of_eq trivial (contentOf_context h)).add ih
    simpa [KeepsClauses.cons_iff hrest.ne_nil, hli, Sentence.spelling, SimpleSentence.spelling_context, add_assoc] using htotal

/-- Whether a sentence is read without loss. -/
def KeepsContent (lex : Lexicon) (words : List String) : Prop :=
  words.getLast? = some Particle.la.word ∨ KeepsClauses lex ((laRuns words).map (withImpliedLi lex))

theorem getLast?_laRuns (h : words.getLast? = some Particle.la.word) : (laRuns words).getLast? = some [] := by
  obtain ⟨init, rfl⟩ := List.getLast?_eq_some_iff.1 h
  cases init with
  | nil => rfl
  | cons w rest =>
    have hstrip : stripLeading isLa (w :: rest ++ [Particle.la.word]) =
        stripLeading isLa (w :: rest) ++ [Particle.la.word] := by
      simp only [List.cons_append, stripLeading]
      split <;> rfl
    obtain ⟨runs, last, heq⟩ : ∃ runs last, splitDropping isLa (stripLeading isLa (w :: rest)) = runs ++ [last] :=
      ⟨_, _, (List.dropLast_concat_getLast (splitDropping_ne_nil isLa _)).symm⟩
    have hla : splitDropping isLa [Particle.la.word] = [[], []] := rfl
    rw [laRuns, hstrip, splitDropping_append heq hla]
    simp

theorem accounts_sentence {mark : Punctuation} {shown : String} {s : Sentence} (hne : words ≠ [])
    (h : (sentence lex words mark shown : Except ParseError Sentence) = .ok s) :
    Accounts (KeepsContent lex words) (contentOf s.spelling) (contentOf words) := by
  rcases (sentence_eq_ok hne).1 h with ⟨first, c, rfl, hc, rfl⟩ | ⟨preconditions, conclusion, hread, rfl⟩
  · exact .of_eq (.inl (by simp)) (by simp [Sentence.spelling, contentOf_coordination hc])
  · have hlast : words.getLast? ≠ some Particle.la.word := by
      intro hlast
      refine hread.run_ne_nil [] (List.mem_of_getLast? ?_) rfl
      rw [List.getLast?_map, getLast?_laRuns hlast]
      rfl
    have hruns : contentOf ((laRuns words).map (withImpliedLi lex)).flatten = contentOf words := by
      rw [contentOf_flatten, List.map_map, ← contentOf_laRuns words, contentOf_flatten]
      exact congrArg List.sum (List.map_congr_left fun run _ ↦ contentOf_withImpliedLi run)
    rw [← hruns]
    exact (accounts_clauses hread).congr (by simp [KeepsContent, hlast])

end Reading

open Reading

/-- No word is lost or invented exactly where the sentence keeps its content. -/
theorem Grammar.content_eq_iff (g : Grammar) {text shown : String} {s : Sentence} (h : g.parse text shown = .ok s)
    (hs : ∀ comment, s ≠ .comment comment) : content s.text = content text ↔ KeepsContent g.lexicon (wordsOf text) := by
  rcases (Grammar.parse_eq_ok.1 h).2.2 with ⟨-, rfl⟩ | ⟨-, -, -, -, hne, mark, -, hread⟩
  · exact absurd rfl (hs text)
  · obtain ⟨htext, hsolid, -⟩ := text_of_sentence (solid_wordsOf text) hne hread
    rw [content_eq, content_eq, htext, wordsOf_marked hsolid]
    exact (accounts_sentence hne hread).eq_iff

/-- What stands between a clause and a later `o` is passed over: `jan li moku` is lost. -/
theorem Grammar.content_lost_before_call :
    let g : Grammar := ⟨Dictionary.standard.lexicon, {}⟩
    (∃ s, g.parse "jan li moku o mi li pona." "" = .ok s ∧ s.text = "mi li pona." ∧
      ¬ KeepsContent g.lexicon (wordsOf "jan li moku o mi li pona.")) ∧
      KeepsContent g.lexicon (wordsOf "jan Sonja o mi li pona.") := by
  intro g
  have hread {text spelled : String} (h : (fun s ↦ (s.simple?.isSome, s.text)) <$> g.parse text "" = .ok (true, spelled)) :
      ∃ s, g.parse text "" = .ok s ∧ (∀ comment, s ≠ .comment comment) ∧ s.text = spelled := by
    obtain ⟨s, hs, heval⟩ := map_eq_ok.1 h
    obtain ⟨hsimple, htext⟩ := Prod.mk.inj heval
    refine ⟨s, hs, ?_, htext⟩
    rintro comment rfl
    simp [Sentence.simple?] at hsimple
  constructor
  · obtain ⟨s, hs, hcomment, htext⟩ := @hread "jan li moku o mi li pona." "mi li pona." (by decide +kernel)
    have hcontent : content "mi li pona." ≠ content "jan li moku o mi li pona." := by decide +kernel
    refine ⟨s, hs, htext, fun hkeeps ↦ hcontent ?_⟩
    rw [← htext]
    exact (Grammar.content_eq_iff g hs hcomment).2 hkeeps
  · obtain ⟨s, hs, hcomment, htext⟩ := @hread "jan Sonja o mi li pona." "jan Sonja o mi li pona." (by decide +kernel)
    exact (Grammar.content_eq_iff g hs hcomment).1 (by rw [htext])

end TokiPona
