import TokiPona.Grammar
import TokiPona.Vocabulary
import TokiPona.Proofs.Sentence
import TokiPona.Proofs.Words

namespace TokiPona

/-- Every entry for the text of a run of words is related to that run. -/
def Memory.Records {α : Type} (P : List String → α → Prop) (entries : List (String × α)) : Prop :=
  ∀ words a, Solid words → entries.lookup (Word.spaced words) = some a → P words a

theorem Memory.Records.record {α : Type} {P : List String → α → Prop} {entries : List (String × α)}
    (h : Records P entries) {words : List String} (hwords : Solid words) {a : α} (ha : P words a) :
    Records P (Memory.record (Word.spaced words) a entries) := by
  intro words' a' hwords' ha'
  by_cases hkey : Word.spaced words' = Word.spaced words
  · obtain rfl := Word.spaced_injOn hwords' hwords hkey
    rw [lookup_record_self] at ha'
    cases hold : entries.lookup (Word.spaced words') with
    | none =>
      obtain rfl : a = a' := by simpa [hold] using ha'
      exact ha
    | some old =>
      obtain rfl : old = a' := by simpa [hold] using ha'
      exact h words' old hwords' hold
  · rw [lookup_record_of_ne hkey] at ha'
    exact h words' a' hwords' ha'

/-- Every entry is what its key gives when it is read afresh. -/
structure Memory.IsSound (lex : Lexicon) (memory : Memory) : Prop where
  chains : Records (fun words c ↦ (Reading.chain lex words : Except ParseError Chain) = .ok c) memory.chains
  phrases : Records (fun words p ↦ (Reading.phrase lex words : Except ParseError Phrase) = .ok p) memory.phrases

theorem Memory.isSound_empty (lex : Lexicon) : Memory.empty.IsSound lex :=
  ⟨fun _ _ _ h ↦ by simp [Memory.empty] at h, fun _ _ _ h ↦ by simp [Memory.empty] at h⟩

namespace Reading

variable {lex : Lexicon} {α β : Type}

/-- From every sound memory, the reader with a memory gives what the reader without one gives, and leaves the memory
sound. -/
def Agrees (lex : Lexicon) (x : Remembering α) (y : Except ParseError α) : Prop :=
  ∀ memory : Memory, memory.IsSound lex → (x.run.run memory).1 = y ∧ (x.run.run memory).2.IsSound lex

theorem agrees_pure (a : α) : Agrees lex (pure a) (pure a) := fun _ h ↦ ⟨rfl, h⟩

theorem agrees_throw (e : ParseError) : Agrees lex (throw e : Remembering α) (throw e) := fun _ h ↦ ⟨rfl, h⟩

theorem Agrees.bind_ok {x : Remembering α} {y : Except ParseError α} {f : α → Remembering β}
    {g : α → Except ParseError β} (h : Agrees lex x y) (hf : ∀ a, y = .ok a → Agrees lex (f a) (g a)) :
    Agrees lex (x >>= f) (y >>= g) := by
  intro memory hm
  obtain ⟨hy, hm'⟩ := h memory hm
  rcases hx : x.run.run memory with ⟨result, memory'⟩
  rw [hx] at hy hm'
  rw [ExceptT.run_bind, StateT.run_bind, hx, ← hy]
  cases result with
  | error e => exact ⟨rfl, hm'⟩
  | ok a => exact hf a hy.symm memory' hm'

theorem Agrees.bind {x : Remembering α} {y : Except ParseError α} {f : α → Remembering β}
    {g : α → Except ParseError β} (h : Agrees lex x y) (hf : ∀ a, Agrees lex (f a) (g a)) :
    Agrees lex (x >>= f) (y >>= g) :=
  h.bind_ok (fun a _ ↦ hf a)

theorem Agrees.map {x : Remembering α} {y : Except ParseError α} (f : α → β) (h : Agrees lex x y) :
    Agrees lex (f <$> x) (f <$> y) := by
  rw [map_eq_pure_bind, map_eq_pure_bind]
  exact h.bind (fun a ↦ agrees_pure (f a))

theorem Agrees.mapM {f : α → Remembering β} {g : α → Except ParseError β} {xs : List α}
    (h : ∀ x ∈ xs, Agrees lex (f x) (g x)) : Agrees lex (xs.mapM f) (xs.mapM g) := by
  induction xs with
  | nil => exact agrees_pure []
  | cons x xs ih =>
    rw [List.mapM_cons, List.mapM_cons]
    exact (h x (by simp)).bind (fun a ↦ (ih (fun y hy ↦ h y (by simp [hy]))).bind (fun as ↦ agrees_pure (a :: as)))

def recallBy (look : Memory → Option α) (store : α → Memory → Memory) (x : Remembering α) : Remembering α := do
  match look (← get) with
  | some a =>
    modify Memory.hit
    return a
  | none =>
    let a ← x
    modify (store a)
    return a

theorem run_recallBy (look : Memory → Option α) (store : α → Memory → Memory) (x : Remembering α) (memory : Memory) :
    (recallBy look store x).run.run memory =
      match look memory with
      | some a => (.ok a, memory.hit)
      | none =>
        match x.run.run memory with
        | (.ok a, memory') => (.ok a, store a memory')
        | (.error e, memory') => (.error e, memory') := by
  have hget : (recallBy look store x).run.run memory =
      (match look memory with
        | some a => do modify Memory.hit; return a
        | none => do let a ← x; modify (store a); return a : Remembering α).run.run memory := rfl
  rw [hget]
  cases look memory with
  | some a => rfl
  | none =>
    simp only [ExceptT.run_bind, StateT.run_bind]
    rcases x.run.run memory with ⟨_ | a, memory'⟩ <;> rfl

/-- Recalling agrees with reading if the memory has nothing else to offer than what reading gives, and stays sound when
it takes that in. -/
theorem agrees_recallBy {look : Memory → Option α} {store : α → Memory → Memory} {x : Remembering α}
    {y : Except ParseError α} (h : Agrees lex x y)
    (hlook : ∀ memory : Memory, memory.IsSound lex → ∀ a, look memory = some a → y = .ok a)
    (hstore : ∀ memory : Memory, memory.IsSound lex → ∀ a, y = .ok a → (store a memory).IsSound lex) :
    Agrees lex (recallBy look store x) y := by
  intro memory hm
  rw [run_recallBy]
  cases hl : look memory with
  | some a => exact ⟨(hlook memory hm a hl).symm, ⟨hm.chains, hm.phrases⟩⟩
  | none =>
    obtain ⟨hy, hm'⟩ := h memory hm
    rcases hx : x.run.run memory with ⟨e | a, memory'⟩
    · rw [hx] at hy hm'
      exact ⟨hy, hm'⟩
    · rw [hx] at hy hm'
      exact ⟨hy, hstore memory' hm' a hy.symm⟩

theorem recallChain_eq (key : String) (x : Remembering Chain) :
    Recall.chain key x = recallBy (fun memory ↦ memory.chains.lookup key) (Memory.recordChain key) x := by
  simp only [Recall.chain, recallBy]
  refine bind_congr (fun memory ↦ ?_)
  cases memory.chains.lookup key <;> rfl

theorem recallPhrase_eq (key : String) (x : Remembering Phrase) :
    Recall.phrase key x = recallBy (fun memory ↦ memory.phrases.lookup key) (Memory.recordPhrase key) x := by
  simp only [Recall.phrase, recallBy]
  refine bind_congr (fun memory ↦ ?_)
  cases memory.phrases.lookup key <;> rfl

theorem agrees_recallChain {words : List String} (hwords : Solid words) {x : Remembering Chain}
    (h : Agrees lex x (chain lex words)) : Agrees lex (Recall.chain (Word.spaced words) x) (chain lex words) := by
  rw [recallChain_eq]
  apply agrees_recallBy h
  · exact fun memory hm c hc ↦ hm.chains words c hwords hc
  · exact fun memory hm c hc ↦ ⟨hm.chains.record hwords hc, hm.phrases⟩

theorem agrees_recallPhrase {words : List String} (hwords : Solid words) {x : Remembering Phrase}
    (h : Agrees lex x (phrase lex words)) : Agrees lex (Recall.phrase (Word.spaced words) x) (phrase lex words) := by
  rw [recallPhrase_eq]
  apply agrees_recallBy h
  · exact fun memory hm p hp ↦ hm.phrases words p hwords hp
  · exact fun memory hm p hp ↦ ⟨hm.chains, hm.phrases.record hwords hp⟩

theorem agrees_chainOfPhrases (p : Particle) (phrases : List Phrase) :
    Agrees lex (chainOfPhrases p phrases) (chainOfPhrases p phrases) := by
  unfold chainOfPhrases
  split
  · exact agrees_throw _
  · exact agrees_pure _

theorem agrees_chainOfLinks (p : Particle) (links : List Chain) :
    Agrees lex (chainOfLinks p links) (chainOfLinks p links) := by
  unfold chainOfLinks
  split
  · exact agrees_throw _
  · exact agrees_pure _

theorem agrees_refuseParticles (words : List String) :
    Agrees lex (refuseParticles words) (refuseParticles words) := by
  unfold refuseParticles
  split
  · exact agrees_throw _
  · exact agrees_pure _

theorem agrees_headed (words : List String) (prepositions : List PrepPhrase) :
    Agrees lex (headed lex words prepositions) (headed lex words prepositions) := by
  unfold headed
  split
  · exact agrees_pure _
  · exact agrees_throw _

section

variable {ph : List String → Remembering Phrase} {q : String → Prop} (hq : ∀ w, q w → Word.IsSolid w)
variable (hph : ∀ words, (∀ w ∈ words, q w) → Agrees lex (ph words) (phrase lex words))
variable {words : List String} (hwords : ∀ w ∈ words, q w)

include hq hph hwords

theorem agrees_piChain : Agrees lex (piChain ph words) (chain lex words) := by
  by_cases hne : words.isEmpty = true
  · rw [chain, piChain, piChain, if_pos hne, if_pos hne]
    exact agrees_throw _
  by_cases hla : Particle.la.isIn words = true
  · rw [chain, piChain, piChain, if_neg hne, if_neg hne, if_pos hla, if_pos hla]
    exact agrees_throw _
  have hread : (chain lex words : Except ParseError Chain) =
      (splitDropping isPi words).mapM (phrase lex) >>= chainOfPhrases .pi := by
    rw [chain, piChain, if_neg hne, if_neg hla]
    rfl
  rw [piChain, if_neg hne, if_neg hla]
  apply agrees_recallChain (fun w hw ↦ hq w (hwords w hw))
  rw [hread]
  refine (Agrees.mapM ?_).bind (fun phrases ↦ agrees_chainOfPhrases _ _)
  exact fun piece hpiece ↦ hph piece (fun w hw ↦ hwords w (mem_of_mem_splitDropping hpiece w hw))

theorem agrees_coordinationFirst : Agrees lex (coordinationFirst ph words) (coordinationFirst (phrase lex) words) := by
  refine (Agrees.mapM (fun piece hpiece ↦ ?_)).bind (fun links ↦ agrees_chainOfLinks _ _)
  refine (Agrees.mapM (fun part hpart ↦ ?_)).bind (fun links ↦ agrees_chainOfLinks _ _)
  have hpiece' := (List.mem_filter.1 hpiece).1
  exact agrees_piChain hq hph
    (fun w hw ↦ hwords w (mem_of_mem_splitDropping hpiece' w (mem_of_mem_splitDropping hpart w hw)))

theorem agrees_modificationFirst : Agrees lex (modificationFirst ph words) (modificationFirst (phrase lex) words) := by
  refine (Agrees.mapM (fun piece hpiece ↦ ?_)).bind (fun links ↦ agrees_chainOfLinks _ _)
  refine (Agrees.mapM (fun part hpart ↦ ?_)).bind (fun links ↦ agrees_chainOfLinks _ _)
  have hpiece' := (List.mem_filter.1 hpiece).1
  have hpart' := (List.mem_filter.1 hpart).1
  exact agrees_piChain hq hph
    (fun w hw ↦ hwords w (mem_of_mem_splitDropping hpiece' w (mem_of_mem_splitDropping hpart' w hw)))

theorem agrees_coordinationOver : Agrees lex (coordinationOver ph words) (coordination lex words) := by
  unfold coordination coordinationOver
  split
  · exact agrees_throw _
  split
  · exact agrees_throw _
  split
  · exact agrees_throw _
  refine (agrees_coordinationFirst hq hph hwords).bind (fun c ↦ ?_)
  split
  · exact agrees_pure c
  split
  · exact agrees_modificationFirst hq hph hwords
  · exact agrees_throw _

end

def IsPlainWord (w : String) : Prop := Word.IsSolid w ∧ Word.isPreposition w = false

theorem agrees_plainPhrase {words : List String} (hwords : ∀ w ∈ words, IsPlainWord w) :
    Agrees lex (plainPhrase lex words) (phrase lex words) := by
  have heq : (plainPhrase lex words : Except ParseError Phrase) = phrase lex words :=
    plainPhrase_eq_phrase lex (fun w hw ↦ (hwords w hw).2)
  by_cases hne : words.isEmpty = true
  · rw [← heq, plainPhrase, plainPhrase, if_pos hne, if_pos hne]
    exact agrees_throw _
  rw [plainPhrase, if_neg hne]
  apply agrees_recallPhrase (fun w hw ↦ (hwords w hw).1)
  rw [← heq, plainPhrase, if_neg hne]
  exact (agrees_refuseParticles words).bind (fun _ ↦ agrees_headed words [])

def ArePieces (pieces : List (List String)) : Prop := ∀ piece ∈ pieces, Solid piece ∧ NoPreposition piece.tail

theorem ArePieces.of_splitBefore {words first : List String} {pieces : List (List String)} (hwords : Solid words)
    (h : splitBefore Word.isPreposition words = first :: pieces) : ArePieces (first :: pieces) := by
  intro piece hpiece
  exact ⟨hwords.mono (mem_of_mem_splitBefore (h ▸ hpiece)), not_of_mem_tail_splitBefore (h ▸ hpiece)⟩

theorem agrees_complement {words : List String} (hwords : ∀ w ∈ words, IsPlainWord w) :
    Agrees lex (complement lex words) (complement lex words) := by
  cases words with
  | nil => exact agrees_pure none
  | cons w ws =>
    rw [complement_of_ne_nil (m := Except ParseError) lex (by simp) (fun v hv ↦ (hwords v hv).2)]
    exact (agrees_coordinationOver (fun _ h ↦ h.1) (fun _ h ↦ agrees_plainPhrase h) hwords).map some

theorem agrees_prepPhrases {pieces : List (List String)} (h : ArePieces pieces) :
    Agrees lex (prepPhrases lex pieces) (prepPhrases lex pieces) := by
  induction pieces with
  | nil => exact agrees_pure []
  | cons piece pieces ih =>
    have ih' := ih (fun q hq ↦ h q (by simp [hq]))
    cases piece with
    | nil => exact ih'
    | cons w words =>
      obtain ⟨hsolid, hplain⟩ := h (w :: words) (by simp)
      rw [prepPhrases, prepPhrases]
      split
      · exact (agrees_complement (fun v hv ↦ ⟨hsolid v (List.mem_cons_of_mem w hv), hplain v hv⟩)).bind
          (fun governed ↦ ih'.bind (fun phrases ↦ agrees_pure _))
      · exact ih'

theorem agrees_phrase {words : List String} (hwords : Solid words) : Agrees lex (phrase lex words) (phrase lex words) := by
  by_cases hne : words.isEmpty = true
  · rw [phrase, phrase, if_pos hne, if_pos hne]
    exact agrees_throw _
  rw [phrase, if_neg hne]
  apply agrees_recallPhrase hwords
  rw [phrase, if_neg hne]
  refine (agrees_refuseParticles words).bind (fun _ ↦ ?_)
  split
  case _ w ws pieces hsplit =>
    split
    · exact agrees_throw _
    · have hpieces := ArePieces.of_splitBefore hwords hsplit
      exact (agrees_prepPhrases (fun q hq ↦ hpieces q (by simp [hq]))).bind (fun _ ↦ agrees_headed _ _)
  · exact agrees_throw _

theorem agrees_chain {words : List String} (hwords : Solid words) : Agrees lex (chain lex words) (chain lex words) :=
  agrees_piChain (fun _ h ↦ h) (fun _ h ↦ agrees_phrase h) hwords

theorem agrees_coordination {words : List String} (hwords : Solid words) :
    Agrees lex (coordination lex words) (coordination lex words) :=
  agrees_coordinationOver (fun _ h ↦ h) (fun _ h ↦ agrees_phrase h) hwords

theorem agrees_governor (clause : List String) : Agrees lex (governor clause) (governor clause) := by
  unfold governor
  split
  · split
    · exact agrees_pure _
    · exact agrees_throw _
  · exact agrees_throw _

theorem agrees_nominal {words : List String} (hwords : Solid words) :
    Agrees lex (nominal lex words) (nominal lex words) :=
  (agrees_chain hwords).bind (fun _ ↦ agrees_chainOfLinks _ _)

theorem agrees_predicateKind {words : List String} (hwords : Solid words) :
    Agrees lex (predicateKind lex words) (predicateKind lex words) := by
  cases words with
  | nil => exact agrees_pure none
  | cons w rest =>
    rw [predicateKind, predicateKind]
    split
    · exact (agrees_nominal (hwords.mono (fun v hv ↦ List.mem_cons_of_mem w hv))).map _
    split
    · exact (agrees_nominal hwords).map _
    · exact agrees_pure _

theorem agrees_object (clause : List String) {words : List String} (hwords : Solid words) :
    Agrees lex (object lex clause words) (object lex clause words) := by
  unfold object
  split
  · exact agrees_chain (hwords.mono (fun v hv ↦ List.mem_cons_of_mem _ hv))
  · exact agrees_throw _

theorem agrees_transitive {clause : List String} (hclause : Solid clause) :
    Agrees lex (transitive lex clause) (transitive lex clause) := by
  have hpart (part : List String) (hpart : part ∈ splitBefore isE clause) : Solid part :=
    hclause.mono (mem_of_mem_splitBefore hpart)
  unfold transitive
  split
  · exact agrees_throw _
  case _ verbPart objectParts hsplit =>
    refine (agrees_governor clause).bind (fun particle ↦ ?_)
    refine (agrees_predicateKind ?_).bind (fun kind ↦ ?_)
    · exact (hpart verbPart (by simp [hsplit])).mono (fun v hv ↦ List.mem_of_mem_drop hv)
    have hlast : Solid (objectParts.getLast?.getD []) := by
      cases hl : objectParts.getLast? with
      | none => exact fun w hw ↦ by simp at hw
      | some last => exact hpart last (by simp [hsplit, List.mem_of_getLast? hl])
    split
    · exact agrees_throw _
    case _ lastObject trailing hobject =>
      have hpieces := ArePieces.of_splitBefore hlast hobject
      refine (Agrees.mapM (fun part hmem ↦ agrees_object clause ?_)).bind (fun objects ↦ ?_)
      · rcases List.mem_append.1 hmem with hmem | hmem
        · exact hpart part (by simp [hsplit, (List.dropLast_sublist _).subset hmem])
        · rw [List.mem_singleton.1 hmem]
          exact (hpieces lastObject (by simp)).1
      refine (agrees_prepPhrases (fun q hq ↦ hpieces q (by simp [hq]))).bind (fun prepositions ↦ ?_)
      exact (agrees_chainOfLinks _ _).bind (fun _ ↦ agrees_pure _)

theorem agrees_intransitive {clause : List String} (hclause : Solid clause) :
    Agrees lex (intransitive lex clause) (intransitive lex clause) := by
  unfold intransitive
  split
  · exact agrees_throw _
  case _ verbPart pieces hsplit =>
    have hpieces := ArePieces.of_splitBefore hclause hsplit
    refine (agrees_governor clause).bind (fun particle ↦ ?_)
    refine (agrees_predicateKind ?_).bind (fun kind ↦ ?_)
    · exact (hpieces verbPart (by simp)).1.mono (fun v hv ↦ List.mem_of_mem_drop hv)
    refine (agrees_prepPhrases (fun q hq ↦ ?_)).bind (fun prepositions ↦ agrees_pure _)
    exact hpieces q (List.mem_cons_of_mem _ (mem_of_mem_settleVerb q hq))

theorem agrees_predicate {clause : List String} (hclause : Solid clause) :
    Agrees lex (predicate lex clause) (predicate lex clause) := by
  unfold predicate
  split
  · exact agrees_throw _
  split
  · exact agrees_transitive hclause
  · exact agrees_intransitive hclause

theorem agrees_addressees {runs : List (List String)} (hruns : ∀ run ∈ runs, Solid run) :
    Agrees lex (addressees lex runs) (addressees lex runs) :=
  Agrees.mapM (fun run hrun ↦ agrees_coordination (hruns run (List.mem_filter.1 hrun).1))

theorem solid_splitDropping {words : List String} (hwords : Solid words) (p : String → Bool) :
    ∀ run ∈ splitDropping p words, Solid run :=
  fun _ hrun ↦ hwords.mono (mem_of_mem_splitDropping hrun)

theorem agrees_openDoubleO (whole : List String) {before : List String} (hbefore : Solid before)
    (after : List String) : Agrees lex (openDoubleO lex whole before after) (openDoubleO lex whole before after) := by
  refine (agrees_addressees (solid_splitDropping hbefore _)).bind (fun vocatives ↦ ?_)
  split
  · exact agrees_pure _
  · exact agrees_throw _
  · exact agrees_pure _

theorem agrees_openCalls {words : List String} (hwords : Solid words) :
    Agrees lex (openCalls lex words) (openCalls lex words) := by
  refine (agrees_addressees (fun run hrun ↦ ?_)).bind (fun vocatives ↦ ?_)
  · have hrun' := (List.dropLast_sublist _).subset ((List.takeWhile_sublist _).subset hrun)
    exact solid_splitDropping hwords _ run hrun'
  dsimp only
  split
  · exact agrees_throw _
  · exact agrees_pure _

theorem agrees_openClause {words : List String} (hwords : Solid words) :
    Agrees lex (openClause lex words) (openClause lex words) := by
  unfold openClause
  split
  case _ w before after hsplit =>
    exact agrees_openDoubleO words (hwords.mono (mem_of_splitDoubleO hsplit).1) after
  all_goals
    split
    · exact agrees_openCalls hwords
    · exact agrees_pure _

theorem agrees_predication (whole : List String) (subject : Option Chain) {parts : List (List String)}
    (hparts : ∀ part ∈ parts, Solid part) :
    Agrees lex (predication lex whole subject parts) (predication lex whole subject parts) := by
  unfold predication
  split
  · exact agrees_throw _
  · exact (Agrees.mapM (fun part hpart ↦ agrees_predicate (hparts part hpart))).map _

theorem agrees_statement (whole : List String) {parts : List (List String)} (hparts : ∀ part ∈ parts, Solid part) :
    Agrees lex (statement lex whole parts) (statement lex whole parts) := by
  cases parts with
  | nil => exact agrees_predication whole none hparts
  | cons first rest =>
    rw [statement, statement]
    split
    · exact agrees_predication whole none hparts
    · exact (agrees_coordination (hparts first (by simp))).bind
        (fun subject ↦ agrees_predication whole _ (fun part hpart ↦ hparts part (by simp [hpart])))

theorem agrees_body (whole : List String) {parts : List (List String)} (hparts : ∀ part ∈ parts, Solid part) :
    Agrees lex (body lex whole parts) (body lex whole parts) := by
  unfold body
  split
  · split
    · exact agrees_pure _
    · exact agrees_statement whole hparts
  · split
    · exact (agrees_coordination (hparts _ (by simp))).map _
    · exact agrees_statement whole hparts
  · exact agrees_statement whole hparts

theorem agrees_openedClause (whole : List String) (mark : Option Punctuation) {rest : OpenedClause}
    (hrest : Solid rest.words) : Agrees lex (openedClause lex whole mark rest) (openedClause lex whole mark rest) := by
  unfold openedClause
  dsimp only
  split
  · exact agrees_throw _
  split
  · exact agrees_throw _
  split
  · exact agrees_throw _
  refine (agrees_body whole (fun part hpart ↦ ?_)).bind (fun b ↦ ?_)
  · exact hrest.mono (fun w hw ↦ mem_of_mem_takeConjunction (mem_of_mem_takeTag
      (mem_of_mem_takeMood (mem_of_mem_splitBefore hpart w hw))))
  · cases b <;> exact agrees_pure _

theorem agrees_clause {words : List String} (hwords : Solid words) (mark : Option Punctuation) :
    Agrees lex (clause lex words mark) (clause lex words mark) := by
  refine (agrees_openClause hwords).bind_ok (fun o ho ↦ ?_)
  cases o with
  | call addressee => exact agrees_pure _
  | clause rest =>
    apply agrees_openedClause
    intro w hw
    have hplace : Solid placeholderSubject := by decide
    rcases (openClause_eq_ok.1 ho).mem_words w hw with hw | hw | rfl
    · exact hwords w hw
    · exact hplace w hw
    · exact Particle.isSolid_word .o

theorem agrees_withContext (found : Context) (s : Sentence) :
    Agrees lex (withContext found s) (withContext found s) := by
  unfold withContext
  split
  · exact agrees_pure _
  · exact agrees_throw _

theorem agrees_conditional (preconditions : List Sentence) (conclusion : Sentence) :
    Agrees lex (conditional preconditions conclusion) (conditional preconditions conclusion) := by
  unfold conditional
  split
  · exact agrees_throw _
  · exact agrees_pure _

theorem agrees_context {words : List String} (hwords : Solid words) :
    Agrees lex (context lex words) (context lex words) := by
  unfold context
  split
  · apply Agrees.map
    cases hs : splitBefore Word.isPreposition words with
    | nil => exact agrees_pure []
    | cons first pieces => exact agrees_prepPhrases (.of_splitBefore hwords hs)
  · exact (agrees_coordination hwords).map _

theorem agrees_attach (shown : String) {words : List String} (hwords : Solid words)
    (read : List Sentence × Sentence) : Agrees lex (attach lex shown words read) (attach lex shown words read) := by
  obtain ⟨preconditions, conclusion⟩ := read
  rw [attach, attach]
  split
  · exact agrees_throw _
  split
  · exact (agrees_clause hwords none).bind (fun _ ↦ agrees_pure _)
  refine (agrees_context hwords).bind (fun found ↦ ?_)
  cases preconditions with
  | nil => exact (agrees_withContext found _).bind (fun _ ↦ agrees_pure _)
  | cons nearest others => exact (agrees_withContext found _).bind (fun _ ↦ agrees_pure _)

theorem agrees_clauses (mark : Punctuation) (shown : String) {parts : List (List String)}
    (hparts : ∀ part ∈ parts, Solid part) :
    Agrees lex (clauses lex mark shown parts) (clauses lex mark shown parts) := by
  induction parts with
  | nil => exact agrees_throw _
  | cons first rest ih =>
    have hfirst := hparts first (by simp)
    cases rest with
    | nil => exact (agrees_clause hfirst _).bind (fun _ ↦ agrees_pure _)
    | cons second rest =>
      rw [clauses_cons_cons, clauses_cons_cons]
      exact (ih (fun part hpart ↦ hparts part (by simp [hpart]))).bind (fun read ↦ agrees_attach shown hfirst read)

theorem agrees_sentence {words : List String} (hwords : Solid words) (mark : Punctuation) (shown : String) :
    Agrees lex (sentence lex words mark shown) (sentence lex words mark shown) := by
  have hparts (part : List String) (hpart : part ∈ splitBefore isLa words) : Solid part :=
    hwords.mono (mem_of_mem_splitBefore hpart)
  unfold sentence
  dsimp only
  split
  case _ first second last hsplit hlast => exact (agrees_coordination (hparts first (by simp [hsplit]))).map _
  · exact agrees_throw _
  · refine (agrees_clauses mark shown (fun part hpart ↦ ?_)).bind (fun read ↦ ?_)
    · obtain ⟨part, hmem, rfl⟩ := List.mem_map.1 hpart
      intro w hw
      rcases mem_withImpliedLi hw with hw | rfl
      · exact hparts part hmem w (mem_of_mem_stripLeading hw)
      · exact Particle.isSolid_word .li
    · split
      · exact agrees_pure _
      · exact agrees_conditional _ _

theorem agrees_plainWords (text : String) (tokens : List Token) :
    Agrees lex (plainWords text tokens) (plainWords text tokens) := by
  induction tokens with
  | nil => exact agrees_pure []
  | cons t rest ih =>
    rw [plainWords, plainWords]
    split
    · split
      · exact ih
      · exact agrees_throw _
    · exact ih.map _

theorem agrees_read (g : Grammar) (text shown : String) :
    Agrees g.lexicon (g.read text shown) (g.parse text shown) := by
  unfold Grammar.parse Grammar.read
  dsimp only
  split
  · exact agrees_throw _
  split
  · exact agrees_throw _
  split
  · exact agrees_pure _
  split
  · exact agrees_throw _
  split
  · exact agrees_throw _
  split
  · exact agrees_throw _
  have hwords : Agrees g.lexicon (sentenceWords text (tokenize text)) (sentenceWords text (tokenize text)) :=
    (agrees_plainWords text _).bind (fun _ ↦ agrees_pure _)
  refine hwords.bind_ok (fun found hfound ↦ ?_)
  obtain ⟨words, mark⟩ := found
  dsimp only
  split
  · exact agrees_throw _
  · exact agrees_sentence (words_of_sentenceWords hfound ▸ solid_wordsOf text) _ _

end Reading

/-- The memories that readers with the given lexicon can come to have, whatever they read and in whatever dialect. -/
inductive Memory.IsReachable (lex : Lexicon) : Memory → Prop
  | empty : IsReachable lex .empty
  | parse (dialect : Dialect) (text shown : String) {memory : Memory} : IsReachable lex memory →
      IsReachable lex (Grammar.parseWith ⟨lex, dialect⟩ text shown memory).2

theorem Memory.IsReachable.isSound {lex : Lexicon} {memory : Memory} (h : memory.IsReachable lex) :
    memory.IsSound lex := by
  induction h with
  | empty => exact isSound_empty lex
  | parse dialect text shown _ ih => exact (Reading.agrees_read ⟨lex, dialect⟩ text shown _ ih).2

/-- What was read before never shows: from every reachable memory, reading gives what it gives from the empty memory,
which is what it gives without one. -/
theorem Grammar.parseWith_of_isReachable (g : Grammar) (text shown : String) {memory : Memory}
    (h : memory.IsReachable g.lexicon) :
    (g.parseWith text shown memory).1 = g.parse text shown ∧
      (g.parseWith text shown memory).1 = (g.parseWith text shown .empty).1 := by
  have hread := Reading.agrees_read g text shown
  have hempty := (hread .empty (Memory.isSound_empty _)).1
  have hmemory := (hread memory h.isSound).1
  exact ⟨hmemory, hmemory.trans hempty.symm⟩

/-- A sentence that failed on its object leaves both readings of its subject behind for the next one. -/
theorem Grammar.parseWith_after_failure :
    let g : Grammar := ⟨Vocabulary.standard.lexicon, .strict⟩
    let memory := (g.parseWith "kule pi walo en pimeja li moku e." "" .empty).2
    let text := "kule pi walo en pimeja li pona."
    memory.IsReachable g.lexicon ∧ memory.size = 6 ∧ (g.parseWith text text memory).1 = g.parse text text ∧
      (g.parseWith text text memory).1 = (g.parseWith text text .empty).1 := by
  intro g memory text
  have h : memory.IsReachable g.lexicon := .parse .strict _ _ .empty
  exact ⟨h, by decide +kernel, g.parseWith_of_isReachable text text h⟩

end TokiPona
