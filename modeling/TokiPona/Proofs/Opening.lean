import Mathlib.Data.List.Chain
import TokiPona.Reading.Clause
import TokiPona.Proofs.Reader

namespace TokiPona.Reading

theorem mem_of_splitDoubleO {words before after : List String} (h : splitDoubleO words = some (before, after)) :
    (∀ w ∈ before, w ∈ words) ∧ ∀ w ∈ after, w ∈ words := by
  fun_induction splitDoubleO words generalizing before after with
  | case1 v w rest hvw =>
    obtain ⟨rfl, rfl⟩ := Prod.mk.inj (Option.some.inj h)
    simp +contextual
  | case2 v w rest hvw ih =>
    obtain ⟨⟨b, a⟩, hba, heq⟩ := Option.map_eq_some_iff.1 h
    obtain ⟨rfl, rfl⟩ := Prod.mk.inj heq
    obtain ⟨hb, ha⟩ := ih hba
    refine ⟨fun u hu ↦ ?_, fun u hu ↦ List.mem_cons_of_mem _ (ha u hu)⟩
    rcases List.mem_cons.1 hu with rfl | hu
    · simp
    · exact List.mem_cons_of_mem _ (hb u hu)
  | case3 => simp at h

theorem isO_word : isO Particle.o.word = true := by decide

theorem eq_of_isO (w : String) (h : isO w = true) : w = Particle.o.word := by simpa [isO] using h

theorem isO_eq_false {w : String} : isO w = false ↔ w ≠ Particle.o.word := by simp [isO]

theorem eq_of_splitDoubleO {words before after : List String} (h : splitDoubleO words = some (before, after)) :
    words = before ++ Particle.o.word :: Particle.o.word :: after := by
  fun_induction splitDoubleO words generalizing before after with
  | case1 v w rest hvw =>
    obtain ⟨rfl, rfl⟩ := Prod.mk.inj (Option.some.inj h)
    simp only [Bool.and_eq_true] at hvw
    rw [eq_of_isO v hvw.1, eq_of_isO w hvw.2]
    rfl
  | case2 v w rest hvw ih =>
    obtain ⟨⟨before', after'⟩, hsplit, heq⟩ := Option.map_eq_some_iff.1 h
    obtain ⟨rfl, rfl⟩ := Prod.mk.inj heq
    rw [ih hsplit]
    rfl
  | case3 => simp at h

def Spread (words : List String) : Prop := words.IsChain fun v w ↦ isO v = true → isO w = false

theorem Spread.of_forall {words : List String} (h : ∀ w ∈ words, isO w = false) : Spread words := by
  induction words with
  | nil => exact .nil
  | cons v words ih =>
    cases words with
    | nil => exact .singleton v
    | cons w words => exact .cons_cons (fun _ ↦ h w (by simp)) (ih (fun u hu ↦ h u (by simp [hu])))

theorem Spread.append {words words' : List String} (h : Spread words) (h' : Spread words')
    (hmeet : (∀ w ∈ words.getLast?, isO w = false) ∨ ∀ w ∈ words'.head?, isO w = false) : Spread (words ++ words') := by
  refine List.isChain_append.2 ⟨h, h', fun v hv w hw ho ↦ ?_⟩
  rcases hmeet with hlast | hhead
  · simp [hlast v hv] at ho
  · exact hhead w hw

theorem Spread.cons {words : List String} (h : Spread words) (w : String) (hhead : ∀ v ∈ words.head?, isO v = false) :
    Spread (w :: words) :=
  Spread.append (.singleton w : Spread [w]) h (.inr hhead)

theorem spread_intercalate {runs : List (List String)} (h : ∀ run ∈ runs, run ≠ [] ∧ ∀ w ∈ run, isO w = false) :
    Spread ([Particle.o.word].intercalate runs) := by
  induction runs with
  | nil => exact .nil
  | cons run runs ih =>
    obtain ⟨-, hrun⟩ := h run (by simp)
    cases runs with
    | nil => simpa using Spread.of_forall hrun
    | cons run' runs =>
      obtain ⟨hne', hrun'⟩ := h run' (by simp)
      obtain ⟨w, run', rfl⟩ := List.exists_cons_of_ne_nil hne'
      rw [List.intercalate_cons_of_ne_nil (by simp), List.append_assoc]
      refine (Spread.of_forall hrun).append ((ih (fun q hq ↦ h q (by simp [hq]))).cons _ fun v hv ↦ ?_)
        (.inl fun v hv ↦ hrun v (List.mem_of_getLast? hv))
      rw [List.intercalate_cons_cons_left] at hv
      obtain rfl : w = v := by simpa using hv
      exact hrun' w (by simp)

theorem hasInnerO_eq_false {words : List String} (h : Particle.o.word ∉ words.tail) : hasInnerO words = false := by
  rw [hasInnerO, List.any_eq_false]
  intro w hw ho
  rw [List.drop_one] at hw
  exact h (eq_of_isO w ho ▸ List.dropLast_subset _ hw)

theorem hasInnerO_append {first last : List String} (hfirst : first ≠ []) (hlast : last ≠ []) :
    hasInnerO (first ++ Particle.o.word :: last) = true := by
  obtain ⟨w, first, rfl⟩ := List.exists_cons_of_ne_nil hfirst
  rw [hasInnerO, List.any_eq_true]
  refine ⟨Particle.o.word, ?_, isO_word⟩
  rw [List.cons_append, List.drop_one, List.tail_cons, List.dropLast_append_of_ne_nil (by simp),
    List.dropLast_cons_of_ne_nil hlast]
  simp

theorem splitDoubleO_of_spread {words : List String} (h : Spread words) : splitDoubleO words = none := by
  fun_induction splitDoubleO words with
  | case1 v w rest hvw =>
    obtain ⟨hv, hw⟩ := Bool.and_eq_true_iff.1 hvw
    exact absurd ((List.isChain_cons_cons.1 h).1 hv) (by simp [hw])
  | case2 v w rest hvw ih => simp [ih (List.isChain_cons_cons.1 h).2]
  | case3 => rfl

theorem splitDoubleO_append {before : List String} (h : Spread before) (hlast : ∀ w ∈ before.getLast?, isO w = false)
    (after : List String) :
    splitDoubleO (before ++ Particle.o.word :: Particle.o.word :: after) = some (before, after) := by
  induction before with
  | nil => simp [splitDoubleO, isO_word]
  | cons v before ih =>
    cases before with
    | nil =>
      have hv : isO v = false := hlast v (by simp)
      simp [splitDoubleO, hv, isO_word]
    | cons w before =>
      obtain ⟨hvw, hrest⟩ := List.isChain_cons_cons.1 h
      have ih' := ih hrest (by simpa using hlast)
      have hne : (isO v && isO w) = false := by
        cases hv : isO v
        · rfl
        · simpa using hvw hv
      simp only [List.cons_append] at ih' ⊢
      rw [splitDoubleO, hne, if_neg (by simp), ih']
      rfl

theorem exists_not_isO_of_splitDoubleO {words before after : List String}
    (h : splitDoubleO words = some (before, after)) (hne : before ≠ []) : ∃ w ∈ before, isO w = false := by
  fun_induction splitDoubleO words generalizing before after with
  | case1 v w rest hvw =>
    obtain ⟨rfl, rfl⟩ := Prod.mk.inj (Option.some.inj h)
    exact absurd rfl hne
  | case2 v w rest hvw ih =>
    obtain ⟨⟨b, a⟩, hba, heq⟩ := Option.map_eq_some_iff.1 h
    obtain ⟨rfl, rfl⟩ := Prod.mk.inj heq
    cases hv : isO v with
    | false => exact ⟨v, by simp, hv⟩
    | true =>
      have hw : isO w = false := by simpa [hv] using hvw
      refine ⟨w, List.mem_cons_of_mem _ ?_, hw⟩
      cases rest with
      | nil => simp [splitDoubleO] at hba
      | cons u rest =>
        rw [splitDoubleO, hw, if_neg (by simp)] at hba
        obtain ⟨⟨b', a'⟩, -, heq⟩ := Option.map_eq_some_iff.1 hba
        obtain ⟨rfl, rfl⟩ := Prod.mk.inj heq
        simp
  | case3 => simp at h

theorem mem_of_mem_afterLastO {words : List String} {w : String} (h : w ∈ afterLastO words) : w ∈ words := by
  unfold afterLastO at h
  cases hl : (splitDropping isO words).getLast? with
  | none => simp [hl] at h
  | some run =>
    rw [hl] at h
    exact mem_of_mem_splitDropping (List.mem_of_getLast? hl) w h

def NoCommand (words : List String) : Prop := ∀ before after, splitDoubleO words = some (before, after) → before = []

/-- The runs that call someone, as long as they are no clauses themselves. -/
def callRuns (words : List String) : List (List String) :=
  (splitDropping isO words).dropLast.takeWhile fun run ↦ !Particle.li.isIn run && !Particle.e.isIn run

/-- The runs between calls that are passed over, from the first that is a clause on. -/
def passedOver (words : List String) : List (List String) :=
  (splitDropping isO words).dropLast.dropWhile fun run ↦ !Particle.li.isIn run && !Particle.e.isIn run

theorem words_eq_calls (words : List String) : words = (callRuns words).flatMap (· ++ [Particle.o.word]) ++
    ((passedOver words).flatMap (· ++ [Particle.o.word]) ++ afterLastO words) := by
  obtain ⟨init, last, heq⟩ : ∃ init last, splitDropping isO words = init ++ [last] :=
    ⟨_, _, (List.dropLast_concat_getLast (splitDropping_ne_nil isO words)).symm⟩
  have hinit : callRuns words ++ passedOver words = init := by
    rw [callRuns, passedOver, List.takeWhile_append_dropWhile, heq, List.dropLast_concat]
  have hafter : afterLastO words = last := by simp [afterLastO, heq]
  rw [hafter, ← List.append_assoc, ← List.flatMap_append, hinit, ← intercalate_eq_flatMap, ← heq,
    intercalate_splitDropping eq_of_isO]

inductive Opened (lex : Lexicon) (words : List String) : Opening → Prop
  /-- `jan Mato o o!` -/
  | call (before : List String) (addressee : Chain) : splitDoubleO words = some (before, []) → before ≠ [] →
      (addressees lex (splitDropping isO before) : Except ParseError (List Chain)) = .ok [addressee] →
      Opened lex words (.call addressee)
  /-- `jan Mato o o moku!` -/
  | command (before after : List String) (vocatives : List Chain) : splitDoubleO words = some (before, after) →
      before ≠ [] → after ≠ [] →
      (addressees lex (splitDropping isO before) : Except ParseError (List Chain)) = .ok vocatives →
      Opened lex words (.clause ⟨vocatives, .imperative, true, placeholderSubject ++ Particle.o.word :: after⟩)
  /-- `jan Sonja o, mi li moku.` -/
  | calls (vocatives : List Chain) : NoCommand words → hasInnerO words = true → Particle.li.isIn words = true →
      (addressees lex (callRuns words) : Except ParseError (List Chain)) = .ok vocatives →
      ((afterLastO words).head?.bind Particle.ofWord?).filter Particle.isStructural = none →
      Opened lex words (.clause { vocatives, words := afterLastO words })
  | plain : NoCommand words → (hasInnerO words && Particle.li.isIn words) = false →
      Opened lex words (.clause { words })

theorem Opened.of_spread {lex : Lexicon} {words : List String} (hspread : Spread words)
    (h : hasInnerO words = false ∨ Particle.li.word ∉ words) : Opened lex words (.clause { words }) := by
  refine .plain (fun before after hsplit ↦ ?_) ?_
  · simp [splitDoubleO_of_spread hspread] at hsplit
  · rcases h with ho | hli
    · simp [ho]
    · simp [Particle.isIn, hli]

theorem openDoubleO_eq_ok {lex : Lexicon} {whole before after : List String} {o : Opening} :
    (openDoubleO lex whole before after : Except ParseError Opening) = .ok o ↔
      ∃ vocatives, (addressees lex (splitDropping isO before) : Except ParseError (List Chain)) = .ok vocatives ∧
        ((after = [] ∧ ∃ addressee, vocatives = [addressee] ∧ o = .call addressee) ∨
          (after ≠ [] ∧
            o = .clause ⟨vocatives, .imperative, true, placeholderSubject ++ Particle.o.word :: after⟩)) := by
  rw [openDoubleO, bind_eq_ok]
  refine exists_congr (fun vocatives ↦ and_congr_right (fun _ ↦ ?_))
  match after, vocatives with
  | [], [addressee] => simpa using eq_comm
  | [], [] => simp
  | [], _ :: _ :: _ => simp
  | _ :: _, _ => simpa using eq_comm

theorem openCalls_eq_ok {lex : Lexicon} {words : List String} {o : Opening} :
    (openCalls lex words : Except ParseError Opening) = .ok o ↔
      ∃ vocatives, (addressees lex (callRuns words) : Except ParseError (List Chain)) = .ok vocatives ∧
        ((afterLastO words).head?.bind Particle.ofWord?).filter Particle.isStructural = none ∧
        o = .clause { vocatives, words := afterLastO words } := by
  rw [openCalls, bind_eq_ok]
  refine exists_congr (fun vocatives ↦ and_congr_right (fun _ ↦ ?_))
  dsimp only
  cases ((afterLastO words).head?.bind Particle.ofWord?).filter Particle.isStructural with
  | some p => simp
  | none => simpa using eq_comm

theorem openClause_of_noCommand {lex : Lexicon} {words : List String} (h : NoCommand words) :
    (openClause lex words : Except ParseError Opening) =
      if (hasInnerO words && Particle.li.isIn words) = true then openCalls lex words else pure (.clause { words }) := by
  unfold openClause
  split
  case _ w before after hsplit => exact absurd (h _ _ hsplit) (by simp)
  · rfl
  · rfl

theorem openClause_of_command {lex : Lexicon} {words before after : List String}
    (h : splitDoubleO words = some (before, after)) (hne : before ≠ []) :
    (openClause lex words : Except ParseError Opening) = openDoubleO lex words before after := by
  obtain ⟨w, before, rfl⟩ := List.exists_cons_of_ne_nil hne
  rw [openClause, h]

theorem openClause_eq_ok {lex : Lexicon} {words : List String} {o : Opening} :
    (openClause lex words : Except ParseError Opening) = .ok o ↔ Opened lex words o := by
  constructor
  · intro h
    by_cases hno : NoCommand words
    · rw [openClause_of_noCommand hno] at h
      split at h
      case isTrue hinner =>
        obtain ⟨vocatives, hv, hhead, rfl⟩ := openCalls_eq_ok.1 h
        obtain ⟨ho, hli⟩ := Bool.and_eq_true_iff.1 hinner
        exact .calls vocatives hno ho hli hv hhead
      case isFalse hinner =>
        obtain rfl := pure_eq_ok.1 h
        exact .plain hno (by simpa using hinner)
    · simp only [NoCommand, not_forall] at hno
      obtain ⟨before, after, hsplit, hne⟩ := hno
      rw [openClause_of_command hsplit hne] at h
      obtain ⟨vocatives, hv, ⟨rfl, addressee, rfl, rfl⟩ | ⟨hafter, rfl⟩⟩ := openDoubleO_eq_ok.1 h
      · exact .call before addressee hsplit hne hv
      · exact .command before after vocatives hsplit hne hafter hv
  · intro h
    cases h with
    | call before addressee hsplit hne hv =>
      rw [openClause_of_command hsplit hne, openDoubleO_eq_ok]
      exact ⟨_, hv, .inl ⟨rfl, addressee, rfl, rfl⟩⟩
    | command before after vocatives hsplit hne hafter hv =>
      rw [openClause_of_command hsplit hne, openDoubleO_eq_ok]
      exact ⟨vocatives, hv, .inr ⟨hafter, rfl⟩⟩
    | calls vocatives hno ho hli hv hhead =>
      rw [openClause_of_noCommand hno, if_pos (Bool.and_eq_true_iff.2 ⟨ho, hli⟩), openCalls_eq_ok]
      exact ⟨vocatives, hv, hhead, rfl⟩
    | plain hno hinner =>
      rw [openClause_of_noCommand hno, if_neg (by simp [hinner])]
      rfl

theorem Opened.mem_words {lex : Lexicon} {words : List String} {rest : OpenedClause}
    (h : Opened lex words (.clause rest)) :
    ∀ w ∈ rest.words, w ∈ words ∨ w ∈ placeholderSubject ∨ w = Particle.o.word := by
  intro w hw
  cases h with
  | command before after vocatives hsplit hne hafter hv =>
    rcases List.mem_append.1 hw with hw | hw
    · exact .inr (.inl hw)
    · rcases List.mem_cons.1 hw with rfl | hw
      · exact .inr (.inr rfl)
      · exact .inl ((mem_of_splitDoubleO hsplit).2 w hw)
  | calls => exact .inl (mem_of_mem_afterLastO hw)
  | plain => exact .inl hw

end TokiPona.Reading
