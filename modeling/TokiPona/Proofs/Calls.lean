import TokiPona.Proofs.Formed
import TokiPona.Proofs.Recall

namespace TokiPona

/-- Those called are put into a simple sentence; no other sentence has a place for them. -/
def Sentence.withVocatives (vocatives : List Chain) : Sentence → Sentence
  | .simple s => .simple { s with vocatives }
  | other => other

namespace Reading

variable {lex : Lexicon} {runs : List (List String)} {words : List String}

/-- `a o b o words`: each of the runs is called before the words. -/
def called (runs : List (List String)) (words : List String) : List String :=
  runs.flatMap (· ++ [Particle.o.word]) ++ words

/-- Runs that can only call someone, before a clause that can only be told. -/
structure Calls (runs : List (List String)) (words : List String) : Prop where
  runs_ne_nil : runs ≠ []
  run_ne_nil : ∀ run ∈ runs, run ≠ []
  run : ∀ run ∈ runs, ∀ p ∈ [Particle.o, .li, .e, .la], p.word ∉ run
  li_mem : Particle.li.word ∈ words
  o_notMem : Particle.o.word ∉ words
  la_notMem : Particle.la.word ∉ words
  head : ∀ w ∈ words.head?, ¬ IsStructural w

/-- `taso li a kin`: the one clause with a `li` that is no statement, where the lexicon has `li` as an interjection. -/
def ExclaimsLi (lex : Lexicon) (words : List String) : Prop :=
  lex.isInterjection Particle.li.word = true ∧ ∃ (p : Particle) (rest : List String) (tagQuestion : Bool),
    p.isConjunction = true ∧ rest ≠ [] ∧ (∀ v ∈ rest, v = Particle.a.word ∨ v = Particle.kin.word) ∧
      words = p.word :: Particle.li.word :: rest ++ if tagQuestion then tag else []

theorem called_eq_intercalate (runs : List (List String)) (words : List String) :
    called runs words = [Particle.o.word].intercalate (runs ++ [words]) :=
  (intercalate_eq_flatMap Particle.o.word runs words).symm

theorem Calls.words_ne_nil (h : Calls runs words) : words ≠ [] := List.ne_nil_of_mem h.li_mem

theorem Calls.pieces (h : Calls runs words) : ∀ run ∈ runs ++ [words], run ≠ [] ∧ ∀ w ∈ run, isO w = false := by
  intro run hrun
  have ho : run ≠ [] ∧ Particle.o.word ∉ run := by
    rcases List.mem_append.1 hrun with hrun | hrun
    · exact ⟨h.run_ne_nil run hrun, h.run run hrun .o (by simp)⟩
    · rw [List.mem_singleton.1 hrun]
      exact ⟨h.words_ne_nil, h.o_notMem⟩
  refine ⟨ho.1, fun w hw ↦ isO_eq_false.2 ?_⟩
  rintro rfl
  exact ho.2 hw

theorem Calls.splitDropping_called (h : Calls runs words) : splitDropping isO (called runs words) = runs ++ [words] := by
  rw [called_eq_intercalate]
  exact splitDropping_intercalate isO_word (by simp) (fun run hrun ↦ (h.pieces run hrun).2)

theorem Calls.callRuns_called (h : Calls runs words) : callRuns (called runs words) = runs := by
  rw [callRuns, h.splitDropping_called, List.dropLast_concat, List.takeWhile_eq_self_iff]
  intro run hrun
  have hli := Particle.isIn_eq_false.2 (h.run run hrun .li (by simp))
  have he := Particle.isIn_eq_false.2 (h.run run hrun .e (by simp))
  simp [hli, he]

theorem Calls.noCommand_called (h : Calls runs words) : NoCommand (called runs words) := by
  intro before after hsplit
  rw [called_eq_intercalate, splitDoubleO_of_spread (spread_intercalate h.pieces)] at hsplit
  simp at hsplit

theorem Calls.hasInnerO_called (h : Calls runs words) : hasInnerO (called runs words) = true := by
  rw [called_eq_intercalate, intercalate_concat _ h.runs_ne_nil]
  exact hasInnerO_append (intercalate_ne_nil _ h.runs_ne_nil h.run_ne_nil) h.words_ne_nil

theorem Calls.structural_head (h : Calls runs words) :
    (words.head?.bind Particle.ofWord?).filter Particle.isStructural = none := by
  rw [Option.filter_eq_none_iff]
  intro p hp hstructural
  obtain ⟨w, hw, hword⟩ := Option.bind_eq_some_iff.1 hp
  exact h.head w hw ⟨p, hstructural, (Particle.word_of_ofWord? hword).symm⟩

theorem Calls.addressees_eq (h : Calls runs words) :
    (addressees lex runs : Except ParseError (List Chain)) = runs.mapM (coordination lex) := by
  rw [addressees, List.filter_eq_self.2]
  exact fun run hrun ↦ by simpa using h.run_ne_nil run hrun

theorem Calls.clause_called (h : Calls runs words) {mark : Option Punctuation} {s : Sentence} :
    (clause lex (called runs words) mark : Except ParseError Sentence) = .ok s ↔
      ∃ vocatives, List.Forall₂ (fun run c ↦ (coordination lex run : Except ParseError Chain) = .ok c) runs vocatives ∧
        ReadsOpened lex mark { vocatives, words } s := by
  have hli : Particle.li.isIn (called runs words) = true := Particle.isIn_iff.2 (by simp [called, h.li_mem])
  have hafter : afterLastO (called runs words) = words := by simp [afterLastO, h.splitDropping_called]
  have hopen : (openClause lex (called runs words) : Except ParseError Opening) = openCalls lex (called runs words) := by
    rw [openClause_of_noCommand h.noCommand_called, h.hasInnerO_called, hli]
    rfl
  rw [clause, bind_eq_ok]
  simp only [hopen, openCalls_eq_ok, h.callRuns_called, h.addressees_eq, mapM_eq_ok, hafter, h.structural_head]
  constructor
  · rintro ⟨o, ⟨vocatives, hvocatives, -, rfl⟩, hs⟩
    exact ⟨vocatives, hvocatives, openedClause_eq_ok.1 hs⟩
  · rintro ⟨vocatives, hvocatives, hs⟩
    exact ⟨_, ⟨vocatives, hvocatives, trivial, rfl⟩, openedClause_eq_ok.2 hs⟩

theorem Calls.clause_alone (h : Calls runs words) {mark : Option Punctuation} {s : Sentence} :
    (clause lex words mark : Except ParseError Sentence) = .ok s ↔ ReadsOpened lex mark { words } s := by
  have hspread : Spread words := .of_forall fun w hw ↦ (h.pieces words (by simp)).2 w hw
  have hinner : hasInnerO words = false := hasInnerO_eq_false (fun hmem ↦ h.o_notMem (List.mem_of_mem_tail hmem))
  have hopened : Opened lex words (.clause { words }) := .of_spread hspread (.inl hinner)
  rw [clause, openClause_eq_ok.2 hopened]
  exact openedClause_eq_ok

theorem Body.sentence_withVocatives (b : Body) (mark : Option Punctuation) (vocatives : List Chain) (words : List String)
    (conjunction : Option Particle) (tagQuestion : Bool) (mood : Mood) :
    b.sentence mark { vocatives, words } conjunction tagQuestion mood =
      (b.sentence mark { words } conjunction tagQuestion mood).withVocatives vocatives := by
  cases b <;> rfl

theorem readsOpened_withVocatives {mark : Option Punctuation} {vocatives : List Chain} {s : Sentence} :
    ReadsOpened lex mark { vocatives, words } s ↔
      ∃ s', ReadsOpened lex mark { words } s' ∧ s = s'.withVocatives vocatives := by
  constructor
  · rintro ⟨hconj, htag, hmood, hlast, hla, hne, hbody⟩
    exact ⟨_, .intro hconj htag hmood hlast hla hne hbody, Body.sentence_withVocatives ..⟩
  · rintro ⟨s', ⟨hconj, htag, hmood, hlast, hla, hne, hbody⟩, rfl⟩
    rw [← Body.sentence_withVocatives]
    exact .intro hconj htag hmood hlast hla hne hbody

section

variable {conjunction : Option Particle} {tagQuestion : Bool} {unjoined untagged : List String}

theorem untagged_of_exclaimsLi (h : ExclaimsLi lex words) (hconj : takeConjunction words = (conjunction, unjoined))
    (htag : takeTag unjoined = (tagQuestion, untagged)) :
    ∃ rest, untagged = Particle.li.word :: rest ∧ ∀ v ∈ rest, isGovernor v = false := by
  obtain ⟨-, p, rest, tagged, hp, -, hrest, rfl⟩ := h
  have hplain : ∀ v ∈ rest, v ≠ Particle.anu.word ∧ isGovernor v = false := by
    intro v hv
    rcases hrest v hv with rfl | rfl
    · decide
    · decide
  obtain ⟨-, rfl⟩ := Prod.mk.inj (hconj.symm.trans (takeConjunction_cons hp (by simp)))
  refine ⟨rest, ?_, fun v hv ↦ (hplain v hv).2⟩
  cases tagged with
  | true => exact (Prod.mk.inj (htag.symm.trans (takeTag_append (by simp)))).2
  | false =>
    have hnot : ¬ EndsInTag (Particle.li.word :: rest) := by
      rintro ⟨init, -, heq⟩
      have hmem : Particle.anu.word ∈ Particle.li.word :: rest := by simp [heq, tag]
      rcases List.mem_cons.1 hmem with hanu | hanu
      · exact absurd hanu (by decide)
      · exact (hplain _ hanu).1 rfl
    have htake : takeTag (Particle.li.word :: rest ++ []) = (false, Particle.li.word :: rest) := by
      rw [List.append_nil]
      exact takeTag_of_not hnot
    exact (Prod.mk.inj (htag.symm.trans htake)).2

theorem Calls.exclaimsLi (h : Calls runs words) (hconj : takeConjunction words = (conjunction, unjoined))
    (htag : takeTag unjoined = (tagQuestion, untagged)) (hli : Particle.li.word ∈ untagged)
    (hlast : untagged.getLast? ≠ some Particle.li.word) {phrase : Phrase}
    (hphrase : exclamation lex untagged = some phrase) : ExclaimsLi lex words := by
  obtain ⟨w, rest, rfl, hw, hrest, -⟩ := exclamation_eq_some.1 hphrase
  have hopens : w = Particle.li.word := by
    rcases List.mem_cons.1 hli with heq | hmem
    · exact heq.symm
    · rcases hrest _ hmem with heq | heq
      · exact absurd heq (by decide)
      · exact absurd heq (by decide)
  subst hopens
  obtain ⟨hp, hwords, -⟩ := takeConjunction_eq hconj
  obtain ⟨hunjoined, -⟩ := takeTag_eq htag
  cases conjunction with
  | none =>
    have hhead : words.head? = some Particle.li.word := by simp [hwords, hunjoined]
    exact absurd ⟨.li, rfl, rfl⟩ (h.head _ hhead)
  | some p =>
    refine ⟨hw, p, rest, tagQuestion, hp p rfl, ?_, hrest, by rw [hwords, hunjoined]; rfl⟩
    rintro rfl
    exact hlast rfl

end

theorem Calls.simple_or_exclaims (h : Calls runs words) {mark : Option Punctuation} {s : Sentence}
    (hread : ReadsOpened lex mark { words } s) :
    (∃ t, s = .simple t) ∧ ¬ ExclaimsLi lex words ∨
      (∃ phrase, s = .exclamation phrase mark) ∧ ExclaimsLi lex words := by
  obtain ⟨hconj, htag, hmood, hlast, -, -, hbody⟩ := hread
  rename_i conjunction tagQuestion mood unjoined untagged core b
  have hli := li_mem_core hconj htag hmood h.li_mem
  have ho : Particle.o.word ∉ untagged := by
    intro hmem
    have hwords : words = conjunction.toList.map Particle.word ++ unjoined := (takeConjunction_eq hconj).2.1
    obtain ⟨hunjoined, -⟩ := takeTag_eq htag
    exact h.o_notMem (by simp [hwords, hunjoined, hmem])
  obtain ⟨rfl, rfl⟩ : .declarative = mood ∧ untagged = core :=
    Prod.mk.inj ((takeMood_of_head_ne (fun hhead ↦ ho (List.mem_of_head? hhead))).symm.trans hmood)
  have hflat := flatten_splitBefore isGovernor untagged
  generalize hparts : splitBefore isGovernor untagged = parts at hbody hflat
  cases hbody with
  | exclamation hphrase =>
    rw [List.flatten_singleton] at hflat
    subst hflat
    exact .inr ⟨⟨_, rfl⟩, h.exclaimsLi hconj htag hli hlast hphrase⟩
  | call _ =>
    refine absurd ?_ ho
    rw [← hflat]
    simp
  | @command first rest _ hfirst _ _ =>
    refine absurd ?_ ho
    rw [← hflat]
    simp [List.mem_of_head? hfirst]
  | @statement first rest _ _ _ hne _ =>
    refine .inl ⟨⟨_, rfl⟩, fun hexclaims ↦ hne ?_⟩
    obtain ⟨others, rfl, hothers⟩ := untagged_of_exclaimsLi hexclaims hconj htag
    rw [splitBefore_of_tail (by simp) hothers] at hparts
    exact (List.cons.inj hparts).2.symm

/-- A clause with `li` behind calls. It is read exactly where each run that is called and the clause alone are, and then
its sentence is that of the clause alone with those called put into it. That is a simple sentence with nothing else
changed, except where the clause exclaims its `li` and those called are lost. A memory makes no difference. -/
theorem clause_behind_calls (lex : Lexicon) (mark : Option Punctuation) {runs : List (List String)} {words : List String}
    (h : Calls runs words) :
    ((∃ s, (clause lex (called runs words) mark : Except ParseError Sentence) = .ok s) ↔
        (∀ run ∈ runs, ∃ c, (coordination lex run : Except ParseError Chain) = .ok c) ∧
          ∃ s, (clause lex words mark : Except ParseError Sentence) = .ok s) ∧
      (∀ chains s, List.Forall₂ (fun run c ↦ (coordination lex run : Except ParseError Chain) = .ok c) runs chains →
        (clause lex words mark : Except ParseError Sentence) = .ok s →
        (clause lex (called runs words) mark : Except ParseError Sentence) = .ok (s.withVocatives chains) ∧
          ((∃ t, s = .simple t ∧ (clause lex (called runs words) mark : Except ParseError Sentence) =
            .ok (.simple { t with vocatives := chains })) ↔ ¬ ExclaimsLi lex words)) ∧
      ∀ memory : Memory, memory.IsSound lex → Solid (called runs words) →
        ((clause lex (called runs words) mark : Remembering Sentence).run.run memory).1 =
          clause lex (called runs words) mark := by
  refine ⟨?_, fun chains s hchains hs ↦ ?_, fun memory hmemory hsolid ↦ ?_⟩
  · simp only [h.clause_called, h.clause_alone]
    constructor
    · rintro ⟨s, chains, hchains, hs⟩
      obtain ⟨s', hs', -⟩ := readsOpened_withVocatives.1 hs
      refine ⟨fun run hrun ↦ ?_, s', hs'⟩
      obtain ⟨c, -, hc⟩ := forall₂_exists_of_mem hchains hrun
      exact ⟨c, hc⟩
    · rintro ⟨hruns, s, hs⟩
      obtain ⟨chains, hchains⟩ := exists_forall₂ hruns
      exact ⟨_, chains, hchains, readsOpened_withVocatives.2 ⟨s, hs, rfl⟩⟩
  · have hopened := h.clause_alone.1 hs
    have hcalled : (clause lex (called runs words) mark : Except ParseError Sentence) = .ok (s.withVocatives chains) :=
      h.clause_called.2 ⟨chains, hchains, readsOpened_withVocatives.2 ⟨s, hopened, rfl⟩⟩
    refine ⟨hcalled, ?_⟩
    rcases h.simple_or_exclaims hopened with ⟨⟨t, rfl⟩, hnot⟩ | ⟨⟨phrase, rfl⟩, hexclaims⟩
    · exact iff_of_true ⟨t, rfl, hcalled⟩ hnot
    · exact iff_of_false (by simp) (not_not_intro hexclaims)
  · exact (agrees_clause hsolid mark memory hmemory).1

-- Where `li` may exclaim, the one called before `taso li a` is lost.
example : Sentence.words <$> (clause (Dictionary.lexicon ⟨1, [⟨"li", 17⟩], []⟩) (called [["jan"]] ["taso", "li", "a"])
    none : Except ParseError Sentence) = .ok ["li", "a"] := by decide +kernel

/-- Two calls before a clause with a conjunction and a tag question, which keeps both. -/
theorem clause_behind_calls_joined :
    let lex := Dictionary.standard.lexicon
    let runs := [["jan", "pona"], ["mama", "mi"]]
    let words := ["taso", "mi", "li", "moku", "e", "kili", "anu", "seme"]
    ∃ t chains, (clause lex words (some .question) : Except ParseError Sentence) = .ok (.simple t) ∧
      (clause lex (called runs words) (some .question) : Except ParseError Sentence) =
        .ok (.simple { t with vocatives := chains }) ∧ chains.length = 2 := by
  intro lex runs words
  have htaso : ¬ IsStructural "taso" := isStructural_word.not.2 (by decide : ¬ Particle.taso.isStructural = true)
  have hcalls : Calls runs words :=
    ⟨by simp [runs], by decide, by decide, by decide, by decide, by decide, by simpa [words] using htaso⟩
  obtain ⟨haccepts, hresult, -⟩ := clause_behind_calls lex (some .question) hcalls
  obtain ⟨found, hfound, -⟩ := map_eq_ok.1 (show Sentence.words <$>
    (clause lex (called runs words) (some .question) : Except ParseError Sentence) =
      .ok ["jan", "pona", "mama", "mi", "mi", "moku", "kili"] by decide +kernel)
  obtain ⟨hruns, s, hs⟩ := haccepts.1 ⟨found, hfound⟩
  obtain ⟨chains, hchains⟩ := exists_forall₂ hruns
  obtain ⟨-, hsimple⟩ := hresult chains s hchains hs
  obtain ⟨t, rfl, hcalled⟩ := hsimple.2 (fun hexclaims ↦ absurd hexclaims.1 (by decide +kernel))
  exact ⟨t, chains, hs, hcalled, hchains.length_eq.symm⟩

end Reading

end TokiPona
