import TokiPona.Dictionary.Standard
import TokiPona.Proofs.Assembly

namespace TokiPona

namespace Sentence

def preconditions : Sentence → List Sentence
  | conditional preconditions _ => preconditions
  | _ => []

def conclusion : Sentence → Sentence
  | conditional _ conclusion => conclusion
  | s => s

/-- The clause that comes first. -/
def nearest (s : Sentence) : Sentence := s.preconditions.headD s.conclusion

def withNearest : Sentence → Sentence → Sentence
  | conditional (_ :: others) conclusion, first => conditional (first :: others) conclusion
  | conditional [] _, first => conditional [] first
  | _, first => first

/-- The sentence with a context in front of its first clause, which has to be a simple sentence. -/
def inContext (c : Context) (s : Sentence) : Except ParseError Sentence :=
  match s.nearest with
  | simple t => .ok (s.withNearest (simple { t with contexts := c :: t.contexts }))
  | other => .error (.headless (s!"{c.text} la " ++ other.text))

theorem inContext_eq_headless {c : Context} {s : Sentence} :
    (∃ fragment, s.inContext c = .error (.headless fragment)) ↔ s.nearest.simple? = none := by
  unfold inContext
  cases s.nearest <;> simp [simple?]

end Sentence

namespace Reading

variable {lex : Lexicon} {mark : Punctuation} {shown : String} {words : List String}

/-- Puts a clause before a sentence: as a condition if it has a predicate, and as a context if it has none. -/
def putBefore (lex : Lexicon) (words : List String) (s : Sentence) : Except ParseError Sentence :=
  if Particle.li.word ∈ words then do
    let condition ← clause lex words none
    pure (.conditional (condition :: s.preconditions) s.conclusion)
  else do
    let found ← context lex words
    s.inContext found

theorem preconditions_assembled (preconditions : List Sentence) {s : Sentence} (h : s.IsClause) :
    (assembled preconditions s).preconditions = preconditions ∧ (assembled preconditions s).conclusion = s := by
  cases preconditions with
  | nil =>
    cases s with
    | conditional => exact h.elim
    | _ => exact ⟨rfl, rfl⟩
  | cons p preconditions => exact ⟨rfl, rfl⟩

theorem sentence_eq_clauses (hne : words ≠ []) (hlast : words.getLast? ≠ some Particle.la.word) :
    (sentence lex words mark shown : Except ParseError Sentence) =
      (fun read ↦ assembled read.1 read.2) <$> clauses lex mark shown ((laRuns words).map (withImpliedLi lex)) := by
  -- the two early answers need a last part of one word, which can only be a `la`
  have hparts {first second : List String} {parts : List (List String)} {w : String}
      (hsplit : splitBefore isLa words = first :: second :: parts)
      (h : (first :: second :: parts).getLast? = some [w]) : False := by
    obtain ⟨init, hinit⟩ := List.getLast?_eq_some_iff.1 h
    obtain ⟨rfl, -⟩ := last_run_eq_nil lex hsplit h
    have hflat := flatten_splitBefore isLa words
    rw [hsplit, hinit, List.flatten_append, List.flatten_singleton] at hflat
    exact hlast (by rw [← hflat, List.getLast?_concat])
  unfold sentence
  dsimp only
  split
  case _ hsplit h => exact (hparts hsplit (hsplit ▸ h)).elim
  case _ hsplit h => exact (hparts hsplit (hsplit ▸ h)).elim
  · rw [map_parts hne]
    cases hread : (clauses lex mark shown ((laRuns words).map (withImpliedLi lex)) : Except ParseError _) with
    | error e => rfl
    | ok read => exact (clauses_eq_ok.1 hread).assemble

theorem laRuns_append_la {before after : List String} (hne : before ≠ []) (hla : Particle.la.word ∉ before)
    (hhead : after.head? ≠ some Particle.la.word) : laRuns (before ++ Particle.la.word :: after) = before :: laRuns after := by
  have hplain : ∀ w ∈ before, isLa w = false := by
    intro w hw
    rw [isLa_eq_false]
    rintro rfl
    exact hla hw
  have hstrip : stripLeading isLa after = after := by
    cases after with
    | nil => rfl
    | cons w rest =>
      have hw : isLa w = false := isLa_eq_false.2 (by simpa using hhead)
      simp [stripLeading, hw]
  obtain ⟨w, rest, rfl⟩ := List.exists_cons_of_ne_nil hne
  rw [laRuns, laRuns, hstrip, List.cons_append, stripLeading, if_neg (by simp [hplain w (by simp)]), ← List.cons_append,
    splitDropping_append_sep isLa_word hplain]

theorem assembled_attach {preconditions : List Sentence} {s : Sentence} (hs : s.IsClause) (hne : words ≠ []) :
    ((fun read ↦ assembled read.1 read.2) <$> attach lex shown words (preconditions, s) : Except ParseError Sentence) =
      putBefore lex words (assembled preconditions s) := by
  obtain ⟨hpre, hconclusion⟩ := preconditions_assembled preconditions hs
  rw [putBefore, hpre, hconclusion, attach, if_neg (by simpa using hne)]
  by_cases hli : Particle.li.word ∈ words
  · rw [if_pos (Particle.isIn_iff.2 hli), if_pos hli]
    cases (clause lex words none : Except ParseError Sentence) <;> rfl
  · rw [if_neg (Particle.isIn_iff.not.2 hli), if_neg hli]
    cases (context lex words : Except ParseError Context) with
    | error e => rfl
    | ok found =>
      cases preconditions with
      | nil =>
        cases s with
        | conditional => exact hs.elim
        | _ => rfl
      | cons first others => cases first <;> rfl

/-- A clause in front of a sentence is read after it and put before it; an error of the sentence comes first. A context
is refused exactly if the clause it would belong to is no simple sentence. -/
theorem sentence_append_la (lex : Lexicon) (mark : Punctuation) (shown : String) (before after : List String)
    (hbefore : before ≠ []) (hla : Particle.la.word ∉ before) (hafter : after ≠ [])
    (hhead : after.head? ≠ some Particle.la.word) (hlast : after.getLast? ≠ some Particle.la.word) :
    (sentence lex (before ++ Particle.la.word :: after) mark shown : Except ParseError Sentence) =
        sentence lex after mark shown >>= putBefore lex (withImpliedLi lex before) ∧
      ∀ read found, (sentence lex after mark shown : Except ParseError Sentence) = .ok read →
        Particle.li.word ∉ withImpliedLi lex before →
        (context lex (withImpliedLi lex before) : Except ParseError Context) = .ok found →
        ((∃ fragment, (sentence lex (before ++ Particle.la.word :: after) mark shown : Except ParseError Sentence) =
          .error (.headless fragment)) ↔ read.nearest.simple? = none) := by
  have hwritten : withImpliedLi lex before ≠ [] := by
    obtain ⟨w, rest, rfl⟩ := List.exists_cons_of_ne_nil hbefore
    have hw := head?_withImpliedLi lex (w :: rest)
    rintro hnil
    simp [hnil] at hw
  have hlast' : (before ++ Particle.la.word :: after).getLast? ≠ some Particle.la.word := by
    rwa [List.getLast?_append_of_ne_nil _ (by simp), List.getLast?_cons_of_ne_nil hafter]
  have hread : (sentence lex (before ++ Particle.la.word :: after) mark shown : Except ParseError Sentence) =
      sentence lex after mark shown >>= putBefore lex (withImpliedLi lex before) := by
    obtain ⟨run, runs, hruns⟩ := List.exists_cons_of_ne_nil (splitDropping_ne_nil isLa (stripLeading isLa after))
    rw [sentence_eq_clauses (by simp) hlast', sentence_eq_clauses hafter hlast, laRuns_append_la hbefore hla hhead, laRuns,
      hruns, List.map_cons, List.map_cons, clauses_cons_cons]
    -- `clauses` goes from the right, so the first clause is what is read last
    cases hclauses : (clauses lex mark shown (withImpliedLi lex run :: runs.map (withImpliedLi lex)) :
      Except ParseError _) with
    | error e => rfl
    | ok read => exact assembled_attach (clauses_eq_ok.1 hclauses).isClause.1.1 hwritten
  refine ⟨hread, fun read found hok hli hfound ↦ ?_⟩
  rw [hread, hok, ok_bind, putBefore, if_neg hli, hfound, ok_bind]
  exact Sentence.inContext_eq_headless

/-- A context in front of a condition belongs to the condition, not to the conclusion. -/
theorem sentence_append_la_condition :
    let lex := Dictionary.standard.lexicon
    let after := ["sina", "wile", "la", "mi", "moku"]
    let contexts (s : Sentence) := s.simple?.map (·.contexts.length)
    ∃ s, (sentence lex (["tenpo", "ni"] ++ Particle.la.word :: after) .period "" : Except ParseError Sentence) = .ok s ∧
      s.preconditions.map contexts = [some 1] ∧ contexts s.conclusion = some 0 := by
  intro lex after contexts
  have happend := (sentence_append_la lex .period "" ["tenpo", "ni"] after (by decide) (by decide) (by decide) (by decide)
    (by decide)).1
  obtain ⟨s, hs, hcontexts⟩ := map_eq_ok.1 (show (fun s ↦ (s.preconditions.map contexts, contexts s.conclusion)) <$>
    (sentence lex after .period "" >>= putBefore lex (withImpliedLi lex ["tenpo", "ni"])) = .ok ([some 1], some 0) by
      decide +kernel)
  exact ⟨s, happend.trans hs, congrArg Prod.fst hcontexts, congrArg Prod.snd hcontexts⟩

end Reading

end TokiPona
