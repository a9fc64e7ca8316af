import TokiPona.CommandLine
import TokiPona.Files.Tree
import TokiPona.Proofs.Recall

namespace TokiPona

def Grammar.error? (g : Grammar) (text : String) : Option ParseError :=
  match g.parse text text with
  | .ok _ => none
  | .error e => some e

namespace Invocation

/-- A sound memory gives each sentence the result that an empty one gives, and stays sound for the next sentence. -/
theorem parseAll_eq_map (g : Grammar) {memory : Memory} (h : memory.IsSound g.lexicon) (sentences : List String) :
    parseAll g memory sentences = sentences.map fun text ↦ g.parse text text := by
  induction sentences generalizing memory with
  | nil => rfl
  | cons text rest ih =>
    obtain ⟨hresult, hsound⟩ := Reading.agrees_read g text text memory h
    rw [parseAll, List.map_cons, ← ih hsound, ← hresult]
    rfl

theorem countP_failed (g : Grammar) (sentences : List String) :
    (sentences.map fun text ↦ g.parse text text).countP (!·.isOk) = (sentences.filterMap g.error?).length := by
  induction sentences with
  | nil => rfl
  | cons text rest ih =>
    rw [List.map_cons, List.countP_cons, ih]
    cases h : g.parse text text with
    | ok s => simp [Grammar.error?, h, Except.isOk, Except.toBool]
    | error e => simp [Grammar.error?, h, Except.isOk, Except.toBool]

theorem join_complaints (g : Grammar) (sentences : List String) :
    String.join ((sentences.map fun text ↦ g.parse text text).map complaint) =
      String.join ((sentences.filterMap g.error?).map fun e ↦ complaint (.error e)) := by
  induction sentences with
  | nil => rfl
  | cons text rest ih =>
    rw [List.map_cons, List.map_cons, String.join_cons, ih]
    cases h : g.parse text text with
    | ok s => simp [Grammar.error?, h, complaint]
    | error e => simp [Grammar.error?, h]

theorem runParse_eq (g : Grammar) (sentences : List String) (json : Bool) :
    runParse g sentences json =
      let errors := sentences.filterMap g.error?
      let outcome : Outcome :=
        { stdout := String.join (sentences.map fun text ↦ printed json (g.parse text text))
          stderr := String.join (errors.map fun e ↦ complaint (.error e)) }
      if errors.length = 0 then outcome else outcome.failed (.unparsed errors.length sentences.length) := by
  rw [runParse, parseAll_eq_map g (Memory.isSound_empty _), join_complaints, countP_failed, List.map_map]
  rfl

theorem stdout_runParse (g : Grammar) (sentences : List String) (json : Bool) :
    (runParse g sentences json).stdout = String.join (sentences.map fun text ↦ printed json (g.parse text text)) := by
  rw [runParse_eq]
  exact (apply_ite Outcome.stdout _ _ _).trans (ite_self _)

theorem run_parse {σ : Type} {files : Files (StateM σ)} {codec : Dictionary.Codec} {state later : σ} {inv : Invocation}
    {g : Grammar} (h : (inv.grammar files codec).run.run state = (.ok g, later)) (sentences : List String) (json : Bool) :
    (run files codec { inv with command := .parse sentences json }).run state = (runParse g sentences json, later) := by
  have hload : (({ inv with command := .parse sentences json } : Invocation).grammar files codec).run.run state =
      (.ok g, later) := h
  rw [run]
  dsimp only
  rw [StateT.run_bind, hload]
  rfl

end Invocation

/-- Where the grammar loads, a run over several sentences prints what runs over each of them print, one after the other. On
the other stream it complains about each sentence that fails, in order, and then gives their number, unless there is none;
and it succeeds exactly if there is none. -/
theorem Invocation.run_parse_each {σ : Type} (files : Files (StateM σ)) (codec : Dictionary.Codec) {state later : σ}
    {inv : Invocation} {g : Grammar} (hload : (inv.grammar files codec).run.run state = (.ok g, later)) (json : Bool)
    (sentences : List String) :
    let outcome (texts : List String) := ((run files codec { inv with command := .parse texts json }).run state).1
    let errors := sentences.filterMap g.error?
    (outcome sentences).stdout = String.join (sentences.map fun text ↦ (outcome [text]).stdout) ∧
    (outcome sentences).stderr = String.join (errors.map fun e ↦ s!"❌ {e.kind.name} error: {e.message}\n") ++
      (if errors.length = 0 then "" else s!"Error: {errors.length} of {sentences.length} sentences failed to parse\n") ∧
    (outcome sentences).exit = if errors.length = 0 then 0 else 1 := by
  intro outcome errors
  have houtcome (texts : List String) : outcome texts = runParse g texts json :=
    congrArg Prod.fst (run_parse hload texts json)
  have hrun := (houtcome sentences).trans (runParse_eq g sentences json)
  refine ⟨by simp [houtcome, stdout_runParse], ?_⟩
  by_cases hnone : errors.length = 0
  · rw [hrun.trans (if_pos hnone), if_pos hnone, if_pos hnone, String.append_empty]
    exact ⟨rfl, rfl⟩
  · rw [hrun.trans (if_neg hnone), if_neg hnone, if_neg hnone]
    have hend : " sentences failed to parse" ++ "\n" = " sentences failed to parse\n" := by decide
    refine ⟨?_, rfl⟩
    simp [Outcome.failed, Failure.message, complaint, String.append_assoc, errors, toString, hend]

/-- The first sentence fails only after its subject has been read and remembered, and the third one opens with the same
words. -/
theorem Invocation.run_parse_each_subject :
    let codec : Dictionary.Codec := ⟨fun _ ↦ .error "nothing is compiled", fun _ ↦ .error "nothing is compiled"⟩
    let outcome (texts : List String) := ((run FileTree.access codec ⟨none, true, .parse texts true⟩).run {}).1
    (outcome ["jan li moku e.", "ona li.", "jan la."]).stdout = (outcome ["jan la."]).stdout ∧
    (outcome ["jan la."]).stdout = String.join
      ["\x7b\n", "  \"type\": \"fragment\",\n", "  \"fragment\": \x7b\n", "    \"particle\": \"en\",\n", "    \"links\": [\n",
       "      \x7b\n", "        \"particle\": \"pi\",\n", "        \"links\": [\n", "          \x7b\n",
       "            \"particle\": \"pi\",\n", "            \"phrases\": [\n", "              \x7b\n",
       "                \"head\": \"jan\",\n", "                \"modifiers\": [],\n", "                \"prepositions\": []\n",
       "              \x7d\n", "            ]\n", "          \x7d\n", "        ]\n", "      \x7d\n", "    ]\n", "  \x7d,\n",
       "  \"punctuation\": \"period\"\n", "\x7d\n"] ∧
    (outcome ["jan li moku e.", "ona li.", "jan la."]).stderr =
      "❌ Grammar error: degenerate e phrase (e with nothing after it, missing 'e ni'?): 'li moku e'\n" ++
      "❌ Syntax error: sentence ends with li: 'ona li.'\n" ++
      "Error: 2 of 3 sentences failed to parse\n" ∧
    (outcome ["jan li moku e.", "ona li.", "jan la."]).exit = 1 ∧ (outcome ["jan la."]).exit = 0 := by
  intro codec outcome
  have hload : ((⟨none, true, .parse [] true⟩ : Invocation).grammar FileTree.access codec).run.run {} =
      (.ok ⟨Vocabulary.standard.lexicon, .strict⟩, {}) := rfl
  obtain ⟨hstdout, hstderr, hexit⟩ :=
    run_parse_each FileTree.access codec hload true ["jan li moku e.", "ona li.", "jan la."]
  obtain ⟨-, -, hexit'⟩ := run_parse_each FileTree.access codec hload true ["jan la."]
  refine ⟨?_, by decide +kernel, hstderr.trans (by decide +kernel), hexit.trans (by decide +kernel),
    hexit'.trans (by decide +kernel)⟩
  have hfirst : (outcome ["jan li moku e."]).stdout = "" := by decide +kernel
  have hsecond : (outcome ["ona li."]).stdout = "" := by decide +kernel
  calc (outcome ["jan li moku e.", "ona li.", "jan la."]).stdout
      = String.join [(outcome ["jan li moku e."]).stdout, (outcome ["ona li."]).stdout, (outcome ["jan la."]).stdout] :=
        hstdout
    _ = String.join ["", "", (outcome ["jan la."]).stdout] := by rw [hfirst, hsecond]
    _ = (outcome ["jan la."]).stdout := by simp

end TokiPona
