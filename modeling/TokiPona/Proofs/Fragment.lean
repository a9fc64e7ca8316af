import TokiPona.Proofs.Token
import TokiPona.Reading.Clause

/-!
The text of a run of tokens says which run it is. That is why it can stand for the run as a key: whatever text the tokens
come from, which of them are left out and which words are put in, the tokens of the written run are those of the run.
-/

namespace TokiPona

/-- The words that readers put into a run: the `li` that a pronoun leaves out, and the placeholder subject of a command
with its `o`. -/
def Reading.suppliedWords : List String := Particle.li.word :: Particle.o.word :: placeholderSubject

theorem Reading.solid_suppliedWords : Solid suppliedWords := by decide

/-- Some tokens of a text in their order, with supplied words put in anywhere. -/
inductive IsExcerpt (text : String) : List Token → Prop
  | tokens {run : List Token} (h : run.Sublist (tokenize text)) : IsExcerpt text run
  | supply {before after : List Token} (h : IsExcerpt text (before ++ after)) (pos : Nat) {w : String}
      (hw : w ∈ Reading.suppliedWords) : IsExcerpt text (before ++ .ofWord pos w :: after)

theorem IsExcerpt.isGenuine {text : String} {run : List Token} (h : IsExcerpt text run) : ∀ t ∈ run, t.IsGenuine := by
  induction h with
  | tokens h => exact fun t ht ↦ Token.isGenuine_of_mem_scan (h.subset ht)
  | supply _ pos hw ih =>
    intro t ht
    rcases List.mem_append.1 ht with ht | ht
    · exact ih t (List.mem_append_left _ ht)
    rcases List.mem_cons.1 ht with rfl | ht
    · exact .word pos (Reading.solid_suppliedWords _ hw)
    · exact ih t (List.mem_append_right _ ht)

namespace Token

/-- What a token is apart from its place. -/
def look (t : Token) : String × TokenKind := (t.text, t.kind)

@[simp] theorem look_movedTo (pos : Nat) (t : Token) : (t.movedTo pos).look = t.look := rfl

@[simp] theorem map_look_laidOut (pos : Nat) (run : List Token) : (laidOut pos run).map look = run.map look := by
  induction run generalizing pos with
  | nil => rfl
  | cons t run ih => rw [laidOut, List.map_cons, List.map_cons, look_movedTo, ih]

theorem map_look_tokenize {run : List Token} (h : ∀ t ∈ run, t.IsGenuine) :
    (tokenize (fragment run)).map look = run.map look := by
  obtain ⟨pos, hscan⟩ := scan_fragment h 0 [] (by simp)
  have htokens : tokenize (fragment run) = laidOut 0 run := by simpa [tokenize, scan_nil] using hscan
  rw [htokens, map_look_laidOut]

theorem fragment_eq_iff {run run' : List Token} (h : ∀ t ∈ run, t.IsGenuine) (h' : ∀ t ∈ run', t.IsGenuine) :
    fragment run' = fragment run ↔ run'.map look = run.map look := by
  constructor
  · intro heq
    calc run'.map look
        = (tokenize (fragment run')).map look := (map_look_tokenize h').symm
      _ = (tokenize (fragment run)).map look := by rw [heq]
      _ = run.map look := map_look_tokenize h
  · intro heq
    have htexts : run'.map text = run.map text := by
      simpa [look, Function.comp_def] using congrArg (List.map Prod.fst) heq
    rw [fragment, fragment, htexts]

end Token

/-- The text of an excerpt is cut into the tokens of the excerpt again, so that excerpts, of whatever texts, have the same
text only if they are the same, token by token. -/
theorem IsExcerpt.tokenize_fragment {text : String} {run : List Token} (h : IsExcerpt text run) :
    (tokenize (Token.fragment run)).map Token.look = run.map Token.look ∧
      ∀ text' run', IsExcerpt text' run' →
        (Token.fragment run' = Token.fragment run ↔ run'.map Token.look = run.map Token.look) := by
  refine ⟨Token.map_look_tokenize h.isGenuine, ?_⟩
  intro text' run' h'
  exact Token.fragment_eq_iff h.isGenuine h'.isGenuine

/-- One text leaves a `li` out that the other one has. -/
theorem IsExcerpt.tokenize_fragment_supplied :
    let text := "«mi ~lon\u00a0tomo», ~!"
    let text' := "« mi li\t~lon  tomo,\u3000~ !"
    let run := (tokenize text).take 2 ++ Token.ofWord 4 "li" :: ((tokenize text).drop 2).eraseIdx 2
    IsExcerpt text run ∧ IsExcerpt text' (tokenize text') ∧ Token.fragment (tokenize text') = Token.fragment run ∧
      (tokenize (Token.fragment run)).map Token.look = run.map Token.look ∧
      (tokenize text').map Token.look = run.map Token.look := by
  intro text text' run
  have hrun : IsExcerpt text run := .supply (.tokens (by decide +kernel)) 4 (by decide)
  have hwhole : IsExcerpt text' (tokenize text') := .tokens (.refl _)
  have heq : Token.fragment (tokenize text') = Token.fragment run := by decide +kernel
  obtain ⟨hcut, hsame⟩ := IsExcerpt.tokenize_fragment hrun
  exact ⟨hrun, hwhole, heq, hcut, (hsame text' (tokenize text') hwhole).1 heq⟩

end TokiPona
