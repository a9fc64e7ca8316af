import TokiPona.Proofs.Moods

namespace TokiPona

def PredicateKind.isPi : PredicateKind → Bool
  | pi _ => true
  | _ => false

theorem PredicateKind.isPi_iff {kind : PredicateKind} : kind.isPi = true ↔ ∃ c, kind = .pi c := by
  cases kind <;> simp [isPi]

namespace Reading

variable {lex : Lexicon} {lost : List String → Prop} {words words' : List String}

/-- Which structural particles may stand side by side once marks are dropped: two that open a predicate, a `la` next to
an interjection, and what is lost with the `la` before it. -/
def Near (lex : Lexicon) (lost : List String → Prop) (v w : String) : Prop := IsStructural v → IsStructural w →
  (v = Particle.li.word ∧ (w = Particle.pi.word ∨ w = Particle.e.word)) ∨
    (v = Particle.la.word ∧ lex.isInterjection w = true) ∨ (w = Particle.la.word ∧ lex.isInterjection v = true) ∨
      ∃ run, lost run ∧ [v, w] <:+: Particle.la.word :: run

theorem Near.of_left {v w : String} (h : ¬ IsStructural v) : Near lex lost v w := fun hv ↦ absurd hv h

theorem Near.of_right {v w : String} (h : ¬ IsStructural w) : Near lex lost v w := fun _ hw ↦ absurd hw h

theorem MayFollow.near {dialect : Dialect} {v w : String} (h : MayFollow dialect v w) : Near lex lost v w := by
  intro hv hw
  rcases h hw with hquiet | ⟨hli, hpi, -⟩
  · exact absurd hv hquiet.1
  · exact .inl ⟨hli, .inl hpi⟩

/-- A run of which any word may stand after. -/
structure Calm (lex : Lexicon) (lost : List String → Prop) (words : List String) : Prop where
  isChain : words.IsChain (Near lex lost)
  last : ∀ w ∈ words.getLast?, ¬ IsStructural w

structure Clear (lex : Lexicon) (lost : List String → Prop) (words : List String) : Prop
    extends Calm lex lost words where
  head : ∀ w ∈ words.head?, ¬ IsStructural w

theorem Tame.calm {dialect : Dialect} (h : Tame dialect words) : Calm lex lost words :=
  ⟨h.isChain.imp fun _ _ hvw ↦ hvw.near, fun w hw ↦ (h.quiet w hw).1⟩

theorem Calm.nil : Calm lex lost [] := ⟨.nil, by simp⟩

theorem Clear.nil : Clear lex lost [] := ⟨.nil, by simp⟩

theorem Clear.singleton {w : String} (h : ¬ IsStructural w) : Clear lex lost [w] :=
  ⟨⟨.singleton w, by simpa using h⟩, by simpa using h⟩

theorem Calm.isChain_append (h : Calm lex lost words) (h' : words'.IsChain (Near lex lost)) :
    (words ++ words').IsChain (Near lex lost) :=
  List.isChain_append.2 ⟨h.isChain, h', fun v hv _ _ ↦ .of_left (h.last v hv)⟩

theorem Calm.append (h : Calm lex lost words) (h' : Calm lex lost words') : Calm lex lost (words ++ words') := by
  refine ⟨h.isChain_append h'.isChain, fun w hw ↦ ?_⟩
  rw [List.getLast?_append, Option.mem_def, Option.or_eq_some_iff] at hw
  rcases hw with hw | ⟨-, hw⟩
  · exact h'.last w hw
  · exact h.last w hw

theorem Clear.append (h : Clear lex lost words) (h' : Clear lex lost words') : Clear lex lost (words ++ words') := by
  refine ⟨h.toCalm.append h'.toCalm, fun w hw ↦ ?_⟩
  rw [List.head?_append, Option.mem_def, Option.or_eq_some_iff] at hw
  rcases hw with hw | ⟨-, hw⟩
  · exact h.head w hw
  · exact h'.head w hw

theorem Clear.of_forall (h : ∀ w ∈ words, ¬ IsStructural w) : Clear lex lost words := by
  induction words with
  | nil => exact .nil
  | cons w words ih => exact (Clear.singleton (h w (by simp))).append (ih fun v hv ↦ h v (by simp [hv]))

theorem Calm.flatten {runs : List (List String)} (h : ∀ run ∈ runs, Calm lex lost run) :
    Calm lex lost runs.flatten := by
  induction runs with
  | nil => exact .nil
  | cons run runs ih => exact (h run (by simp)).append (ih fun q hq ↦ h q (by simp [hq]))

theorem Clear.intercalate {s : String} (hs : ¬ IsStructural s) {runs : List (List String)}
    (h : ∀ run ∈ runs, Clear lex lost run) : Clear lex lost ([s].intercalate runs) := by
  induction runs with
  | nil => exact .nil
  | cons run runs ih =>
    have hrun := h run (by simp)
    cases runs with
    | nil => simpa using hrun
    | cons run' runs =>
      rw [List.intercalate_cons_of_ne_nil (by simp)]
      exact (hrun.append (.singleton hs)).append (ih fun q hq ↦ h q (by simp [hq]))

theorem Tame.clear {dialect : Dialect} (h : Tame dialect words) (hlead : Leads words) : Clear lex lost words := by
  obtain ⟨w, rest, rfl, hw⟩ := hlead
  exact ⟨h.calm, by simpa using hw⟩

theorem not_isStructural_o : ¬ IsStructural Particle.o.word := by simp [isStructural_word, Particle.isStructural]

theorem clear_coordination {c : Chain} (h : (coordination lex words : Except ParseError Chain) = .ok c) :
    Clear lex lost words := by
  rw [← intercalate_splitDropping eq_of_isEn words]
  refine .intercalate (by simp [isStructural_word, Particle.isStructural]) fun run hrun ↦ ?_
  by_cases hne : run = []
  · rw [hne]
    exact .nil
  · have hparts := (arePhrases_of_coordination h run hrun hne).tame {}
    obtain ⟨htame, hlead⟩ := tame_intercalate (splitDropping_ne_nil isPi run) hparts Particle.pi.word
    rw [intercalate_splitDropping eq_of_isPi] at htame hlead
    exact htame.clear hlead

theorem calm_pieces {pieces : List (List String)} {phrases : List PrepPhrase}
    (h : List.Forall₂ (ReadsPrepPhrase lex) pieces phrases) : ∀ piece ∈ pieces, Calm lex lost piece := by
  intro piece hpiece
  obtain ⟨p, -, w, words, rfl, hw, hwords, -, hgoverned⟩ := forall₂_exists_of_mem h hpiece
  have hfirst : Clear lex lost [w] := .singleton (isQuiet_of_isPreposition hw).1
  rcases (complement_eq_ok hwords).1 hgoverned with ⟨rfl, -⟩ | ⟨-, c, hc, -⟩
  · exact hfirst.toCalm
  · exact (hfirst.append (clear_coordination hc)).toCalm

theorem Calm.govern {particle : Particle} (hgov : particle.isGoverning = true) (h : Calm lex lost words)
    (hne : words ≠ []) (hwords : ∀ w ∈ words, w ≠ Particle.li.word ∧ w ≠ Particle.la.word ∧ w ≠ Particle.o.word) :
    Calm lex lost (particle.word :: words) := by
  obtain ⟨v, rest, rfl⟩ := List.exists_cons_of_ne_nil hne
  refine ⟨h.isChain.cons_cons fun hp hv ↦ .inl ⟨?_, ?_⟩, by simpa using h.last⟩
  · rcases eq_or_ne particle .o with rfl | ho
    · exact absurd hp not_isStructural_o
    · rw [particle_eq_li hgov ho]
  · obtain ⟨q, hq, rfl⟩ := hv
    obtain ⟨hli, hla, -⟩ := hwords q.word (by simp)
    cases q <;> simp_all [Particle.isStructural]

theorem ReadsPredicate.calm {part : List String} {p : Predicate} (h : ReadsPredicate lex part p)
    (hpart : ∀ w ∈ part.tail, w ≠ Particle.li.word ∧ w ≠ Particle.la.word ∧ w ≠ Particle.o.word) :
    Calm lex lost part := by
  cases h with
  | @transitive particle verb last kind init pieces chains phrases hgov hcut hkind hchains hphrases =>
    have hverb := isQuiet_of_mem_verb (fun w hw ↦ hpart w (by simp [joined, hw])) hcut.verb
    have hobjects : Calm lex lost ((init ++ [last]).flatMap (Particle.e.word :: ·)) := by
      rw [List.flatMap_def]
      refine .flatten (List.forall_mem_map.2 fun object hobject ↦ ?_)
      obtain ⟨c, -, hc⟩ := forall₂_exists_of_mem hchains hobject
      obtain ⟨htame, hlead⟩ := tame_chain hc {}
      exact (htame.cons_leads hlead _).calm
    refine .govern hgov ?_ (by simp [joined]) hpart
    exact ((tame_predicateKind hkind hverb {}).1.calm.append hobjects).append (.flatten (calm_pieces hphrases))
  | intransitive hgov hne he _ hkind _ hphrases =>
    have hverb := isQuiet_of_mem_verb (fun w hw ↦ hpart w (by simp [joined, hw])) he
    refine .govern hgov ?_ hne hpart
    exact ((tame_predicateKind hkind hverb {}).1.calm.append .nil).append (.flatten (calm_pieces hphrases))
  | @promoted particle before after w phrases hgov hw hfull hphrases =>
    refine .govern hgov (.flatten fun piece hpiece ↦ ?_) (by simp [joined]) hpart
    by_cases hlone : piece = [w]
    · rw [hlone]
      exact (Clear.singleton (isQuiet_of_isPreposition hw).1).toCalm
    · exact calm_pieces hphrases piece (by simpa [hlone] using hpiece)

structure Fits (lex : Lexicon) (lost : List String → Prop) (words : List String) : Prop where
  isChain : words.IsChain (Near lex lost)
  head : ∀ w ∈ words.head?, Near lex lost Particle.la.word w
  last : ∀ w ∈ words.getLast?, Near lex lost w Particle.la.word

theorem Clear.fits (h : Clear lex lost words) : Fits lex lost words :=
  ⟨h.isChain, fun w hw ↦ .of_right (h.head w hw), fun w hw ↦ .of_left (h.last w hw)⟩

theorem Fits.append (h : Calm lex lost words) (hhead : ∀ w ∈ words.head?, Near lex lost Particle.la.word w)
    (h' : Fits lex lost words') : Fits lex lost (words ++ words') := by
  refine ⟨h.isChain_append h'.isChain, fun w hw ↦ ?_, fun w hw ↦ ?_⟩
  · rw [List.head?_append, Option.mem_def, Option.or_eq_some_iff] at hw
    rcases hw with hw | ⟨-, hw⟩
    · exact hhead w hw
    · exact h'.head w hw
  · rw [List.getLast?_append, Option.mem_def, Option.or_eq_some_iff] at hw
    rcases hw with hw | ⟨-, hw⟩
    · exact h'.last w hw
    · exact .of_left (h.last w hw)

theorem Clear.append_fits (h : Clear lex lost words) (h' : Fits lex lost words') : Fits lex lost (words ++ words') :=
  h'.append h.toCalm h.fits.head

theorem Fits.exclamation {w : String} (hw : lex.isInterjection w = true) (h : ∀ v ∈ words, ¬ IsStructural v) :
    Fits lex lost (w :: words) := by
  have hclear : Clear lex lost words := .of_forall h
  have hhead : Near lex lost Particle.la.word w := fun _ _ ↦ .inr (.inl ⟨rfl, hw⟩)
  have hlast : Near lex lost w Particle.la.word := fun _ _ ↦ .inr (.inr (.inl ⟨rfl, hw⟩))
  cases words with
  | nil => exact ⟨.singleton w, by simpa using hhead, by simpa using hlast⟩
  | cons v words =>
    refine ⟨hclear.isChain.cons_cons (.of_right (h v (by simp))), by simpa using hhead, fun u hu ↦ ?_⟩
    exact .of_left (hclear.last u (by simpa using hu))

theorem Fits.of_lost {runs : List (List String)} (hruns : ∀ run ∈ runs, lost run) (h : Fits lex lost words) :
    Fits lex lost (runs.flatMap (· ++ [Particle.o.word]) ++ words) := by
  induction runs with
  | nil => exact h
  | cons run runs ih =>
    have hrun := hruns run (by simp)
    have hchain : run.IsChain (Near lex lost) := by
      rw [List.isChain_iff_forall_rel_of_append_cons_cons]
      rintro v w before after rfl _ _
      exact .inr (.inr (.inr ⟨_, hrun, [Particle.la.word] ++ before, after, by simp⟩))
    rw [List.flatMap_cons, List.append_assoc]
    refine .append ⟨?_, by simp [not_isStructural_o]⟩ (fun w hw ↦ ?_) (ih fun q hq ↦ hruns q (by simp [hq]))
    · refine List.isChain_append.2 ⟨hchain, .singleton _, fun v _ w hw ↦ ?_⟩
      obtain rfl : Particle.o.word = w := by simpa using hw
      exact .of_right not_isStructural_o
    · cases run with
      | nil =>
        obtain rfl : Particle.o.word = w := by simpa using hw
        exact .of_right not_isStructural_o
      | cons v rest =>
        obtain rfl : v = w := by simpa using hw
        exact fun _ _ ↦ .inr (.inr (.inr ⟨_, hrun, [], rest, rfl⟩))

theorem Clear.append_calm (h : Clear lex lost words) (hne : words ≠ []) (h' : Calm lex lost words') :
    Clear lex lost (words ++ words') := by
  refine ⟨h.toCalm.append h', fun w hw ↦ h.head w ?_⟩
  rwa [List.head?_append_of_ne_nil _ hne] at hw

theorem ReadsBody.clear {core : List String} {b : Body} (hla : Particle.la.word ∉ core)
    (h : ReadsBody lex (splitBefore isGovernor core) b) : Clear lex lost core ∨
      ∃ w rest, core = w :: rest ∧ lex.isInterjection w = true ∧ ∀ v ∈ rest, ¬ IsStructural v := by
  have hflat := flatten_splitBefore isGovernor core
  have htail := fun part hpart ↦ @mem_tail_part core part hla hpart
  generalize splitBefore isGovernor core = parts at h hflat htail
  rw [← hflat]
  have hcalm {parts' : List (List String)} {predicates : List Predicate} (hsub : ∀ part ∈ parts', part ∈ parts)
      (hread : List.Forall₂ (ReadsPredicate lex) parts' predicates) : Calm lex lost parts'.flatten := by
    refine .flatten fun part hpart ↦ ?_
    obtain ⟨p, -, hp⟩ := forall₂_exists_of_mem hread hpart
    exact hp.calm (htail part (hsub part hpart))
  cases h with
  | exclamation h =>
    obtain ⟨w, rest, rfl, hw, hrest, -⟩ := exclamation_eq_some.1 h
    refine .inr ⟨w, rest, by simp, hw, fun v hv ↦ ?_⟩
    rcases hrest v hv with rfl | rfl <;> simp [isStructural_word, Particle.isStructural]
  | call h => exact .inl (by simpa using (clear_coordination h).append (.singleton not_isStructural_o))
  | @command first rest predicates hfirst _ hpredicates =>
    refine .inl ⟨hcalm (by simp) hpredicates, fun w hw ↦ ?_⟩
    obtain ⟨first, rfl⟩ := List.head?_eq_some_iff.1 hfirst
    obtain rfl : Particle.o.word = w := by simpa using hw
    exact not_isStructural_o
  | @statement first rest _ _ hsubject _ hpredicates =>
    have hrest := hcalm (fun part hpart ↦ List.mem_cons_of_mem first hpart) hpredicates
    exact .inl ((clear_coordination hsubject).append_calm (coordinationOver_eq_ok.1 hsubject).1 hrest)

theorem takeMood_suffix {mood mood' : Mood} {core : List String} (h : takeMood mood words = (mood', core)) :
    ∃ front, words = front ++ core ∧ ∀ w ∈ front, w = Particle.o.word := by
  rcases takeMood_cases mood words with ⟨rest, rfl, -, heq⟩ | ⟨rest, -, -, heq⟩ | ⟨-, heq⟩
  · obtain ⟨-, rfl⟩ := Prod.mk.inj (h.symm.trans heq)
    exact ⟨[Particle.o.word], rfl, by simp⟩
  · obtain ⟨-, rfl⟩ := Prod.mk.inj (h.symm.trans heq)
    exact ⟨[], rfl, by simp⟩
  · obtain ⟨-, rfl⟩ := Prod.mk.inj (h.symm.trans heq)
    exact ⟨[], rfl, by simp⟩

theorem ReadsOpened.fits {mark : Option Punctuation} {rest : OpenedClause} {s : Sentence}
    (h : ReadsOpened lex mark rest s) : Fits lex lost rest.words := by
  obtain ⟨hconj, htag, hmood, -, hla, -, hbody⟩ := h
  rename_i conjunction tagQuestion mood unjoined untagged core b
  obtain ⟨hp, hwords, -⟩ := takeConjunction_eq hconj
  obtain ⟨hunjoined, -⟩ := takeTag_eq htag
  obtain ⟨front, rfl, ho⟩ := takeMood_suffix hmood
  have hfront : ∀ w ∈ conjunction.toList.map Particle.word ++ front, ¬ IsStructural w := by
    intro w hw
    rcases List.mem_append.1 hw with hw | hw
    · obtain ⟨p, hmem, rfl⟩ := List.mem_map.1 hw
      have hp' := hp p (by simpa using hmem)
      cases p <;> simp_all [isStructural_word, Particle.isStructural, Particle.isConjunction]
    · rw [ho w hw]
      exact not_isStructural_o
  have hback : ∀ w ∈ (if tagQuestion then tag else []), ¬ IsStructural w := by
    intro w hw
    split at hw
    · exact (isQuiet_tag w hw).1
    · simp at hw
  have heq : rest.words =
      (conjunction.toList.map Particle.word ++ front) ++ (core ++ if tagQuestion then tag else []) := by
    rw [hwords, hunjoined]
    simp
  rw [heq]
  refine (Clear.of_forall hfront).append_fits ?_
  rcases hbody.clear (la_notMem_core hla hmood) with hcore | ⟨w, others, rfl, hw, hothers⟩
  · exact (hcore.append (.of_forall hback)).fits
  · exact .exclamation hw fun v hv ↦ (List.mem_append.1 hv).elim (hothers v) (hback v)

theorem clear_addressees {runs : List (List String)} {chains : List Chain}
    (h : (addressees lex runs : Except ParseError (List Chain)) = .ok chains) : ∀ run ∈ runs, Clear lex lost run := by
  intro run hrun
  by_cases hne : run = []
  · rw [hne]
    exact .nil
  · obtain ⟨c, -, hc⟩ := forall₂_exists_of_mem (mapM_eq_ok.1 h) (List.mem_filter.2 ⟨hrun, by simp [hne]⟩)
    exact clear_coordination hc

/-- A run before an `o` that calls which is neither read nor refused. -/
def PassesOver (words lost : List String) : Prop :=
  NoCommand words ∧ hasInnerO words = true ∧ Particle.li.isIn words = true ∧ lost ∈ passedOver words

theorem fits_of_clause {mark : Option Punctuation} {s : Sentence}
    (h : (clause lex words mark : Except ParseError Sentence) = .ok s)
    (hlost : ∀ run, PassesOver words run → lost run) : Fits lex lost words := by
  have hbefore {before : List String} {chains : List Chain}
      (hcalls : (addressees lex (splitDropping isO before) : Except ParseError (List Chain)) = .ok chains) :
      Clear lex lost (before ++ [Particle.o.word]) := by
    have hclear : Clear lex lost _ := .intercalate not_isStructural_o (clear_addressees hcalls)
    rw [intercalate_splitDropping eq_of_isO] at hclear
    exact hclear.append (.singleton not_isStructural_o)
  rcases clause_eq_ok.1 h with ⟨addressee, hopened, rfl⟩ | ⟨rest, hopened, hread⟩
  · cases hopened with
    | call before _ hsplit _ hcalls =>
      rw [eq_of_splitDoubleO hsplit, List.append_cons]
      exact ((hbefore hcalls).append (.singleton not_isStructural_o)).fits
  · have hfits : Fits lex lost rest.words := hread.fits
    cases hopened with
    | command before after vocatives hsplit _ _ hcalls =>
      -- what is read starts with the placeholder, which the text does not have: only its end is of use
      rw [eq_of_splitDoubleO hsplit, List.append_cons]
      refine (hbefore hcalls).append_fits ⟨(List.isChain_append.1 hfits.isChain).2.1, fun w hw ↦ ?_, fun w hw ↦ ?_⟩
      · obtain rfl : Particle.o.word = w := by simpa using hw
        exact .of_right not_isStructural_o
      · refine hfits.last w ?_
        rwa [List.getLast?_append_of_ne_nil _ (by simp)]
    | calls vocatives hnone ho hli hcalls _ =>
      have hfront : Clear lex lost ([Particle.o.word].intercalate (callRuns words ++ [[]])) := by
        refine .intercalate not_isStructural_o fun run hrun ↦ ?_
        rcases List.mem_append.1 hrun with hrun | hrun
        · exact clear_addressees hcalls run hrun
        · rw [List.mem_singleton.1 hrun]
          exact .nil
      rw [intercalate_eq_flatMap, List.append_nil] at hfront
      -- between the calls and the clause stand the runs that nothing is known of
      rw [words_eq_calls words]
      exact hfront.append_fits (hfits.of_lost fun run hrun ↦ hlost run ⟨hnone, ho, hli, hrun⟩)
    | plain => exact hfits

theorem clear_context {c : Context} (h : (context lex words : Except ParseError Context) = .ok c) :
    Clear lex lost words := by
  rcases context_eq_ok.1 h with ⟨hhead, phrases, -, hread⟩ | ⟨-, chain, -, hread⟩
  · have hcalm : Calm lex lost _ := .flatten (calm_pieces hread)
    rw [flatten_splitBefore] at hcalm
    refine ⟨hcalm, fun w hw ↦ ?_⟩
    rw [Option.mem_def.1 hw] at hhead
    exact (isQuiet_of_isPreposition hhead).1
  · exact clear_coordination hread

theorem ReadsClauses.fits {mark : Punctuation} {runs : List (List String)} {preconditions : List Sentence}
    {s : Sentence} (h : ReadsClauses lex mark runs preconditions s)
    (hlost : ∀ run ∈ runs, ∀ passed, PassesOver run passed → lost passed) : ∀ run ∈ runs, Fits lex lost run := by
  induction h with
  | conclusion h => simpa using fits_of_clause h (hlost _ (by simp))
  | condition _ h _ ih =>
    exact List.forall_mem_cons.2 ⟨fits_of_clause h (hlost _ (by simp)), ih fun run hrun ↦ hlost run (by simp [hrun])⟩
  | contextOfCondition _ _ h _ ih =>
    exact List.forall_mem_cons.2 ⟨(clear_context h).fits, ih fun run hrun ↦ hlost run (by simp [hrun])⟩
  | contextOfConclusion _ _ h _ ih =>
    exact List.forall_mem_cons.2 ⟨(clear_context h).fits, ih fun run hrun ↦ hlost run (by simp [hrun])⟩

theorem Fits.la_cons (h : Fits lex lost words) : (Particle.la.word :: words).IsChain (Near lex lost) := by
  cases words with
  | nil => exact .singleton _
  | cons w words => exact h.isChain.cons_cons (h.head w (by simp))

theorem Fits.append_la (h : Fits lex lost words) (h' : Fits lex lost words') (hne : words ≠ []) (hne' : words' ≠ []) :
    Fits lex lost (words ++ Particle.la.word :: words') := by
  refine ⟨List.isChain_append.2 ⟨h.isChain, h'.la_cons, fun v hv w hw ↦ ?_⟩, fun w hw ↦ ?_, fun w hw ↦ ?_⟩
  · obtain rfl : Particle.la.word = w := by simpa using hw
    exact h.last v hv
  · rw [List.head?_append_of_ne_nil _ hne] at hw
    exact h.head w hw
  · rw [List.getLast?_append_of_ne_nil _ (by simp), List.getLast?_cons_of_ne_nil hne'] at hw
    exact h'.last w hw

theorem Fits.intercalate_la {runs : List (List String)} (h : ∀ run ∈ runs, Fits lex lost run)
    (hne : ∀ run ∈ runs, run ≠ []) : Fits lex lost ([Particle.la.word].intercalate runs) := by
  induction runs with
  | nil => exact Clear.nil.fits
  | cons run runs ih =>
    cases runs with
    | nil => simpa using h run (by simp)
    | cons run' runs =>
      rw [List.intercalate_cons_of_ne_nil (by simp), List.append_assoc]
      have hrest := ih (fun q hq ↦ h q (by simp [hq])) (fun q hq ↦ hne q (by simp [hq]))
      refine (h run (by simp)).append_la hrest (hne run (by simp)) ?_
      exact intercalate_ne_nil _ (by simp) fun q hq ↦ hne q (by simp [hq])

theorem isChain_withImpliedLi {R : String → String → Prop} (hquiet : ∀ v w, IsQuiet v → R v w)
    (hnext : ∀ w, ¬ IsStructural w → R Particle.li.word w) :
    (withImpliedLi lex words).IsChain R ↔ words.IsChain R := by
  rcases withImpliedLi_cases lex words with heq | ⟨front, pronoun, next, rest, rfl, heq, hpronoun, hs⟩
  · rw [heq]
  · rw [heq]
    simp [List.isChain_append, List.isChain_cons_cons, hquiet _ _ hpronoun, hnext _ hs]

theorem getLast?_withImpliedLi (lex : Lexicon) (words : List String) :
    (withImpliedLi lex words).getLast? = words.getLast? := by
  rcases withImpliedLi_cases lex words with heq | ⟨front, pronoun, next, rest, rfl, heq, -, -⟩
  · rw [heq]
  · rw [heq]
    simp [List.getLast?_append]

theorem Fits.of_withImpliedLi (h : Fits lex lost (withImpliedLi lex words)) : Fits lex lost words := by
  refine ⟨(isChain_withImpliedLi ?_ ?_).1 h.isChain, ?_, ?_⟩
  · exact fun _ _ hv ↦ .of_left hv.1
  · exact fun _ hw ↦ .of_right hw
  · rw [← head?_withImpliedLi lex words]
    exact h.head
  · rw [← getLast?_withImpliedLi lex words]
    exact h.last

/-- A run of a sentence that is neither read nor refused. -/
def IsLost (lex : Lexicon) (words lost : List String) : Prop :=
  ∃ run ∈ laRuns words, PassesOver (withImpliedLi lex run) lost

theorem isChain_sentence {mark : Punctuation} {shown : String} {s : Sentence} (hne : words ≠ [])
    (h : (sentence lex words mark shown : Except ParseError Sentence) = .ok s) :
    words.IsChain (Near lex (IsLost lex words)) := by
  rcases (sentence_eq_ok hne).1 h with ⟨first, c, rfl, hc, -⟩ | ⟨preconditions, conclusion, hread, -⟩
  · exact (clear_coordination hc).isChain_append (.singleton _)
  · have hlost : ∀ run ∈ laRuns words, ∀ passed, PassesOver (withImpliedLi lex run) passed → IsLost lex words passed :=
      fun run hrun _ hpassed ↦ ⟨run, hrun, hpassed⟩
    have hfits := List.forall_mem_map.1 (hread.fits (List.forall_mem_map.2 hlost))
    have hnil := List.forall_mem_map.1 hread.run_ne_nil
    have hwords := Fits.intercalate_la (fun run hrun ↦ (hfits run hrun).of_withImpliedLi) (fun run hrun ↦ ?_)
    · rw [laRuns, intercalate_splitDropping eq_of_isLa] at hwords
      cases words with
      | nil => exact absurd rfl hne
      | cons w rest =>
        rw [stripLeading] at hwords
        split at hwords
        case isTrue hw =>
          rw [eq_of_isLa w hw] at hwords ⊢
          exact hwords.la_cons
        · exact hwords.isChain
    · rintro rfl
      exact hnil [] hrun rfl

theorem ReadsPredicate.pi_cons {part : List String} {p : Predicate} (h : ReadsPredicate lex part p)
    (hpi : p.kind.isPi = true) : ∃ rest, part = p.particle.word :: Particle.pi.word :: rest := by
  obtain ⟨c, hc⟩ := PredicateKind.isPi_iff.1 hpi
  have hverb {verb : List String} {kind : Option PredicateKind}
      (hkind : (predicateKind lex verb : Except ParseError (Option PredicateKind)) = .ok kind)
      (hc : kind.getD (.verb {}) = .pi c) : ∃ rest, verb = Particle.pi.word :: rest := by
    have hspelling := spelling_predicateKind hkind
    rw [hc] at hspelling
    exact ⟨_, hspelling.symm⟩
  cases h with
  | transitive _ _ hkind _ _ =>
    obtain ⟨rest, rfl⟩ := hverb hkind hc
    exact ⟨_, rfl⟩
  | intransitive _ _ _ _ hkind _ _ =>
    obtain ⟨rest, rfl⟩ := hverb hkind hc
    exact ⟨_, rfl⟩
  | promoted => simp at hc

theorem ReadsOpened.exists_part {mark : Option Punctuation} {rest : OpenedClause} {s : SimpleSentence}
    (h : ReadsOpened lex mark rest (.simple s)) :
    ∀ p ∈ s.predicates, ∃ part, part <:+: rest.words ∧ ReadsPredicate lex part p := by
  obtain ⟨unjoined, untagged, core, hconj, htag, hmood, -, hbody⟩ := h.of_simple
  intro p hp
  obtain ⟨-, hwords, -⟩ := takeConjunction_eq hconj
  obtain ⟨hunjoined, -⟩ := takeTag_eq htag
  obtain ⟨front, rfl, -⟩ := takeMood_suffix hmood
  obtain ⟨part, hpart, hread⟩ := hbody.of_predication.2.2 p hp
  have hcore : part <:+: core := by
    have hwithin := List.infix_of_mem_flatten hpart
    rwa [flatten_splitBefore] at hwithin
  refine ⟨part, hcore.trans ⟨s.conjunction.toList.map Particle.word ++ front, if s.tagQuestion then tag else [], ?_⟩,
    hread⟩
  rw [hwords, hunjoined]
  simp

theorem infix_of_append {x : String} {xs : List String} (h : x :: xs <:+: words ++ words') (hx : x ∉ words) :
    x :: xs <:+: words' := by
  induction words with
  | nil => exact h
  | cons w words ih =>
    rcases List.infix_cons_iff.1 h with hprefix | hwithin
    · exact absurd (List.cons_prefix_cons.1 hprefix).1 (fun heq ↦ hx (by simp [heq]))
    · exact ih hwithin (fun hmem ↦ hx (by simp [hmem]))

theorem pi_infix_of_clause {mark : Option Punctuation} {s : SimpleSentence}
    (h : (clause lex words mark : Except ParseError Sentence) = .ok (.simple s)) :
    ∀ p ∈ s.predicates, p.kind.isPi = true →
      p.particle.isGoverning = true ∧ [p.particle.word, Particle.pi.word] <:+: words := by
  intro p hp hpi
  rcases clause_eq_ok.1 h with ⟨c, -, hs⟩ | ⟨rest, hopened, hread⟩
  · simp at hs
  · obtain ⟨part, hpart, hpread⟩ := hread.exists_part p hp
    refine ⟨hpread.eq_cons.1, ?_⟩
    obtain ⟨others, rfl⟩ := hpread.pi_cons hpi
    have hwithin : [p.particle.word, Particle.pi.word] <:+: rest.words :=
      (List.prefix_append _ others).isInfix.trans hpart
    cases hopened with
    | command before after vocatives hsplit _ _ _ =>
      have hplaceholder : p.particle.word ∉ placeholderSubject := by
        cases p.particle <;> decide
      rw [eq_of_splitDoubleO hsplit, List.append_cons]
      exact (infix_of_append hwithin hplaceholder).trans (List.suffix_append _ _).isInfix
    | calls =>
      have hsuffix : afterLastO words <:+ words := by
        conv_rhs => rw [words_eq_calls words, ← List.append_assoc]
        exact List.suffix_append _ _
      exact hwithin.trans hsuffix.isInfix
    | plain => exact hwithin

theorem infix_of_mem_laRuns {run : List String} (h : run ∈ laRuns words) : run <:+: words := by
  have hwithin : run <:+: stripLeading isLa words := by
    rw [← intercalate_splitDropping eq_of_isLa (stripLeading isLa words)]
    exact infix_intercalate h
  refine hwithin.trans (List.IsSuffix.isInfix ?_)
  cases words with
  | nil => exact List.suffix_rfl
  | cons w rest =>
    rw [stripLeading]
    split
    · exact List.suffix_cons w rest
    · exact List.suffix_rfl

theorem pair_infix_of_withImpliedLi {v : String} (hv : ¬ IsQuiet v)
    (h : [v, Particle.pi.word] <:+: withImpliedLi lex words) : [v, Particle.pi.word] <:+: words := by
  -- a pair is absent if the run is a chain for the relation that excludes it
  have hpair (l : List String) :
      [v, Particle.pi.word] <:+: l ↔ ¬ l.IsChain fun a b ↦ ¬ (a = v ∧ b = Particle.pi.word) := by
    rw [List.isChain_iff_forall_rel_of_append_cons_cons]
    constructor
    · rintro ⟨before, after, rfl⟩ hchain
      exact @hchain v Particle.pi.word before after (by simp) ⟨rfl, rfl⟩
    · intro hchain
      push Not at hchain
      obtain ⟨a, b, before, after, rfl, rfl, rfl⟩ := hchain
      exact ⟨before, after, by simp⟩
  rw [hpair] at h ⊢
  rwa [isChain_withImpliedLi] at h
  · rintro a b ha ⟨rfl, -⟩
    exact hv ha
  · rintro w hw ⟨-, rfl⟩
    exact hw (isStructural_word.2 rfl)

/-- Two words with a mark or quote mark between them, and nothing else. -/
def Parted (tokens : List Token) (t u : Token) : Prop := ∃ before marks after,
  tokens = before ++ t :: (marks ++ u :: after) ∧ marks ≠ [] ∧ ∀ mark ∈ marks, mark.isWord = false

theorem infix_or_parted {tokens : List Token} {t u : Token} (h : [t, u] <:+: tokens.filter Token.isWord) :
    [t, u] <:+: tokens ∨ Parted tokens t u := by
  obtain ⟨init, rest, heq⟩ := h
  rw [List.append_assoc] at heq
  obtain ⟨before, tokens, rfl, -, htokens⟩ := List.filter_eq_append_iff.1 heq.symm
  obtain ⟨marks, tokens, rfl, -, -, htokens⟩ := List.filter_eq_cons_iff.1 htokens
  obtain ⟨marks', after, rfl, hmarks, -, -⟩ := List.filter_eq_cons_iff.1 htokens
  cases marks' with
  | nil => exact .inl ⟨before ++ marks, after, by simp⟩
  | cons mark marks' => exact .inr ⟨before ++ marks, mark :: marks', after, by simp, by simp, by simpa using hmarks⟩

theorem exists_tokens {text v w : String} (h : [v, w] <:+: wordsOf text) :
    ∃ t u, [t, u] <:+: (tokenize text).filter Token.isWord ∧ t.text = v ∧ u.text = w := by
  obtain ⟨tokens, hwithin, heq⟩ := List.infix_map_iff.1 h
  match tokens, heq with
  | [t, u], heq =>
    simp only [List.map_cons, List.map_nil, List.cons.injEq, and_true] at heq
    exact ⟨t, u, hwithin, heq.1.symm, heq.2.symm⟩

end Reading

open Reading

variable {g : Grammar} {text shown : String} {s : Sentence}

theorem Grammar.pi_infix_of_parse (h : g.parse text shown = .ok s) : ∀ simple ∈ s.simples, ∀ p ∈ simple.predicates,
    p.kind.isPi = true → p.particle.isGoverning = true ∧ [p.particle.word, Particle.pi.word] <:+: wordsOf text := by
  refine Grammar.forall_simples h (fun run hrun mark simple hclause p hp hpi ↦ ?_) (fun _ _ _ _ hsimple ↦ hsimple)
  obtain ⟨hgov, hwithin⟩ := pi_infix_of_clause hclause p hp hpi
  have hloud : ¬ IsQuiet p.particle.word := by
    rw [isQuiet_word]
    cases hparticle : p.particle <;> simp_all [Particle.isGoverning, Particle.isStructural]
  exact ⟨hgov, (pair_infix_of_withImpliedLi hloud hwithin).trans (infix_of_mem_laRuns hrun)⟩

/-- Structural particles that stand side by side once marks are dropped: a mark has to part them, unless the dialect has
`li pi`, and even so they are few, where no run is lost. -/
structure Grammar.KeepsApart (g : Grammar) (text : String) (s : Sentence) : Prop where
  particles : ∀ t u, [t, u] <:+: (tokenize text).filter Token.isWord →
    ∀ p q, structural? t = some p → structural? u = some q →
    (p = .li ∧ q = .pi ∧ g.dialect.liPi = true) ∨
      (Parted (tokenize text) t u ∧
        ((p = .li ∧ (q = .pi ∨ q = .e)) ∨
          (p = .la ∧ g.lexicon.isInterjection q.word = true) ∨ (q = .la ∧ g.lexicon.isInterjection p.word = true) ∨
            ∃ run, IsLost g.lexicon (wordsOf text) run ∧ [p.word, q.word] <:+: Particle.la.word :: run))
  predicates : g.dialect = .strict → ∀ simple ∈ s.simples, ∀ p ∈ simple.predicates, p.kind.isPi = true →
    ∃ t u, Parted (tokenize text) t u ∧ t.is p.particle = true ∧ u.is .pi = true

/-- Structural particles are kept apart, in the text or by a mark, in every text that is read as a sentence. -/
theorem Grammar.keepsApart_of_parse (g : Grammar) {text shown : String} {s : Sentence} (h : g.parse text shown = .ok s)
    (hs : ∀ comment, s ≠ .comment comment) : g.KeepsApart text s := by
  rcases (Grammar.parse_eq_ok.1 h).2.2 with ⟨-, rfl⟩ | ⟨-, hcheck, -, -, hne, mark, -, hread⟩
  · exact absurd rfl (hs text)
  rw [adjacencyError?_eq_none] at hcheck
  -- the check sees neighbours in the text, so what it would refuse has a mark in between
  have hparted {t u : Token} (hwithin : [t, u] <:+: (tokenize text).filter Token.isWord)
      (hclash : ¬ TokenMayFollow g.dialect t u) : Parted (tokenize text) t u := by
    refine (infix_or_parted hwithin).resolve_left fun hnext ↦ hclash ?_
    simpa using hcheck.infix hnext
  constructor
  · intro t u hwithin p q hp hq
    have ht := hp
    have hu := hq
    rw [eq_ofWord (hwithin.subset (by simp : t ∈ [t, u])), structural?_ofWord] at ht
    rw [eq_ofWord (hwithin.subset (by simp : u ∈ [t, u])), structural?_ofWord] at hu
    by_cases hlipi : p = .li ∧ q = .pi ∧ g.dialect.liPi = true
    · exact .inl hlipi
    refine .inr ⟨hparted hwithin fun hmay ↦ hlipi ((hmay q hq).2 p hp), ?_⟩
    have hchain := isChain_sentence hne hread
    have hnear : Near g.lexicon (IsLost g.lexicon (wordsOf text)) t.text u.text := by
      simpa using hchain.infix (hwithin.map Token.text)
    simpa only [ht.2, hu.2, Particle.word_inj] using hnear ⟨p, ht⟩ ⟨q, hu⟩
  · intro hstrict simple hsimple p hp hopens
    obtain ⟨hgov, hwithin⟩ := Grammar.pi_infix_of_parse h simple hsimple p hp hopens
    obtain ⟨t, u, hwithin, ht, hu⟩ := exists_tokens hwithin
    have ht' := eq_ofWord (hwithin.subset (by simp : t ∈ [t, u]))
    have hu' := eq_ofWord (hwithin.subset (by simp : u ∈ [t, u]))
    have hp' : t.is p.particle = true := by
      rw [ht']
      exact is_ofWord.2 ht
    have hpi : structural? u = some .pi := by
      rw [hu']
      exact structural?_ofWord.2 ⟨rfl, hu⟩
    refine ⟨t, u, hparted hwithin fun hmay ↦ ?_, hp', ?_⟩
    · obtain ⟨ho, hli⟩ := hmay .pi hpi
      rcases eq_or_ne p.particle .o with heq | hne
      · simp [heq, ho] at hp'
      · have hli' : structural? t = some .li := by
          rw [ht']
          exact structural?_ofWord.2 ⟨rfl, by rw [ht, particle_eq_li hgov hne]⟩
        simpa [hstrict, Dialect.strict] using (hli .li hli').2.2
    · rw [hu']
      exact is_ofWord.2 hu

/-- A comma hides `li pi` from a strict dialect, which refuses the sentence once it is written out without the comma. -/
theorem Grammar.keepsApart_comma :
    let g : Grammar := ⟨Dictionary.standard.lexicon, .strict⟩
    let text := "ona li, pi jan pona."
    ∃ s, g.parse text text = .ok s ∧ g.KeepsApart text s ∧
      [Token.ofWord 4 "li", Token.ofWord 8 "pi"] <:+: (tokenize text).filter Token.isWord ∧
      (∃ simple ∈ s.simples, ∃ p ∈ simple.predicates, p.kind.isPi = true) ∧
      (g.parse s.text s.text).isOk = false := by
  intro g text
  obtain ⟨s, hs, hfound⟩ := map_eq_ok.1 (show
    (fun s ↦ (s.simples.map fun simple ↦ simple.predicates.map (·.kind.isPi), s.text)) <$> g.parse text text =
      .ok ([[true]], "ona li pi jan pona.") by decide +kernel)
  obtain ⟨hpi, htext⟩ := Prod.mk.inj hfound
  refine ⟨s, hs, Grammar.keepsApart_of_parse g hs ?_, by decide +kernel, ?_, ?_⟩
  · rintro comment rfl
    simp [Sentence.simples] at hpi
  · obtain ⟨simple, hsimple, hpi⟩ := List.map_eq_singleton_iff.1 hpi
    obtain ⟨p, hp, hkind⟩ := List.map_eq_singleton_iff.1 hpi
    exact ⟨simple, by simp [hsimple], p, by simp [hp], hkind⟩
  · rw [htext]
    decide +kernel

end TokiPona
