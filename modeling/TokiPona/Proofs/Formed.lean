import TokiPona.Proofs.Shape

namespace TokiPona

open Reading

structure SimpleSentence.IsRead (lex : Lexicon) (s : SimpleSentence) : Prop extends s.IsFormed lex where
  vocatives_read : ∀ c ∈ s.vocatives, ∃ words, (coordination lex words : Except ParseError Chain) = .ok c
  subject_read : ∀ c ∈ s.subject, ∃ words, (coordination lex words : Except ParseError Chain) = .ok c
  predicates_read : ∀ p ∈ s.predicates, ∃ part, ReadsPredicate lex part p ∧
    ∀ w ∈ part.tail, w ≠ Particle.li.word ∧ w ≠ Particle.la.word ∧ w ≠ Particle.o.word

inductive Sentence.IsRead (lex : Lexicon) : Sentence → Prop
  | simple {s : SimpleSentence} (h : s.IsRead lex) : IsRead lex (.simple s)
  | vocative {words : List String} {c : Chain} (mark : Option Punctuation)
      (h : (coordination lex words : Except ParseError Chain) = .ok c) : IsRead lex (.vocative c mark)
  | exclamation {words : List String} {phrase : Phrase} (mark : Option Punctuation)
      (h : Reading.exclamation lex words = some phrase) (hla : Particle.la.word ∉ words) : IsRead lex (.exclamation phrase mark)

namespace Reading

variable {lex : Lexicon} {words : List String}

theorem ReadsPredicate.eq_cons {part : List String} {p : Predicate} (h : ReadsPredicate lex part p) :
    p.particle.isGoverning = true ∧ ∃ rest, rest ≠ [] ∧ part = p.particle.word :: rest := by
  obtain ⟨particle, rest, hgov, hne, heq⟩ := governed_of_predicate (predicate_eq_ok.2 h)
  obtain ⟨body, -, hclause, -⟩ := h.mem_spelling
  rw [heq] at hclause
  obtain ⟨hword, -⟩ := List.cons.inj hclause
  obtain rfl := Particle.word_inj.1 hword
  exact ⟨hgov, rest, hne, heq⟩

theorem particle_eq_li {p : Particle} (h : p.isGoverning = true) (ho : p ≠ .o) : p = .li := by
  cases p <;> simp_all [Particle.isGoverning]

theorem particle_eq_o {p : Particle} (h : p.isGoverning = true) (hli : p ≠ .li) : p = .o := by
  cases p <;> simp_all [Particle.isGoverning]

theorem mem_tail_part {core part : List String} (hla : Particle.la.word ∉ core) (h : part ∈ splitBefore isGovernor core) :
    ∀ w ∈ part.tail, w ≠ Particle.li.word ∧ w ≠ Particle.la.word ∧ w ≠ Particle.o.word := by
  intro w hw
  obtain ⟨hli, ho⟩ := isGovernor_eq_false.1 (not_of_mem_tail_splitBefore h w hw)
  refine ⟨hli, ?_, ho⟩
  rintro rfl
  exact hla (mem_of_mem_splitBefore h _ (List.mem_of_mem_tail hw))

theorem exists_part {parts : List (List String)} {predicates : List Predicate}
    (h : List.Forall₂ (ReadsPredicate lex) parts predicates) {p : Predicate} (hp : p ∈ predicates) :
    ∃ part ∈ parts, ReadsPredicate lex part p := by
  obtain ⟨part, hpart, hread⟩ := forall₂_exists_of_mem h.flip hp
  exact ⟨part, hpart, hread⟩

theorem particle_of_notMem {core : List String} {parts : List (List String)} {predicates : List Predicate}
    (h : List.Forall₂ (ReadsPredicate lex) parts predicates) (hparts : ∀ part ∈ parts, ∀ w ∈ part, w ∈ core) :
    (Particle.o.word ∉ core → ∀ p ∈ predicates, p.particle = .li) ∧
      (Particle.li.word ∉ core → ∀ p ∈ predicates, p.particle = .o) := by
  have hmem : ∀ p ∈ predicates, p.particle.isGoverning = true ∧ p.particle.word ∈ core := by
    intro p hp
    obtain ⟨part, hpart, hread⟩ := exists_part h hp
    obtain ⟨hgov, rest, -, rfl⟩ := hread.eq_cons
    exact ⟨hgov, hparts _ hpart _ (by simp)⟩
  refine ⟨fun ho p hp ↦ particle_eq_li (hmem p hp).1 ?_, fun hli p hp ↦ particle_eq_o (hmem p hp).1 ?_⟩
  · exact fun heq ↦ ho (heq ▸ (hmem p hp).2)
  · exact fun heq ↦ hli (heq ▸ (hmem p hp).2)

theorem getLast?_parts_ne_o {parts : List (List String)} {predicates : List Predicate}
    (h : List.Forall₂ (ReadsPredicate lex) parts predicates) (hne : parts ≠ [])
    (htail : ∀ part ∈ parts, ∀ w ∈ part.tail, w ≠ Particle.o.word) (words : List String) :
    (words ++ parts.flatten).getLast? ≠ some Particle.o.word := by
  obtain ⟨init, last, rfl⟩ : ∃ init last, parts = init ++ [last] := ⟨_, _, (List.dropLast_concat_getLast hne).symm⟩
  obtain ⟨p, -, hp⟩ := forall₂_exists_of_mem h (by simp : last ∈ init ++ [last])
  obtain ⟨-, rest, hrest, rfl⟩ := hp.eq_cons
  intro hlast
  rw [List.flatten_append, ← List.append_assoc, List.flatten_singleton, List.getLast?_append_of_ne_nil _ (by simp),
    List.getLast?_cons_of_ne_nil hrest] at hlast
  exact htail (p.particle.word :: rest) (by simp) _ (List.mem_of_getLast? hlast) rfl

theorem o_notMem_of_hasInnerO {before core after : List String} (h : hasInnerO (before ++ (core ++ after)) = false)
    (hhead : before = [] → core.head? ≠ some Particle.o.word) (hlast : core.getLast? ≠ some Particle.o.word) :
    Particle.o.word ∉ core := by
  intro hmem
  obtain ⟨init, rest, rfl⟩ := List.append_of_mem hmem
  have hrest : rest ≠ [] := by
    rintro rfl
    simp at hlast
  have hinit : before ++ init ≠ [] := by
    intro hnil
    obtain ⟨rfl, rfl⟩ := List.append_eq_nil_iff.1 hnil
    exact hhead rfl rfl
  have hinner := hasInnerO_append hinit (List.append_ne_nil_of_left_ne_nil hrest after)
  rw [List.append_assoc, ← List.cons_append, ← List.append_assoc init, h] at hinner
  simp at hinner

theorem head?_tidy {v : String} (h : isEn v = false) (rest : List String) : (tidy (v :: rest)).head? = some v := by
  obtain ⟨piece, pieces, heq⟩ := splitDropping_cons h rest
  rw [tidy, heq, List.filter_cons_of_pos (by simp)]
  cases pieces.filter (!·.isEmpty) <;> simp [List.intercalate_cons_of_ne_nil]

theorem head?_subject {first rest : List String} {c : Chain} (hc : (coordination lex first : Except ParseError Chain) = .ok c)
    (hrest : rest ≠ []) (h : ¬ OpensWithConjunction (first ++ rest)) :
    ∀ w ∈ c.spelling.head?, ∀ p : Particle, p.isConjunction = true → w ≠ p.word := by
  obtain ⟨v, first, rfl⟩ := List.exists_cons_of_ne_nil (coordinationOver_eq_ok.1 hc).1
  have hv : ∀ p : Particle, p.isConjunction = true → v ≠ p.word := by
    rintro p hp rfl
    exact h ⟨p, hp, first ++ rest, by simp [hrest], rfl⟩
  rw [spelling_coordination hc, head?_tidy (by simpa [isEn] using hv .en rfl)]
  rintro w hw
  obtain rfl : v = w := by simpa using hw
  exact hv

theorem takeConjunction_eq {conjunction : Option Particle} {unjoined : List String}
    (h : takeConjunction words = (conjunction, unjoined)) : (∀ p ∈ conjunction, p.isConjunction = true) ∧
      words = conjunction.toList.map Particle.word ++ unjoined ∧ (conjunction = none → ¬ OpensWithConjunction words) := by
  rcases takeConjunction_cases words with ⟨p, rest, hp, -, rfl, heq⟩ | ⟨hnone, heq⟩
  · obtain ⟨rfl, rfl⟩ := Prod.mk.inj (h.symm.trans heq)
    exact ⟨by simpa using hp, rfl, nofun⟩
  · obtain ⟨rfl, rfl⟩ := Prod.mk.inj (h.symm.trans heq)
    exact ⟨by simp, rfl, fun _ ↦ hnone⟩

theorem takeTag_eq {tagQuestion : Bool} {untagged : List String} (h : takeTag words = (tagQuestion, untagged)) :
    words = untagged ++ (if tagQuestion then tag else []) ∧ (tagQuestion = false → ¬ EndsInTag words) := by
  rcases takeTag_cases words with ⟨init, -, rfl, heq⟩ | ⟨hnone, heq⟩
  · obtain ⟨rfl, rfl⟩ := Prod.mk.inj (h.symm.trans heq)
    exact ⟨rfl, nofun⟩
  · obtain ⟨rfl, rfl⟩ := Prod.mk.inj (h.symm.trans heq)
    exact ⟨by simp, fun _ ↦ hnone⟩

theorem read_of_addressees {runs : List (List String)} {chains : List Chain}
    (h : (addressees lex runs : Except ParseError (List Chain)) = .ok chains) :
    ∀ c ∈ chains, ∃ words, (coordination lex words : Except ParseError Chain) = .ok c := by
  intro c hc
  obtain ⟨run, -, hread⟩ := forall₂_exists_of_mem (mapM_eq_ok.1 h).flip hc
  exact ⟨run, hread⟩

theorem Opened.vocatives_read {rest : OpenedClause} (h : Opened lex words (.clause rest)) :
    ∀ c ∈ rest.vocatives, ∃ words, (coordination lex words : Except ParseError Chain) = .ok c := by
  cases h with
  | command before after vocatives _ _ _ hcalls => exact read_of_addressees hcalls
  | calls vocatives _ _ _ hcalls _ => exact read_of_addressees hcalls
  | plain => simp

section

variable {conjunction : Option Particle} {tagQuestion : Bool} {mood : Mood}
  {unjoined untagged core first : List String} {parts : List (List String)} {subject : Chain} {predicates : List Predicate}

theorem head?_subject_of_take (hconj : takeConjunction words = (conjunction, unjoined))
    (htag : takeTag unjoined = (tagQuestion, untagged)) (huntagged : untagged = first ++ parts.flatten)
    (hsubject : (coordination lex first : Except ParseError Chain) = .ok subject) (hne : parts ≠ [])
    (hpredicates : List.Forall₂ (ReadsPredicate lex) parts predicates) :
    conjunction = none → ∀ w ∈ subject.spelling.head?, ∀ p : Particle, p.isConjunction = true → w ≠ p.word := by
  intro hnone
  obtain ⟨-, hwords, hopens⟩ := takeConjunction_eq hconj
  obtain ⟨hunjoined, -⟩ := takeTag_eq htag
  have hparts : parts.flatten ≠ [] := by
    obtain ⟨part, others, rfl⟩ := List.exists_cons_of_ne_nil hne
    obtain ⟨p, ps, hp, -, rfl⟩ := List.forall₂_cons_left_iff.1 hpredicates
    obtain ⟨-, tail, -, rfl⟩ := hp.eq_cons
    simp
  refine head?_subject hsubject (List.append_ne_nil_of_left_ne_nil hparts (if tagQuestion then tag else [])) ?_
  have heq : words = first ++ (parts.flatten ++ if tagQuestion then tag else []) := by
    rw [hwords, hnone, hunjoined, huntagged]
    simp
  rw [← heq]
  exact hopens hnone

theorem head?_of_splitBefore {first : List String} {others : List (List String)}
    (h : splitBefore isGovernor core = first :: others) : core.head? = first.head? := by
  have hflat := flatten_splitBefore isGovernor core
  obtain ⟨hne, -, -⟩ := splitBefore_eq_cons h
  obtain ⟨w, first, rfl⟩ := List.exists_cons_of_ne_nil hne
  rw [← hflat, h]
  rfl

theorem notMem_tail_parts (hla : Particle.la.word ∉ core) :
    ∀ part ∈ splitBefore isGovernor core, ∀ w ∈ part.tail, w ≠ Particle.o.word :=
  fun _ hpart w hw ↦ (mem_tail_part hla hpart w hw).2.2

theorem stated_of_head {b : Option Chain} (hhead : core.head? ≠ some Particle.o.word)
    (h : ReadsBody lex (splitBefore isGovernor core) (.predication b predicates)) :
    ∃ first others subject, splitBefore isGovernor core = first :: others ∧ b = some subject ∧
      (coordination lex first : Except ParseError Chain) = .ok subject ∧ others ≠ [] ∧
        List.Forall₂ (ReadsPredicate lex) others predicates := by
  generalize hparts : splitBefore isGovernor core = parts at h
  cases h with
  | command hfirst =>
    rw [head?_of_splitBefore hparts] at hhead
    exact absurd hfirst hhead
  | statement hsubject hne hpredicates => exact ⟨_, _, _, rfl, rfl, hsubject, hne, hpredicates⟩

theorem getLast?_core_ne_o {b : Option Chain} (hla : Particle.la.word ∉ core)
    (h : ReadsBody lex (splitBefore isGovernor core) (.predication b predicates)) :
    core.getLast? ≠ some Particle.o.word := by
  have hflat := flatten_splitBefore isGovernor core
  have htail := notMem_tail_parts hla
  generalize splitBefore isGovernor core = parts at h hflat htail
  rw [← hflat]
  cases h with
  | command _ _ hpredicates => simpa using getLast?_parts_ne_o hpredicates (by simp) htail []
  | @statement first rest _ _ _ hne hpredicates =>
    exact getLast?_parts_ne_o hpredicates hne (fun part hpart ↦ htail part (by simp [hpart])) first

theorem mem_core_of_part {first : List String} {others : List (List String)}
    (hparts : splitBefore isGovernor core = first :: others) : ∀ part ∈ others, ∀ w ∈ part, w ∈ core :=
  fun _ hpart ↦ mem_of_mem_splitBefore (hparts ▸ List.mem_cons_of_mem first hpart)

theorem hasShape_plain {subject : Option Chain} (hinner : (hasInnerO words && Particle.li.isIn words) = false)
    (hconj : takeConjunction words = (conjunction, unjoined)) (htag : takeTag unjoined = (tagQuestion, untagged))
    (hmood : takeMood .declarative untagged = (mood, core)) (hla : Particle.la.word ∉ untagged)
    (hbody : ReadsBody lex (splitBefore isGovernor core) (.predication subject predicates)) (mark : Option Punctuation) :
    SimpleSentence.HasShape lex { subject, predicates, punctuation := mark, conjunction, tagQuestion, mood } := by
  obtain ⟨-, hwords, -⟩ := takeConjunction_eq hconj
  obtain ⟨hunjoined, -⟩ := takeTag_eq htag
  rw [hunjoined] at hwords
  have hno (hli : Particle.li.word ∈ words) : hasInnerO words = false := by
    simpa [Particle.isIn_iff.2 hli] using hinner
  rcases takeMood_cases .declarative untagged with ⟨rest, rfl, hli, heq⟩ | ⟨rest, rfl, hli, heq⟩ | ⟨hhead, heq⟩
  · -- An `o` and later a `li`: nothing may stand in front of the `o`, or it would have ended a call.
    obtain ⟨rfl, rfl⟩ := Prod.mk.inj (hmood.symm.trans heq)
    have hwish := hno (by rw [hwords]; simp [hli])
    have hnone : conjunction = none := by
      by_contra hsome
      obtain ⟨p, rfl⟩ := Option.ne_none_iff_exists'.1 hsome
      have hinner := @hasInnerO_append [p.word] (core ++ if tagQuestion then tag else []) (by simp)
        (List.append_ne_nil_of_left_ne_nil (List.ne_nil_of_mem hli) _)
      rw [hwords] at hwish
      simp_all
    subst hnone
    have hwish' : hasInnerO ([Particle.o.word] ++ (core ++ if tagQuestion then tag else [])) = false := by
      simpa [hwords] using hwish
    have hla' : Particle.la.word ∉ core := fun hmem ↦ hla (by simp [hmem])
    have ho := o_notMem_of_hasInnerO hwish' (by simp) (getLast?_core_ne_o hla' hbody)
    obtain ⟨first, others, c, hparts, rfl, -, -, hpredicates⟩ :=
      stated_of_head (fun hhead ↦ ho (List.mem_of_head? hhead)) hbody
    exact .wish c rfl rfl rfl rfl rfl ((particle_of_notMem hpredicates (mem_core_of_part hparts)).1 ho)
  · -- An `o` and no `li`: the `o` opens the first part, which is then no subject.
    obtain ⟨rfl, rfl⟩ := Prod.mk.inj (hmood.symm.trans heq)
    have hli' : Particle.li.word ∉ Particle.o.word :: rest := by simpa [Particle.word] using hli
    generalize hparts : splitBefore isGovernor (Particle.o.word :: rest) = parts at hbody
    have hmem : ∀ part ∈ parts, ∀ w ∈ part, w ∈ Particle.o.word :: rest := by
      rw [← hparts]
      exact fun part hpart ↦ mem_of_mem_splitBefore hpart
    cases hbody with
    | command _ _ hpredicates => exact .command rfl rfl rfl rfl ((particle_of_notMem hpredicates hmem).2 hli')
    | statement hsubject _ _ =>
      have hhead := head?_of_splitBefore hparts
      exact absurd rfl (notMem_of_coordination hsubject _ (List.mem_of_head? hhead.symm)).2.2.1
  · obtain ⟨rfl, rfl⟩ := Prod.mk.inj (hmood.symm.trans heq)
    obtain ⟨first, others, c, hparts, rfl, hc, hne, hpredicates⟩ := stated_of_head hhead hbody
    have hflat := flatten_splitBefore isGovernor core
    rw [hparts] at hflat
    have hsubject := head?_subject_of_take hconj htag hflat.symm hc hne hpredicates
    obtain ⟨hallLi, hallO⟩ := particle_of_notMem hpredicates (mem_core_of_part hparts)
    by_cases hli : Particle.li.word ∈ core
    · have hinner' : hasInnerO (conjunction.toList.map Particle.word ++ (core ++ if tagQuestion then tag else [])) = false := by
        rw [← hwords]
        exact hno (by rw [hwords]; simp [hli])
      have ho := o_notMem_of_hasInnerO hinner' (fun _ ↦ hhead) (getLast?_core_ne_o hla hbody)
      exact .statement c rfl rfl rfl hsubject (hallLi ho)
    · exact .request c rfl rfl rfl rfl hsubject (hallO hli)

theorem hasShape_calls {subject : Option Chain} (ho : Particle.o.word ∉ words)
    (hconj : takeConjunction words = (conjunction, unjoined)) (htag : takeTag unjoined = (tagQuestion, untagged))
    (hmood : takeMood .declarative untagged = (mood, core))
    (hbody : ReadsBody lex (splitBefore isGovernor core) (.predication subject predicates)) (mark : Option Punctuation)
    (vocatives : List Chain) :
    SimpleSentence.HasShape lex { subject, predicates, punctuation := mark, conjunction, vocatives, tagQuestion, mood } := by
  have hcore : Particle.o.word ∉ core := fun hmem ↦ ho (mem_of_mem_core hconj htag hmood hmem)
  have hhead : untagged.head? ≠ some Particle.o.word := by
    rintro hhead
    obtain ⟨rest, rfl⟩ := List.head?_eq_some_iff.1 hhead
    obtain ⟨-, hwords, -⟩ := takeConjunction_eq hconj
    obtain ⟨hunjoined, -⟩ := takeTag_eq htag
    exact ho (by simp [hwords, hunjoined])
  obtain ⟨rfl, rfl⟩ := Prod.mk.inj (hmood.symm.trans (takeMood_of_head_ne hhead))
  obtain ⟨first, others, c, hparts, rfl, hc, hne, hpredicates⟩ := stated_of_head hhead hbody
  have hflat := flatten_splitBefore isGovernor core
  rw [hparts] at hflat
  have hsubject := head?_subject_of_take hconj htag hflat.symm hc hne hpredicates
  exact .statement c rfl rfl rfl hsubject ((particle_of_notMem hpredicates (mem_core_of_part hparts)).1 hcore)

theorem hasShape_told {subject : Option Chain} {vocatives : List Chain} {after : List String} (hafter : after ≠ [])
    (hvocatives : vocatives ≠ [])
    (hconj : takeConjunction (placeholderSubject ++ Particle.o.word :: after) = (conjunction, unjoined))
    (htag : takeTag unjoined = (tagQuestion, untagged)) (hmood : takeMood .imperative untagged = (mood, core))
    (hbody : ReadsBody lex (splitBefore isGovernor core) (.predication subject predicates)) (mark : Option Punctuation) :
    SimpleSentence.HasShape lex
      { subject, predicates, punctuation := mark, conjunction, vocatives, tagQuestion, mood, placeholder := true } := by
  obtain ⟨rfl, -, rfl, rfl, told, rfl, -⟩ := take_told hafter hconj htag hmood
  obtain ⟨c, hsubject, ⟨-, heq⟩ | ⟨predicates', hpredicates, heq⟩⟩ := hbody.of_told
  · simp at heq
  · obtain ⟨rfl, rfl⟩ := Body.predication.inj heq
    obtain ⟨part, parts, hparts⟩ := splitBefore_cons isGovernor Particle.o.word told
    rw [hparts] at hpredicates
    obtain ⟨p, others, hp, -, rfl⟩ := List.forall₂_cons_left_iff.1 hpredicates
    obtain ⟨-, rest, -, heq⟩ := hp.eq_cons
    exact .told _ p others rfl rfl hvocatives rfl rfl hsubject rfl (Particle.word_inj.1 (List.cons.inj heq).1.symm)

theorem ReadsBody.of_predication {parts : List (List String)} {subject : Option Chain}
    (h : ReadsBody lex parts (.predication subject predicates)) :
    (∀ c ∈ subject, ∃ words, (coordination lex words : Except ParseError Chain) = .ok c) ∧ predicates ≠ [] ∧
      ∀ p ∈ predicates, ∃ part ∈ parts, ReadsPredicate lex part p := by
  cases h with
  | command _ _ hpredicates =>
    refine ⟨by simp, ?_, fun p hp ↦ exists_part hpredicates hp⟩
    rintro rfl
    cases hpredicates
  | @statement first rest subject _ hsubject hne hpredicates =>
    refine ⟨by simpa using ⟨first, hsubject⟩, ?_, fun p hp ↦ ?_⟩
    · rintro rfl
      exact hne (List.forall₂_nil_right_iff.1 hpredicates)
    · obtain ⟨part, hpart, hread⟩ := exists_part hpredicates hp
      exact ⟨part, by simp [hpart], hread⟩

theorem ReadsBody.exists_li {subject : Option Chain} (hla : Particle.la.word ∉ core) (hli : Particle.li.word ∈ core)
    (h : ReadsBody lex (splitBefore isGovernor core) (.predication subject predicates)) :
    ∃ p ∈ predicates, p.particle = .li := by
  have hflat := flatten_splitBefore isGovernor core
  have htail := fun part hpart ↦ @mem_tail_part core part hla hpart
  generalize splitBefore isGovernor core = parts at h hflat htail
  rw [← hflat] at hli
  obtain ⟨part, hpart, hmem⟩ := List.mem_flatten.1 hli
  have hgoverned {p : Predicate} (hp : ReadsPredicate lex part p) : p.particle = .li := by
    obtain ⟨-, rest, -, rfl⟩ := hp.eq_cons
    rcases List.mem_cons.1 hmem with heq | hmem
    · exact (Particle.word_inj.1 heq).symm
    · exact absurd rfl (htail _ hpart _ hmem).1
  cases h with
  | command _ _ hpredicates =>
    obtain ⟨p, hp, hread⟩ := forall₂_exists_of_mem hpredicates hpart
    exact ⟨p, hp, hgoverned hread⟩
  | statement hsubject _ hpredicates =>
    rcases List.mem_cons.1 hpart with rfl | hpart
    · exact absurd rfl (notMem_of_coordination hsubject _ hmem).1
    · obtain ⟨p, hp, hread⟩ := forall₂_exists_of_mem hpredicates hpart
      exact ⟨p, hp, hgoverned hread⟩

theorem li_mem_core {mood mood' : Mood} (hconj : takeConjunction words = (conjunction, unjoined))
    (htag : takeTag unjoined = (tagQuestion, untagged)) (hmood : takeMood mood untagged = (mood', core))
    (hli : Particle.li.word ∈ words) : Particle.li.word ∈ core := by
  obtain ⟨hp, rfl, -⟩ := takeConjunction_eq hconj
  obtain ⟨rfl, -⟩ := takeTag_eq htag
  have huntagged : Particle.li.word ∈ untagged := by
    simp only [List.mem_append] at hli
    rcases hli with hli | hli | hli
    · obtain ⟨p, hmem, heq⟩ := List.mem_map.1 hli
      obtain rfl : p = .li := Particle.word_inj.1 heq
      simpa [Particle.isConjunction] using hp .li (by simpa using hmem)
    · exact hli
    · split at hli <;> simp [tag, Particle.word] at hli
  rcases takeMood_cases mood untagged with ⟨rest, rfl, hrest, heq⟩ | ⟨rest, -, -, heq⟩ | ⟨-, heq⟩
  · obtain ⟨-, rfl⟩ := Prod.mk.inj (hmood.symm.trans heq)
    exact hrest
  · obtain ⟨-, rfl⟩ := Prod.mk.inj (hmood.symm.trans heq)
    exact huntagged
  · obtain ⟨-, rfl⟩ := Prod.mk.inj (hmood.symm.trans heq)
    exact huntagged

end

theorem vocatives_ne_nil {before after : List String} {vocatives : List Chain}
    (hsplit : splitDoubleO words = some (before, after)) (hne : before ≠ [])
    (h : (addressees lex (splitDropping isO before) : Except ParseError (List Chain)) = .ok vocatives) : vocatives ≠ [] := by
  obtain ⟨w, hw, hnot⟩ := exists_not_isO_of_splitDoubleO hsplit hne
  rcases mem_or_eq_of_splitDropping eq_of_isO hw with rfl | ⟨run, hrun, hw⟩
  · simp [isO] at hnot
  · rintro rfl
    have hmem : run ∈ (splitDropping isO before).filter (!·.isEmpty) :=
      List.mem_filter.2 ⟨hrun, by simp [List.ne_nil_of_mem hw]⟩
    rw [List.forall₂_nil_right_iff.1 (mapM_eq_ok.1 h)] at hmem
    simp at hmem

theorem o_notMem_afterLastO (words : List String) : Particle.o.word ∉ afterLastO words := by
  obtain ⟨init, last, heq⟩ : ∃ init last, splitDropping isO words = init ++ [last] :=
    ⟨_, _, (List.dropLast_concat_getLast (splitDropping_ne_nil isO words)).symm⟩
  intro hmem
  have hlast : Particle.o.word ∈ last := by simpa [afterLastO, heq] using hmem
  have hfalse := not_sep_of_mem_splitDropping (by simp [heq] : last ∈ splitDropping isO words) _ hlast
  simp [isO] at hfalse

theorem la_notMem_core {mood mood' : Mood} {untagged core : List String} (hla : Particle.la.word ∉ untagged)
    (hmood : takeMood mood untagged = (mood', core)) : Particle.la.word ∉ core := by
  intro hmem
  have hmem' : Particle.la.word ∈ (takeMood mood untagged).2 := by rwa [hmood]
  exact hla (mem_of_mem_takeMood hmem')

theorem isRead_of_clause {mark : Option Punctuation} {s : Sentence}
    (h : (clause lex words mark : Except ParseError Sentence) = .ok s) : s.IsRead lex := by
  rcases clause_eq_ok.1 h with ⟨c, hopened, rfl⟩ | ⟨rest, hopened, hread⟩
  · cases hopened with
    | call before _ hsplit hne hcalls =>
      obtain ⟨run, hrun⟩ := read_of_addressees hcalls c (by simp)
      exact .vocative mark hrun
  · obtain ⟨hconj, htag, hmood, -, hla, -, hbody⟩ := hread
    rename_i conjunction tagQuestion mood unjoined untagged core b
    have hla' := la_notMem_core hla hmood
    cases b with
    | exclamation phrase =>
      generalize hparts : splitBefore isGovernor core = parts at hbody
      cases hbody with
      | @exclamation only _ hphrase =>
        refine .exclamation mark hphrase (fun hmem ↦ hla' ?_)
        exact mem_of_mem_splitBefore (by simp [hparts] : only ∈ splitBefore isGovernor core) _ hmem
    | call c =>
      generalize splitBefore isGovernor core = parts at hbody
      cases hbody with
      | call hc => exact .vocative mark hc
    | predication subject predicates =>
      obtain ⟨hsubject, hne, hpredicates⟩ := hbody.of_predication
      have hshape : SimpleSentence.HasShape lex
          { subject, predicates, punctuation := mark, conjunction, vocatives := rest.vocatives, tagQuestion, mood,
            placeholder := rest.placeholder } := by
        cases hopened with
        | command before after vocatives hsplit hbefore hafter hcalls =>
          exact hasShape_told hafter (vocatives_ne_nil hsplit hbefore hcalls) hconj htag hmood hbody mark
        | calls vocatives _ _ _ _ _ => exact hasShape_calls (o_notMem_afterLastO words) hconj htag hmood hbody mark vocatives
        | plain _ hinner => exact hasShape_plain hinner hconj htag hmood hla hbody mark
      refine .simple ⟨⟨rfl, (takeConjunction_eq hconj).1, hne, hshape⟩, hopened.vocatives_read, hsubject, fun p hp ↦ ?_⟩
      obtain ⟨part, hpart, hp⟩ := hpredicates p hp
      exact ⟨part, hp, mem_tail_part hla' hpart⟩

theorem li_notMem_of_addressees {before : List String} {vocatives : List Chain}
    (h : (addressees lex (splitDropping isO before) : Except ParseError (List Chain)) = .ok vocatives) :
    Particle.li.word ∉ before := by
  intro hmem
  rcases mem_or_eq_of_splitDropping eq_of_isO hmem with heq | ⟨run, hrun, hmem⟩
  · simp [Particle.word] at heq
  · have hfilter : run ∈ (splitDropping isO before).filter (!·.isEmpty) :=
      List.mem_filter.2 ⟨hrun, by simp [List.ne_nil_of_mem hmem]⟩
    obtain ⟨c, -, hc⟩ := forall₂_exists_of_mem (mapM_eq_ok.1 h) hfilter
    exact (notMem_of_coordination hc _ hmem).1 rfl

theorem exists_li_of_clause {mark : Option Punctuation} {s : SimpleSentence} (hli : Particle.li.word ∈ words)
    (h : (clause lex words mark : Except ParseError Sentence) = .ok (.simple s)) : ∃ p ∈ s.predicates, p.particle = .li := by
  rcases clause_eq_ok.1 h with ⟨c, -, hs⟩ | ⟨rest, hopened, hread⟩
  · simp at hs
  · obtain ⟨unjoined, untagged, core, hconj, htag, hmood, hla, hbody⟩ := hread.of_simple
    have hla' := la_notMem_core hla hmood
    cases hopened with
    | command before after vocatives hsplit hbefore hafter hcalls =>
      refine hbody.exists_li hla' (li_mem_core hconj htag hmood ?_)
      rw [eq_of_splitDoubleO hsplit] at hli
      simp only [List.mem_append, List.mem_cons, li_notMem_of_addressees hcalls, false_or] at hli ⊢
      exact .inr (.inr ((hli.resolve_left (by decide)).resolve_left (by decide)))
    | calls vocatives _ _ _ _ _ =>
      obtain ⟨-, hne, hpredicates⟩ := hbody.of_predication
      obtain ⟨p, hp⟩ := List.exists_mem_of_ne_nil _ hne
      obtain ⟨part, hpart, hread⟩ := hpredicates p hp
      obtain ⟨hgov, tail, -, rfl⟩ := hread.eq_cons
      refine ⟨p, hp, particle_eq_li hgov (fun ho ↦ o_notMem_afterLastO words ?_)⟩
      rw [← ho]
      exact mem_of_mem_core hconj htag hmood (mem_of_mem_splitBefore hpart _ (by simp))
    | plain _ hinner => exact hbody.exists_li hla' (li_mem_core hconj htag hmood hli)

end Reading

end TokiPona
