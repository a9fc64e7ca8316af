import TokiPona.Proofs.Acceptance

namespace TokiPona

open Reading

namespace Chain

inductive IsJoined (q : Particle) (P : Chain → Prop) : Chain → Prop
  | intro {links : List Chain} (hne : links ≠ []) (h : ∀ link ∈ links, P link) : IsJoined q P (.links q links)

inductive IsSimple (P : Phrase → Prop) : Chain → Prop
  | intro {phrases : List Phrase} (hne : phrases ≠ []) (h : ∀ p ∈ phrases, P p) : IsSimple P (.phrases .pi phrases)

inductive IsLone (P : Phrase → Prop) : Chain → Prop
  | intro {p : Phrase} (h : P p) : IsLone P (.phrases .pi [p])

/-- `(A pi B) en (C pi D)`, or else `A pi (B en C)`. -/
inductive IsGrouped (P : Phrase → Prop) : Chain → Prop
  | coordination {c : Chain} (h : c.IsJoined .en (IsJoined .pi (IsLone P))) : IsGrouped P c
  | modification {c : Chain} (h : c.IsJoined .pi (IsJoined .en (IsLone P))) : IsGrouped P c

end Chain

theorem eq_singleton_of_forall₂ {α β : Type} {R : α → β → Prop} {x : α} {ys : List β} (h : List.Forall₂ R [x] ys) :
    ∃ y, R x y ∧ ys = [y] := by
  obtain ⟨y, rest, hy, hrest, rfl⟩ := List.forall₂_cons_left_iff.1 h
  obtain rfl := List.forall₂_nil_left_iff.1 hrest
  exact ⟨y, hy, rfl⟩

namespace Reading

variable {ph : List String → Except ParseError Phrase} {P : Phrase → Prop} {words : List String} {c : Chain}

theorem isJoined_of_links {q : Particle} {Q : Chain → Prop} {read : List String → Except ParseError Chain}
    {runs : List (List String)} (hread : ∀ run ∈ runs, ∀ link, read run = .ok link → Q link)
    (h : (runs.mapM read >>= chainOfLinks q) = .ok c) : c.IsJoined q Q := by
  obtain ⟨links, hne, hlinks, rfl⟩ := links_eq_ok.1 h
  refine .intro hne (fun link hlink ↦ ?_)
  obtain ⟨run, hrun, hread'⟩ := forall₂_exists_of_mem hlinks.flip hlink
  exact hread run hrun link hread'

theorem piChain_of_forall (hpi : ∀ w ∈ words, isPi w = false) (h : piChain ph words = .ok c) :
    ∃ p, ph words = .ok p ∧ c = .phrases .pi [p] := by
  obtain ⟨-, -, phrases, hphrases, rfl⟩ := piChain_eq_ok.1 h
  rw [splitDropping_of_forall hpi] at hphrases
  obtain ⟨p, hp, rfl⟩ := eq_singleton_of_forall₂ hphrases
  exact ⟨p, hp, rfl⟩

section

variable (hph : ∀ run p, ph run = .ok p → P p)
include hph

theorem isSimple_of_piChain (h : piChain ph words = .ok c) : c.IsSimple P := by
  obtain ⟨-, -, phrases, hphrases, rfl⟩ := piChain_eq_ok.1 h
  refine .intro ?_ (fun p hp ↦ ?_)
  · rintro rfl
    exact splitDropping_ne_nil isPi words (List.forall₂_nil_right_iff.1 hphrases)
  · obtain ⟨run, -, hrun⟩ := forall₂_exists_of_mem hphrases.flip hp
    exact hph run p hrun

theorem isLone_of_piChain (hpi : ∀ w ∈ words, isPi w = false) (h : piChain ph words = .ok c) : c.IsLone P := by
  obtain ⟨p, hp, rfl⟩ := piChain_of_forall hpi h
  exact .intro (hph words p hp)

theorem isGrouped_of_coordinationOver (h : coordinationOver ph words = .ok c) : c.IsGrouped P := by
  obtain ⟨-, -, -, first, hfirst, ⟨-, rfl⟩ | ⟨-, -, hsecond⟩⟩ := coordinationOver_eq_ok.1 h
  · refine .coordination (isJoined_of_links (fun piece _ group hgroup ↦ ?_) hfirst)
    refine isJoined_of_links (fun part hpart link hlink ↦ ?_) hgroup
    exact isLone_of_piChain hph (not_sep_of_mem_splitDropping hpart) hlink
  · refine .modification (isJoined_of_links (fun piece hpiece group hgroup ↦ ?_) hsecond)
    refine isJoined_of_links (fun part hpart link hlink ↦ isLone_of_piChain hph (fun w hw ↦ ?_) hlink) hgroup
    have hmem := mem_of_mem_splitDropping (List.mem_filter.1 hpart).1 w hw
    exact not_sep_of_mem_splitDropping (List.mem_filter.1 hpiece).1 w hmem

end

end Reading

/-- The last `pi` of a group introduces more than a single word, or a numeral of more than one letter or digit. -/
def Chain.EndsFirmly : Chain → Prop
  | .links _ parts => 2 ≤ parts.length → ∀ w ∈ parts.getLast?.bind Chain.singleWord?, Word.isLongNumeral w = true
  | .phrases _ _ => True

instance (c : Chain) : Decidable c.EndsFirmly :=
  match c with
  | .links _ parts => inferInstanceAs (Decidable
      (2 ≤ parts.length → ∀ w ∈ parts.getLast?.bind Chain.singleWord?, Word.isLongNumeral w = true))
  | .phrases _ _ => .isTrue trivial

namespace Reading

variable {lex : Lexicon} {words piece : List String} {c group : Chain}

theorem endsFirmly_iff_hasDanglingModifier {q r : Particle} {links others : List Chain} :
    (Chain.links r links).EndsFirmly ↔ hasDanglingModifier (.links q (.links r links :: others)) = false := by
  rw [Chain.EndsFirmly, hasDanglingModifier]
  cases links.getLast?.bind Chain.singleWord? <;> simp

theorem endsFirmly_iff (hpiece : piece ∈ coordinated words)
    (h : ((splitDropping isPi piece).mapM (piChain (phrase lex)) >>= chainOfLinks .pi : Except ParseError Chain) =
      .ok group) : group.EndsFirmly ↔ ¬ Dangles piece := by
  obtain ⟨hsplit, hne⟩ := List.mem_filter.1 hpiece
  -- the first group of a coordination is checked, and any group is the first one of its own piece
  have hself : coordinated piece = [piece] :=
    coordinated_of_forall (by simpa using hne) (not_sep_of_mem_splitDropping hsplit)
  have hfirst : (coordinationFirst (phrase lex) piece : Except ParseError Chain) = .ok (.links .en [group]) := by
    refine links_eq_ok.2 ⟨[group], by simp, ?_, rfl⟩
    rw [← coordinated, hself]
    exact .cons h .nil
  have hdangles := hasDanglingModifier_iff hfirst
  obtain ⟨links, -, -, rfl⟩ := links_eq_ok.1 h
  rw [endsFirmly_iff_hasDanglingModifier (q := .en), ← Bool.not_eq_true, hdangles, hself]
  simp

theorem ReadsPrepPhrase.coordination_of_mem {q : PrepPhrase} (h : ReadsPrepPhrase lex piece q) (hc : c ∈ q.complement) :
    NoPreposition piece.tail ∧ (coordination lex piece.tail : Except ParseError Chain) = .ok c := by
  obtain ⟨w, body, rfl, -, hbody, -, hgoverned⟩ := h
  rcases (complement_eq_ok hbody).1 hgoverned with ⟨-, hnone⟩ | ⟨-, c', hc', hsome⟩
  · simp [hnone] at hc
  · obtain rfl : c' = c := by simpa [hsome] using hc
    exact ⟨hbody, hc'⟩

def GovernsPhrase (q : PrepPhrase) : Prop :=
  ∀ c ∈ q.complement, ∃ p, c = .links .en [.links .pi [.phrases .pi [p]]]

/-- A group as it is read from a coordinated piece: a link for each part that `pi` sets apart, the parts being phrases
whose complements are phrases. -/
structure ReadsGroup (lex : Lexicon) (piece : List String) (group : Chain) : Prop where
  links : ∃ links, group = .links .pi links ∧ List.Forall₂ (fun part link ↦ ∃ p,
    (phrase lex part : Except ParseError Phrase) = .ok p ∧ link = .phrases .pi [p] ∧ ∀ q ∈ p.prepositions, GovernsPhrase q)
      (splitDropping isPi piece) links
  endsFirmly_iff : group.EndsFirmly ↔ ¬ Dangles piece

theorem coordination_of_isPhraseWord (hwords : ∀ w ∈ words, IsPhraseWord w)
    (h : (coordination lex words : Except ParseError Chain) = .ok c) :
    ∃ p, c = .links .en [.links .pi [.phrases .pi [p]]] := by
  obtain ⟨hne, -, -, first, hfirst, ⟨-, rfl⟩ | ⟨-, hen, -⟩⟩ := coordinationOver_eq_ok.1 h
  · have hpi : ∀ w ∈ words, isPi w = false := fun w hw ↦ isPi_eq_false (hwords w hw)
    obtain ⟨groups, -, hgroups, rfl⟩ := links_eq_ok.1 hfirst
    rw [← coordinated, coordinated_of_forall hne (fun w hw ↦ isEn_eq_false (hwords w hw))] at hgroups
    obtain ⟨group, hgroup, rfl⟩ := eq_singleton_of_forall₂ hgroups
    obtain ⟨links, -, hlinks, rfl⟩ := links_eq_ok.1 hgroup
    rw [splitDropping_of_forall hpi] at hlinks
    obtain ⟨link, hlink, rfl⟩ := eq_singleton_of_forall₂ hlinks
    obtain ⟨p, -, rfl⟩ := piChain_of_forall hpi hlink
    exact ⟨p, rfl⟩
  · exact absurd rfl (hwords _ hen .en (by simp))

theorem governsPhrase_of_phrase {p : Phrase} (h : (phrase lex words : Except ParseError Phrase) = .ok p) :
    ∀ q ∈ p.prepositions, GovernsPhrase q := by
  obtain ⟨hwords, first, pieces, hsplit, -, -, hpieces⟩ := phrase_eq_ok.1 h
  intro q hq c hc
  obtain ⟨piece, hpiece, hq'⟩ := forall₂_exists_of_mem hpieces.flip hq
  have hmem : piece ∈ splitBefore Word.isPreposition words := hsplit ▸ List.mem_cons_of_mem first hpiece
  refine coordination_of_isPhraseWord (fun w hw ↦ ?_) (ReadsPrepPhrase.coordination_of_mem hq' hc).2
  exact hwords w (mem_of_mem_splitBefore hmem w (List.mem_of_mem_tail hw))

theorem readsGroup_of_links (hpiece : piece ∈ coordinated words)
    (h : ((splitDropping isPi piece).mapM (piChain (phrase lex)) >>= chainOfLinks .pi : Except ParseError Chain) =
      .ok group) : ReadsGroup lex piece group := by
  refine ⟨?_, endsFirmly_iff hpiece h⟩
  obtain ⟨links, -, hlinks, rfl⟩ := links_eq_ok.1 h
  have hparts := (List.forall₂_and_left _ _).2 ⟨fun part hpart ↦ not_sep_of_mem_splitDropping hpart, hlinks⟩
  refine ⟨links, rfl, hparts.imp (fun part link ⟨hpi, hlink⟩ ↦ ?_)⟩
  obtain ⟨p, hp, rfl⟩ := piChain_of_forall hpi hlink
  exact ⟨p, hp, rfl, governsPhrase_of_phrase hp⟩

theorem readsGroups_of_coordination (h : (coordination lex words : Except ParseError Chain) = .ok c)
    (hc : c.particle = .en) :
    ∃ groups, c = .links .en groups ∧ List.Forall₂ (ReadsGroup lex) (coordinated words) groups := by
  obtain ⟨-, -, -, first, hfirst, ⟨-, rfl⟩ | ⟨-, -, hsecond⟩⟩ := coordinationOver_eq_ok.1 h
  · obtain ⟨groups, -, hgroups, rfl⟩ := links_eq_ok.1 hfirst
    have hpieces := (List.forall₂_and_left _ _).2 ⟨fun piece hpiece ↦ hpiece, hgroups⟩
    exact ⟨groups, rfl, hpieces.imp (fun piece group hgroup ↦ readsGroup_of_links hgroup.1 hgroup.2)⟩
  · obtain ⟨links, -, -, rfl⟩ := links_eq_ok.1 hsecond
    simp [Chain.particle] at hc

/-- Where coordination comes first, the last `pi` of the first group introduces more than a single word. The groups after
it are not checked, and end as their pieces do. Complements have nothing to group. -/
theorem endsFirmly_of_coordination (lex : Lexicon) {words : List String} {c : Chain}
    (h : (coordination lex words : Except ParseError Chain) = .ok c) (hc : c.particle = .en) :
    (∃ groups, c = .links .en groups ∧ (∀ first ∈ groups.head?, first.EndsFirmly) ∧
      List.Forall₂ (ReadsGroup lex) (coordinated words) groups) ∧
      ∀ memory : Memory, memory.IsSound lex → Solid words →
        ((coordination lex words : Remembering Chain).run.run memory).1 = .ok c := by
  refine ⟨?_, fun memory hmemory hwords ↦ ?_⟩
  · obtain ⟨groups, rfl, hgroups⟩ := readsGroups_of_coordination h hc
    refine ⟨groups, rfl, fun first hfirst ↦ ?_, hgroups⟩
    obtain ⟨rest, rfl⟩ := List.head?_eq_some_iff.1 hfirst
    obtain ⟨piece, pieces, hread, -, hpieces⟩ := List.forall₂_cons_right_iff.1 hgroups
    refine hread.endsFirmly_iff.2 (fun hdangles ↦ (particle_of_coordination h).2.1 hc ⟨piece, ?_, hdangles⟩)
    rw [hpieces]
    rfl
  · rw [(agrees_coordination hwords memory hmemory).1, h]

theorem endsFirmly_of_coordination_numeral :
    let words := ["tomo", "pi", "#ATLW", "en", "jan", "pi", "ma", "suli", "en", "kule", "pi", "walo"]
    ∃ first second third, (coordination Dictionary.standard.lexicon words : Except ParseError Chain) =
      .ok (.links .en [first, second, third]) ∧ first.EndsFirmly ∧ second.EndsFirmly ∧ ¬ third.EndsFirmly := by
  intro words
  obtain ⟨c, hc, hparticle⟩ := map_eq_ok.1 (show Chain.particle <$>
    (coordination Dictionary.standard.lexicon words : Except ParseError Chain) = .ok .en by decide +kernel)
  obtain ⟨⟨groups, rfl, hfirst, hgroups⟩, -⟩ := endsFirmly_of_coordination _ hc hparticle
  have hpieces : coordinated words = [["tomo", "pi", "#ATLW"], ["jan", "pi", "ma", "suli"], ["kule", "pi", "walo"]] := by
    decide
  rw [hpieces] at hgroups
  match groups, hgroups with
  | [first, second, third], .cons _ (.cons hsecond (.cons hthird .nil)) =>
    refine ⟨first, second, third, hc, hfirst first rfl, hsecond.endsFirmly_iff.2 (by decide), ?_⟩
    exact fun hfirm ↦ hthird.endsFirmly_iff.1 hfirm (by decide)

/-- A group after the first may end in a single word. -/
theorem coordination_second_dangles :
    ∃ first second, (coordination Dictionary.standard.lexicon ["jan", "en", "kule", "pi", "walo"] :
      Except ParseError Chain) = .ok (.links .en [first, second]) ∧ second.particle = .pi ∧ ¬ second.EndsFirmly := by
  obtain ⟨c, hc, hparticle⟩ := map_eq_ok.1 (show Chain.particle <$> (coordination Dictionary.standard.lexicon
    ["jan", "en", "kule", "pi", "walo"] : Except ParseError Chain) = .ok .en by decide +kernel)
  obtain ⟨groups, rfl, hgroups⟩ := readsGroups_of_coordination hc hparticle
  have hpieces : coordinated ["jan", "en", "kule", "pi", "walo"] = [["jan"], ["kule", "pi", "walo"]] := by decide
  rw [hpieces] at hgroups
  obtain ⟨first, _, -, htail, rfl⟩ := List.forall₂_cons_left_iff.1 hgroups
  obtain ⟨second, _, hsecond, hnil, rfl⟩ := List.forall₂_cons_left_iff.1 htail
  obtain rfl := List.forall₂_nil_left_iff.1 hnil
  obtain ⟨⟨links, rfl, -⟩, hfirm⟩ := hsecond
  exact ⟨first, .links .pi links, hc, rfl, fun h ↦ hfirm.1 h (by decide)⟩

end Reading

end TokiPona
