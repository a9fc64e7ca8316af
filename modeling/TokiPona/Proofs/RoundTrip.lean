import TokiPona.Dictionary.Standard
import TokiPona.Proofs.Likeness
import TokiPona.Proofs.Verbatim

namespace TokiPona

open Reading

theorem Chain.particle_of_alike {c d : Chain} (h : c.alike d = true) : c.particle = d.particle := by
  cases c <;> cases d <;> simp_all [Chain.alike, Chain.particle]

theorem Chain.KeepsEn.of_alike {c d : Chain} (h : c.alike d = true) (hc : c.KeepsEn) : d.KeepsEn := by
  intro hpi
  exact (Chain.perm_of_alike c d h).mem_iff.1 (hc (by rwa [Chain.particle_of_alike h]))

theorem PrepPhrase.KeepsEn.of_alike {p q : PrepPhrase} (h : p.alike q = true) (hp : p.KeepsEn) : q.KeepsEn := by
  obtain ⟨preposition, complement⟩ := p
  obtain ⟨preposition', complement'⟩ := q
  cases complement <;> cases complement' <;> simp only [PrepPhrase.alike, Bool.and_eq_true, Bool.false_eq_true] at h
  · simp [PrepPhrase.KeepsEn]
  · rintro c hc
    obtain rfl := Option.some.inj hc
    exact .of_alike h.2 (hp _ rfl)

theorem forall_mem_of_forall₂ {α : Type} {R : α → α → Prop} {P : α → Prop} {as bs : List α} (h : List.Forall₂ R as bs)
    (hP : ∀ a b, R a b → P a → P b) (has : ∀ a ∈ as, P a) : ∀ b ∈ bs, P b := by
  intro b hb
  obtain ⟨a, ha, hab⟩ := forall₂_exists_of_mem h.flip hb
  exact hP a b hab (has a ha)

theorem PrepPhrase.keepsEn_of_allAlike {ps qs : List PrepPhrase} (h : PrepPhrase.allAlike ps qs = true)
    (hps : ∀ p ∈ ps, p.KeepsEn) : ∀ q ∈ qs, q.KeepsEn :=
  forall_mem_of_forall₂ (PrepPhrase.forall₂_of_allAlike h) (fun _ _ ↦ PrepPhrase.KeepsEn.of_alike) hps

theorem Chain.keepsEn_of_alikeOption {c d : Option Chain} (h : Chain.alikeOption c d = true) (hc : ∀ e ∈ c, e.KeepsEn) :
    ∀ e ∈ d, e.KeepsEn := by
  cases c <;> cases d <;> simp_all only [Chain.alikeOption, Bool.false_eq_true]
  · simp
  · simpa using .of_alike h (by simpa using hc)

theorem Context.IsRereadable.of_alike {lex : Lexicon} {c d : Context} (h : c.alike d = true)
    (heq : c.spelling = d.spelling) (hc : c.IsRereadable lex) : d.IsRereadable lex := by
  cases c <;> cases d <;> simp only [Context.alike, Bool.false_eq_true] at h
  · refine ⟨.of_alike h hc.1, ?_⟩
    simp only [Context.spelling] at heq
    rw [← heq]
    exact hc.2
  · exact PrepPhrase.keepsEn_of_allAlike h hc

theorem Predicate.kind_eq_of_alike {p q : Predicate} (h : p.alike q = true) (heq : p.spelling = q.spelling) :
    p.kind.spelling = q.kind.spelling := by
  simp only [Predicate.alike, Bool.and_eq_true, beq_iff_eq] at h
  obtain ⟨⟨⟨-, hkind⟩, -⟩, -⟩ := h
  rw [Predicate.spelling, Predicate.spelling, List.append_assoc, List.append_assoc] at heq
  have hhead := (List.append_inj heq (by simp [(PredicateKind.perm_of_alike hkind).length_eq])).1
  exact (List.cons.inj hhead).2

theorem Predicate.IsRereadable.of_alike {dialect : Dialect} {p q : Predicate} (h : p.alike q = true)
    (heq : p.spelling = q.spelling) (hp : p.IsRereadable dialect) : q.IsRereadable dialect := by
  have hspelling := Predicate.kind_eq_of_alike h heq
  simp only [Predicate.alike, Bool.and_eq_true, beq_iff_eq] at h
  obtain ⟨⟨⟨hparticle, hkind⟩, hobjects⟩, hprepositions⟩ := h
  have hsome : p.objects.isSome = q.objects.isSome := by
    cases hp : p.objects <;> cases hq : q.objects <;> simp_all [Chain.alikeOption]
  refine ⟨PrepPhrase.keepsEn_of_allAlike hprepositions hp.complements, fun hq ↦ ?_, fun c hc ↦ ?_, fun hq v hv ↦ ?_⟩
  · rw [← hspelling]
    exact hp.verb_ne_nil (hsome.trans hq)
  · cases hpk : p.kind with
    | pi d => exact hparticle ▸ hp.dialect d hpk
    | _ => simp [hpk, hc, PredicateKind.alike] at hkind
  · cases hpk : p.kind with
    | verb v' =>
      rw [hpk, hv] at hspelling
      have hnone : p.objects = none := by
        rw [← Option.not_isSome_iff_eq_none, hsome, hq]
        simp
      rw [← show v'.words = v.words from hspelling]
      exact hp.verb hnone v' hpk
    | _ => simp [hpk, hv, PredicateKind.alike] at hkind

variable {g : Grammar}

theorem SimpleSentence.IsRereadable.of_alike {a b : SimpleSentence} (h : a.alike b = true) (heq : a.spelling = b.spelling)
    (ha : a.IsRereadable g) : b.IsRereadable g := by
  have halike := SimpleSentence.Alike.of_alike h
  obtain ⟨hcontexts, hbody, hpredicates⟩ := halike.parts_eq heq
  refine ⟨?_, ?_, ?_, ?_, ?_, ?_⟩
  · exact forall_mem_of_forall₂ hcontexts (fun _ _ hc ↦ .of_alike hc.1 hc.2) ha.contexts
  · exact forall_mem_of_forall₂ halike.vocatives (fun _ _ ↦ .of_alike) ha.vocatives
  · exact Chain.keepsEn_of_alikeOption halike.writtenSubject ha.subject
  · exact forall_mem_of_forall₂ hpredicates (fun _ _ hp ↦ .of_alike hp.1 hp.2) ha.predicates
  · rw [← hbody, ← halike.tagQuestion]
    exact ha.tag
  · intro hnone q hq
    have hsubject : a.subject = none := by
      have halike := halike.subject
      rw [hnone] at halike
      cases ha : a.subject <;> simp_all [Chain.alikeOption]
    rw [hq] at hpredicates
    obtain ⟨p, rest, ⟨-, hspelling⟩, hrest, hp⟩ := List.forall₂_cons_right_iff.1 hpredicates
    obtain rfl := List.forall₂_nil_right_iff.1 hrest
    rw [← hspelling]
    exact ha.exclamation hsubject p hp

theorem Sentence.IsRereadable.of_alike : (a b : Sentence) → a.alike b = true → a.spelling = b.spelling →
    a.IsRereadable g → b.IsRereadable g
  | .simple s, b, h, heq, ha => by
    cases b with
    | simple s' => exact SimpleSentence.IsRereadable.of_alike h heq ha
    | _ => simp [Sentence.alike] at h
  | .conditional preconditions conclusion, b, h, heq, ha => by
    cases b with
    | conditional preconditions' conclusion' =>
      simp only [Sentence.alike, Bool.and_eq_true] at h
      obtain ⟨hpre, hconclusion⟩ := h
      obtain ⟨hap, hac, hleads⟩ := ha
      rw [Sentence.spelling, Sentence.spelling] at heq
      obtain ⟨hpreeq, hceq⟩ := List.append_inj heq (Sentence.perm_of_allAlike _ _ hpre).length_eq
      rw [Sentence.preconditionSpellings_eq, Sentence.preconditionSpellings_eq] at hpreeq
      have hparts := forall₂_of_flatMap_eq (Sentence.forall₂_of_allAlike hpre)
        (fun p q hp ↦ (Sentence.perm_of_alike p q hp).append_right _) hpreeq
      refine ⟨forall_mem_of_forall₂ hparts ?_ hap, of_alike conclusion conclusion' hconclusion hceq hac, hceq ▸ hleads⟩
      rintro p q ⟨halike, hspelling⟩ ⟨s, rfl, hs⟩
      cases q with
      | simple s' => exact ⟨s', rfl, .of_alike halike (List.append_cancel_right hspelling) hs⟩
      | _ => simp [Sentence.alike] at halike
    | _ => simp [Sentence.alike] at h
  | .vocative c p, b, h, heq, ha => by
    cases b with
    | vocative c' p' =>
      simp only [Sentence.alike, Bool.and_eq_true] at h
      refine ⟨.of_alike h.1 ha.1, ?_⟩
      rw [← show c.spelling ++ [Particle.o.word] = c'.spelling ++ [Particle.o.word] from heq]
      exact ha.2
    | _ => simp [Sentence.alike] at h
  | .fragment c p, b, h, _, ha => by
    cases b with
    | fragment c' p' =>
      simp only [Sentence.alike, Bool.and_eq_true] at h
      exact Chain.KeepsEn.of_alike h.1 ha
    | _ => simp [Sentence.alike] at h
  | .exclamation phrase p, b, h, heq, ha => by
    cases b with
    | exclamation phrase' p' =>
      rw [Sentence.IsRereadable, ← show phrase.spelling = phrase'.spelling from heq]
      exact ha
    | _ => simp [Sentence.alike] at h
  | .comment text, b, h, _, _ => by
    cases b with
    | comment text' => trivial
    | _ => simp [Sentence.alike] at h

/-- A sentence survives being written and read again exactly if it is rereadable and its text does not look like a
comment without being one. -/
theorem Grammar.parse_text_alike_iff (g : Grammar) {text shown : String} {s : Sentence} (h : g.parse text shown = .ok s) :
    (∃ s', g.parse s.text s.text = .ok s' ∧ s'.alike s = true) ↔
      s.IsRereadable g ∧ (IsComment s.text → ∃ comment, s = .comment comment) := by
  constructor
  · rintro ⟨s', hs', halike⟩
    rcases (Grammar.parse_eq_ok.1 h).2.2 with ⟨-, rfl⟩ | ⟨-, -, -, -, hne, mark, -, hread⟩
    · exact ⟨trivial, fun _ ↦ ⟨text, rfl⟩⟩
    · obtain ⟨htext, hsolid, hspelling⟩ := text_of_sentence (solid_wordsOf text) hne hread
      rw [htext] at hs'
      obtain ⟨-, ⟨-, rfl⟩ | ⟨hcomment, hchain, hhead, hagain⟩⟩ := (Grammar.parse_marked hsolid hspelling).1 hs'
      · cases s with
        | comment comment => exact ⟨trivial, fun _ ↦ ⟨comment, rfl⟩⟩
        | _ => simp [Sentence.alike] at halike
      · have hperm := Sentence.perm_of_alike s' s halike
        have hheft : heftOf s'.spelling = heftOf s.spelling := (hperm.map heft).sum_nat
        obtain ⟨hrereadable, heq⟩ := isRereadable_of_heftOf_eq hspelling hchain hhead hagain hheft hperm.length_eq
        refine ⟨.of_alike s' s halike heq hrereadable, fun hlooks ↦ absurd ?_ hcomment⟩
        rwa [← htext]
  · rintro ⟨hs, hcomment⟩
    exact ⟨s, Grammar.parse_text h hs hcomment, s.alike_refl⟩

/-- A dropped `en` can leave a `pi` with too little after it. -/
theorem Grammar.parse_text_dangling :
    let g : Grammar := ⟨Dictionary.standard.lexicon, {}⟩
    (∃ s, g.parse "jan pi ma en li moku." "" = .ok s ∧ s.text = "jan pi ma li moku." ∧ ¬ s.IsRereadable g) ∧
      ∃ s, g.parse "jan pi ma suli en li moku." "" = .ok s ∧ s.text = "jan pi ma suli li moku." ∧ s.IsRereadable g := by
  intro g
  constructor
  · obtain ⟨s, hs, htext⟩ := map_eq_ok.1 (show Sentence.text <$> g.parse "jan pi ma en li moku." "" =
      .ok "jan pi ma li moku." by decide +kernel)
    have hagain : (g.parse "jan pi ma li moku." "jan pi ma li moku.").isOk = false := by decide +kernel
    have hcomment : ¬ IsComment "jan pi ma li moku." := by decide +kernel
    refine ⟨s, hs, htext, fun hrereadable ↦ ?_⟩
    obtain ⟨s', hs', -⟩ := (Grammar.parse_text_alike_iff g hs).2 ⟨hrereadable, fun h ↦ absurd (htext ▸ h) hcomment⟩
    simp [← htext, hs', Except.isOk, Except.toBool] at hagain
  · obtain ⟨s, hs, heval⟩ := map_eq_ok.1 (show (fun s ↦ (s.text, (Sentence.alike · s) <$> g.parse s.text s.text)) <$>
      g.parse "jan pi ma suli en li moku." "" = .ok ("jan pi ma suli li moku.", .ok true) by decide +kernel)
    obtain ⟨htext, hagain⟩ := Prod.mk.inj heval
    exact ⟨s, hs, htext, ((Grammar.parse_text_alike_iff g hs).1 (map_eq_ok.1 hagain)).1⟩

end TokiPona
