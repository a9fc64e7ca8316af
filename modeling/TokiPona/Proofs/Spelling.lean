import TokiPona.Proofs.Reader

namespace TokiPona

theorem Particle.word_inj {p q : Particle} : p.word = q.word ↔ p = q :=
  ⟨fun h ↦ by simpa using congrArg Particle.ofWord? h, congrArg Particle.word⟩

theorem Particle.isIn_iff {p : Particle} {words : List String} : p.isIn words = true ↔ p.word ∈ words := by
  simp [Particle.isIn]

theorem Particle.isIn_eq_false {p : Particle} {words : List String} : p.isIn words = false ↔ p.word ∉ words := by
  simp [Particle.isIn]

theorem map_eq_map_of_forall₂ {α β γ : Type} {R : α → β → Prop} {f : α → γ} {g : β → γ} {xs : List α} {ys : List β}
    (h : List.Forall₂ R xs ys) (hfg : ∀ x ∈ xs, ∀ y, R x y → g y = f x) : ys.map g = xs.map f := by
  induction h with
  | nil => rfl
  | cons hxy _ ih =>
    rw [List.map_cons, List.map_cons, hfg _ (by simp) _ hxy, ih (fun x hx ↦ hfg x (by simp [hx]))]

theorem forall₂_exists_of_mem {α β : Type} {R : α → β → Prop} {xs : List α} {ys : List β} (h : List.Forall₂ R xs ys)
    {x : α} (hx : x ∈ xs) : ∃ y ∈ ys, R x y := by
  induction h with
  | nil => simp at hx
  | cons hxy _ ih =>
    rcases List.mem_cons.1 hx with rfl | hx
    · exact ⟨_, by simp, hxy⟩
    · obtain ⟨y, hy, hR⟩ := ih hx
      exact ⟨y, by simp [hy], hR⟩

theorem exists_forall₂ {α β : Type} {R : α → β → Prop} {xs : List α} (h : ∀ x ∈ xs, ∃ y, R x y) :
    ∃ ys, List.Forall₂ R xs ys := by
  induction xs with
  | nil => exact ⟨[], .nil⟩
  | cons x xs ih =>
    obtain ⟨y, hy⟩ := h x (by simp)
    obtain ⟨ys, hys⟩ := ih (fun z hz ↦ h z (by simp [hz]))
    exact ⟨y :: ys, .cons hy hys⟩

theorem forall₂_getLast? {α β : Type} {R : α → β → Prop} {xs : List α} {ys : List β} (h : List.Forall₂ R xs ys) {y : β}
    (hy : y ∈ ys.getLast?) : ∃ x ∈ xs.getLast?, R x y := by
  induction h with
  | nil => simp at hy
  | @cons x z xs ys hxz hrest ih =>
    cases hrest with
    | nil => exact ⟨x, by simp, by simpa [← Option.some.inj hy] using hxz⟩
    | cons hxz' hrest => simpa using ih (by simpa using hy)

/-- A chain that was read as `A pi (B en C)` is still spelled with an `en`. -/
def Chain.KeepsEn (c : Chain) : Prop := c.particle = .pi → Particle.en.word ∈ c.spelling

def PrepPhrase.KeepsEn (p : PrepPhrase) : Prop := ∀ c ∈ p.complement, c.KeepsEn

namespace Reading

/-- The run without each `en` that has nothing to coordinate. -/
def tidy (words : List String) : List String :=
  [Particle.en.word].intercalate ((splitDropping isEn words).filter (!·.isEmpty))

theorem isEn_word : isEn Particle.en.word = true := by decide
theorem isPi_word : isPi Particle.pi.word = true := by decide

theorem eq_of_isEn (w : String) (h : isEn w = true) : w = Particle.en.word := by simpa [isEn] using h
theorem eq_of_isPi (w : String) (h : isPi w = true) : w = Particle.pi.word := by simpa [isPi] using h

theorem tidy_of_forall {words : List String} (h : ∀ w ∈ words, isEn w = false) : tidy words = words := by
  rw [tidy, splitDropping_of_forall h]
  cases words <;> simp

theorem tidy_en_cons (words : List String) : tidy (Particle.en.word :: words) = tidy words := by
  rw [tidy, tidy, splitDropping, if_pos isEn_word]
  simp

theorem tidy_eq_nil {words : List String} (h : tidy words = []) : (splitDropping isEn words).filter (!·.isEmpty) = [] := by
  cases hruns : (splitDropping isEn words).filter (!·.isEmpty) with
  | nil => rfl
  | cons run runs =>
    have hrun : run ≠ [] := by
      have hmem : run ∈ (splitDropping isEn words).filter (!·.isEmpty) := by simp [hruns]
      simpa using (List.mem_filter.1 hmem).2
    rw [tidy, hruns] at h
    cases runs <;> simp_all

theorem isEn_of_tidy_eq_nil {words : List String} (h : tidy words = []) : ∀ w ∈ words, isEn w = true := by
  have hruns : ∀ run ∈ splitDropping isEn words, run = [] := by
    simpa [List.filter_eq_nil_iff] using tidy_eq_nil h
  have hflat := flatten_splitDropping isEn words
  rw [List.flatten_eq_nil_iff.2 hruns] at hflat
  simpa using List.filter_eq_nil_iff.1 hflat.symm

theorem tidy_append_en {piece : List String} (hne : piece ≠ []) (hpiece : ∀ w ∈ piece, isEn w = false)
    (words : List String) :
    tidy (piece ++ Particle.en.word :: words) =
      if tidy words = [] then piece else piece ++ Particle.en.word :: tidy words := by
  have hcut : tidy (piece ++ Particle.en.word :: words) =
      [Particle.en.word].intercalate (piece :: (splitDropping isEn words).filter (!·.isEmpty)) := by
    rw [tidy, splitDropping_append_sep isEn_word hpiece]
    simp [hne]
  rw [hcut]
  split
  case isTrue h => rw [tidy_eq_nil h, List.intercalate_singleton]
  case isFalse h =>
    have hruns : (splitDropping isEn words).filter (!·.isEmpty) ≠ [] := fun heq ↦ h (by rw [tidy, heq]; rfl)
    rw [List.intercalate_cons_of_ne_nil hruns, tidy]
    simp

theorem mem_of_mem_tidy {words : List String} {w : String} (h : w ∈ tidy words) : w ∈ words := by
  induction words using cut_induction isEn with
  | plain words hwords => rwa [tidy_of_forall hwords] at h
  | cut piece s words hpiece hs ih =>
    obtain rfl := eq_of_isEn s hs
    by_cases hne : piece = []
    · subst hne
      rw [List.nil_append, tidy_en_cons] at h
      simp [ih h]
    · rw [tidy_append_en hne hpiece] at h
      split at h
      · simp [h]
      · simp only [List.mem_append, List.mem_cons] at h ⊢
        exact h.imp_right (Or.imp_right ih)

theorem splitDropping_tidy {words : List String} (h : tidy words ≠ []) :
    splitDropping isEn (tidy words) = (splitDropping isEn words).filter (!·.isEmpty) := by
  apply splitDropping_intercalate isEn_word
  · intro hruns
    exact h (by rw [tidy, hruns]; rfl)
  · exact fun run hrun ↦ not_sep_of_mem_splitDropping (List.mem_filter.1 hrun).1

theorem filter_nonempty_of_tidy {runs : List (List String)} (h : ∀ run ∈ runs, tidy run ≠ []) :
    runs.filter (!·.isEmpty) = runs := by
  rw [List.filter_eq_self]
  intro run hrun
  have hne : run ≠ [] := by
    rintro rfl
    exact h [] hrun rfl
  simpa using hne

theorem tidy_tidy (words : List String) : tidy (tidy words) = tidy words := by
  by_cases h : tidy words = []
  · rw [h]
    rfl
  · rw [tidy, splitDropping_tidy h, List.filter_filter]
    simp only [Bool.and_self, tidy]

/-- No `pi` stands at an end of what is coordinated, or next to another. -/
def Grouped (words : List String) : Prop := ∀ run ∈ splitDropping isEn words, run ≠ [] → [] ∉ splitDropping isPi run

theorem Grouped.of_append_en {piece words : List String} (h : Grouped (piece ++ Particle.en.word :: words))
    (hpiece : ∀ w ∈ piece, isEn w = false) : (piece ≠ [] → [] ∉ splitDropping isPi piece) ∧ Grouped words := by
  rw [Grouped, splitDropping_append_sep isEn_word hpiece] at h
  exact ⟨h piece (by simp), fun run hrun ↦ h run (by simp [hrun])⟩

theorem map_tidy_of_forall {runs : List (List String)} (h : ∀ run ∈ runs, ∀ w ∈ run, isEn w = false) :
    runs.map tidy = runs := by
  exact (List.map_congr_left (fun run hrun ↦ tidy_of_forall (h run hrun))).trans (List.map_id' _)

structure TidiesBetweenPi (words : List String) : Prop where
  kept : ∀ piece ∈ splitDropping isPi words, tidy piece ≠ []
  joined : [Particle.pi.word].intercalate ((splitDropping isPi words).map tidy) = tidy words

namespace TidiesBetweenPi

variable {piece words : List String}

theorem of_forall (hwords : ∀ w ∈ words, isEn w = false) (h : [] ∉ splitDropping isPi words) : TidiesBetweenPi words := by
  have hpieces : ∀ piece ∈ splitDropping isPi words, ∀ w ∈ piece, isEn w = false :=
    fun piece hpiece w hw ↦ hwords w (mem_of_mem_splitDropping hpiece w hw)
  refine ⟨fun piece hpiece ↦ ?_, ?_⟩
  · rw [tidy_of_forall (hpieces piece hpiece)]
    rintro rfl
    exact h hpiece
  · rw [map_tidy_of_forall hpieces, tidy_of_forall hwords, intercalate_splitDropping eq_of_isPi]

theorem splitDropping_en_cons {first : List String} {others : List (List String)}
    (h : splitDropping isPi words = first :: others) :
    splitDropping isPi (Particle.en.word :: words) = (Particle.en.word :: first) :: others := by
  rw [splitDropping, if_neg (by decide), h, glue]

theorem en_cons (h : TidiesBetweenPi words) : TidiesBetweenPi (Particle.en.word :: words) := by
  obtain ⟨first, others, hsplit⟩ := List.exists_cons_of_ne_nil (splitDropping_ne_nil isPi words)
  obtain ⟨hkept, hjoined⟩ := h
  rw [hsplit] at hkept hjoined
  constructor
  · simpa [splitDropping_en_cons hsplit, tidy_en_cons] using hkept
  · simpa [splitDropping_en_cons hsplit, tidy_en_cons] using hjoined

theorem append_en (hne : piece ≠ []) (hpiece : ∀ w ∈ piece, isEn w = false) (h : TidiesBetweenPi piece)
    (hwords : tidy words ≠ [] → TidiesBetweenPi words) : TidiesBetweenPi (piece ++ Particle.en.word :: words) := by
  obtain ⟨first, others, hsplit⟩ := List.exists_cons_of_ne_nil (splitDropping_ne_nil isPi words)
  obtain ⟨init, last, hinit⟩ : ∃ init last, splitDropping isPi piece = init ++ [last] :=
    ⟨_, _, (List.dropLast_concat_getLast (splitDropping_ne_nil isPi piece)).symm⟩
  have hplain : ∀ part ∈ init ++ [last], ∀ w ∈ part, isEn w = false :=
    fun part hpart w hw ↦ hpiece w (mem_of_mem_splitDropping (hinit ▸ hpart) w hw)
  obtain ⟨hkept, hjoined⟩ := h
  rw [hinit, tidy_of_forall hpiece, map_tidy_of_forall hplain] at hjoined
  rw [hinit] at hkept
  have hmap : init.map tidy = init := map_tidy_of_forall (fun part hpart ↦ hplain part (by simp [hpart]))
  have hlast : last ≠ [] ∧ ∀ w ∈ last, isEn w = false := by
    have hlast := hplain last (by simp)
    exact ⟨tidy_of_forall hlast ▸ hkept last (by simp), hlast⟩
  have hcut := splitDropping_append hinit (splitDropping_en_cons hsplit)
  by_cases hnil : tidy words = []
  · -- Nothing but `en` follows, and so no `pi`.
    have hpi : ∀ w ∈ words, isPi w = false := by
      intro w hw
      rw [eq_of_isEn w (isEn_of_tidy_eq_nil hnil w hw)]
      decide
    rw [splitDropping_of_forall hpi] at hsplit
    obtain ⟨rfl, rfl⟩ := List.cons.inj hsplit
    have htidy : tidy (last ++ Particle.en.word :: words) = last := by
      rw [tidy_append_en hlast.1 hlast.2, if_pos hnil]
    refine ⟨fun part hpart ↦ ?_, ?_⟩
    · rw [hcut] at hpart
      rcases List.mem_append.1 hpart with hpart | hpart
      · exact hkept part (by simp [hpart])
      · rw [List.mem_singleton.1 hpart, htidy]
        exact hlast.1
    · rw [hcut, tidy_append_en hne hpiece, if_pos hnil, List.map_append, hmap, List.map_singleton, htidy, hjoined]
  · obtain ⟨hothers, hrest⟩ := hwords hnil
    rw [hsplit] at hothers hrest
    have htidy : tidy (last ++ Particle.en.word :: first) = last ++ Particle.en.word :: tidy first := by
      rw [tidy_append_en hlast.1 hlast.2, if_neg (hothers first (by simp))]
    refine ⟨fun part hpart ↦ ?_, ?_⟩
    · rw [hcut] at hpart
      simp only [List.mem_append, List.mem_cons] at hpart
      rcases hpart with hpart | rfl | hpart
      · exact hkept part (by simp [hpart])
      · simp [htidy]
      · exact hothers part (by simp [hpart])
    · rw [hcut, tidy_append_en hne hpiece, if_neg hnil, List.map_append, List.map_cons, hmap, htidy,
        intercalate_append_cons, hjoined, ← hrest, List.map_cons]

end TidiesBetweenPi

theorem tidy_between_pi {words : List String} (h : Grouped words) (hne : tidy words ≠ []) : TidiesBetweenPi words := by
  induction words using cut_induction isEn with
  | plain words hwords =>
    rw [tidy_of_forall hwords] at hne
    exact .of_forall hwords (h words (by simp [splitDropping_of_forall hwords]) hne)
  | cut piece s words hpiece hs ih =>
    obtain rfl := eq_of_isEn s hs
    obtain ⟨hparts, hwords⟩ := h.of_append_en hpiece
    by_cases hpne : piece = []
    · subst hpne
      rw [List.nil_append, tidy_en_cons] at hne
      exact (ih hwords hne).en_cons
    · exact .append_en hpne hpiece (.of_forall hpiece (hparts hpne)) (ih hwords)

section

variable {ph : List String → Except ParseError Phrase} {words : List String} {c : Chain}

theorem chainOfLinks_eq_ok {p : Particle} {links : List Chain} :
    (chainOfLinks p links : Except ParseError Chain) = .ok c ↔ links ≠ [] ∧ c = .links p links := by
  unfold chainOfLinks
  cases links with
  | nil => simp
  | cons link links => simpa using eq_comm

theorem piChain_eq_ok : piChain ph words = .ok c ↔
    words ≠ [] ∧ Particle.la.word ∉ words ∧
      ∃ phrases, List.Forall₂ (fun piece p ↦ ph piece = .ok p) (splitDropping isPi words) phrases ∧
        c = .phrases .pi phrases := by
  unfold piChain
  split
  case isTrue h => simp_all
  case isFalse h =>
  split
  case isTrue hla => simp [Particle.isIn_iff.1 hla]
  case isFalse hla =>
    have hwords : words ≠ [] := by simpa using h
    have hread : ((Recall.chain (Word.spaced words) do
        let phrases ← (splitDropping isPi words).mapM ph
        chainOfPhrases .pi phrases : Except ParseError Chain) = .ok c) ↔
        ∃ phrases, (splitDropping isPi words).mapM ph = .ok phrases ∧
          (chainOfPhrases .pi phrases : Except ParseError Chain) = .ok c := bind_eq_ok
    rw [hread]
    simp only [hwords, Particle.isIn_iff.not.1 hla, ne_eq, not_false_eq_true, true_and]
    refine exists_congr (fun phrases ↦ ?_)
    rw [mapM_eq_ok]
    refine and_congr_right (fun hphrases ↦ ?_)
    obtain ⟨piece, pieces, hpieces⟩ := List.exists_cons_of_ne_nil (splitDropping_ne_nil isPi words)
    rw [hpieces] at hphrases
    cases hphrases with
    | cons _ _ => simpa [chainOfPhrases] using eq_comm

theorem links_eq_ok {p : Particle} {read : List String → Except ParseError Chain} {runs : List (List String)} :
    (runs.mapM read >>= chainOfLinks p) = .ok c ↔
      ∃ links, links ≠ [] ∧ List.Forall₂ (fun run link ↦ read run = .ok link) runs links ∧ c = .links p links := by
  rw [bind_eq_ok]
  refine exists_congr (fun links ↦ ?_)
  rw [mapM_eq_ok, chainOfLinks_eq_ok]
  exact and_left_comm

theorem spelling_links {p : Particle} (hp : p ≠ .e) {read : List String → Except ParseError Chain}
    {runs : List (List String)} {spell : List String → List String}
    (hread : ∀ run ∈ runs, ∀ link, read run = .ok link → link.spelling = spell run)
    (h : (runs.mapM read >>= chainOfLinks p) = .ok c) : c.spelling = [p.word].intercalate (runs.map spell) := by
  obtain ⟨links, -, hlinks, rfl⟩ := links_eq_ok.1 h
  rw [← map_eq_map_of_forall₂ hlinks hread]
  cases p <;> simp_all [Chain.spelling]

theorem coordinationOver_eq_ok : coordinationOver ph words = .ok c ↔
    words ≠ [] ∧ Particle.la.word ∉ words ∧ Particle.li.word ∉ words ∧ ∃ first, coordinationFirst ph words = .ok first ∧
      ((hasDanglingModifier first = false ∧ c = first) ∨
        (hasDanglingModifier first = true ∧ Particle.en.word ∈ words ∧ modificationFirst ph words = .ok c)) := by
  unfold coordinationOver
  split
  case isTrue h => simp_all
  case isFalse h =>
  have hwords : words ≠ [] := by simpa using h
  split
  case isTrue hla => simp [Particle.isIn_iff.1 hla]
  case isFalse hla =>
  split
  case isTrue hli => simp [Particle.isIn_iff.1 hli]
  case isFalse hli =>
    simp only [hwords, Particle.isIn_iff.not.1 hla, Particle.isIn_iff.not.1 hli, ne_eq, not_false_eq_true, true_and,
      bind_eq_ok]
    refine exists_congr (fun first ↦ and_congr_right (fun _ ↦ ?_))
    cases hasDanglingModifier first with
    | false => simpa using eq_comm
    | true =>
      by_cases hen : Particle.en.isIn words = true
      · simp [hen, Particle.isIn_iff.1 hen]
      · simp [hen, Particle.isIn_iff.not.1 hen]

theorem en_mem_of_coordinationOver (h : coordinationOver ph words = .ok c) (hc : c.particle = .pi) :
    Particle.en.word ∈ words := by
  obtain ⟨-, -, -, first, hfirst, ⟨-, rfl⟩ | ⟨-, hen, -⟩⟩ := coordinationOver_eq_ok.1 h
  · obtain ⟨links, -, -, rfl⟩ := links_eq_ok.1 hfirst
    exact absurd hc (by simp [Chain.particle])
  · exact hen

theorem coordinationFirst_tidy (hne : tidy words ≠ []) :
    coordinationFirst ph (tidy words) = coordinationFirst ph words := by
  unfold coordinationFirst
  rw [splitDropping_tidy hne, List.filter_filter]
  simp only [Bool.and_self]

theorem modificationFirst_tidy (hgrouped : Grouped words) (hne : tidy words ≠ []) :
    modificationFirst ph (tidy words) = modificationFirst ph words := by
  obtain ⟨hpieces, hjoin⟩ := tidy_between_pi hgrouped hne
  have hsplit : splitDropping isPi (tidy words) = (splitDropping isPi words).map tidy := by
    rw [← hjoin]
    apply splitDropping_intercalate isPi_word
    · simpa using splitDropping_ne_nil isPi words
    · intro run hrun w hw
      obtain ⟨piece, hpiece, rfl⟩ := List.mem_map.1 hrun
      exact not_sep_of_mem_splitDropping hpiece w (mem_of_mem_tidy hw)
  have htidied : ∀ run ∈ (splitDropping isPi words).map tidy, tidy run ≠ [] := by
    intro run hrun
    obtain ⟨piece, hpiece, rfl⟩ := List.mem_map.1 hrun
    rw [tidy_tidy]
    exact hpieces piece hpiece
  unfold modificationFirst
  rw [hsplit, filter_nonempty_of_tidy htidied, filter_nonempty_of_tidy hpieces, List.mapM_map]
  congr 1
  apply mapM_congr_of_mem
  intro piece hpiece
  rw [Function.comp_apply, splitDropping_tidy (hpieces piece hpiece), List.filter_filter]
  simp only [Bool.and_self]

variable (hph : ∀ words p, ph words = .ok p → p.spelling = words)

include hph

theorem spelling_piChain (h : piChain ph words = .ok c) : c.spelling = words := by
  obtain ⟨-, -, phrases, hphrases, rfl⟩ := piChain_eq_ok.1 h
  have hmap : phrases.map Phrase.spelling = (splitDropping isPi words).map id :=
    map_eq_map_of_forall₂ hphrases (fun piece _ p hp ↦ hph piece p hp)
  rw [Chain.spelling, Phrase.spellings_eq_map, hmap, List.map_id, intercalate_splitDropping eq_of_isPi]

theorem spelling_coordinationFirst (h : coordinationFirst ph words = .ok c) :
    c.spelling = tidy words ∧ tidy words ≠ [] ∧ Grouped words := by
  have hgroup (run : List String) (link : Chain)
      (hlink : ((splitDropping isPi run).mapM (piChain ph) >>= chainOfLinks .pi) = .ok link) :
      link.spelling = run ∧ [] ∉ splitDropping isPi run := by
    refine ⟨?_, fun hnil ↦ ?_⟩
    · rw [spelling_links (by simp) (fun part _ c hc ↦ spelling_piChain hph hc) hlink, List.map_id']
      exact intercalate_splitDropping eq_of_isPi run
    · obtain ⟨parts, -, hparts, -⟩ := links_eq_ok.1 hlink
      obtain ⟨part, -, hpart⟩ := forall₂_exists_of_mem hparts hnil
      exact (piChain_eq_ok.1 hpart).1 rfl
  refine ⟨?_, fun hnil ↦ ?_, fun run hrun hrne ↦ ?_⟩
  · rw [spelling_links (by simp) (fun run _ link hlink ↦ (hgroup run link hlink).1) h, List.map_id', tidy]
  · obtain ⟨links, hne, hlinks, -⟩ := links_eq_ok.1 h
    rw [tidy_eq_nil hnil] at hlinks
    exact hne (List.forall₂_nil_left_iff.1 hlinks)
  · obtain ⟨links, -, hlinks, -⟩ := links_eq_ok.1 h
    obtain ⟨link, -, hlink⟩ := forall₂_exists_of_mem hlinks (List.mem_filter.2 ⟨hrun, by simpa using hrne⟩)
    exact (hgroup run link hlink).2

theorem spelling_modificationFirst (h : modificationFirst ph words = .ok c) (hgrouped : Grouped words)
    (hne : tidy words ≠ []) : c.spelling = tidy words := by
  obtain ⟨hpieces, hjoin⟩ := tidy_between_pi hgrouped hne
  have hlink (run : List String) (link : Chain)
      (hlink : (((splitDropping isEn run).filter (!·.isEmpty)).mapM (piChain ph) >>= chainOfLinks .en) = .ok link) :
      link.spelling = tidy run := by
    rw [spelling_links (by simp) (fun part _ c hc ↦ spelling_piChain hph hc) hlink, List.map_id', tidy]
  rw [spelling_links (by simp) (fun run _ link h ↦ hlink run link h) h, filter_nonempty_of_tidy hpieces]
  exact hjoin

/-- A chain is spelled as it was written, less the `en`s that coordinate nothing. -/
theorem spelling_coordinationOver (h : coordinationOver ph words = .ok c) : c.spelling = tidy words := by
  obtain ⟨-, -, -, first, hfirst, ⟨-, rfl⟩ | ⟨-, -, hsecond⟩⟩ := coordinationOver_eq_ok.1 h
  · exact (spelling_coordinationFirst hph hfirst).1
  · obtain ⟨-, hne, hgrouped⟩ := spelling_coordinationFirst hph hfirst
    exact spelling_modificationFirst hph hsecond hgrouped hne

/-- As long as a chain that needs an `en` has one left, it is read again from its spelling. -/
theorem coordinationOver_spelling (h : coordinationOver ph words = .ok c)
    (hen : c.particle = .pi → Particle.en.word ∈ c.spelling) : coordinationOver ph c.spelling = .ok c := by
  have hspelling := spelling_coordinationOver hph h
  obtain ⟨-, hla, hli, first, hfirst, hc⟩ := coordinationOver_eq_ok.1 h
  obtain ⟨-, hne, hgrouped⟩ := spelling_coordinationFirst hph hfirst
  rw [hspelling] at hen ⊢
  refine coordinationOver_eq_ok.2 ⟨hne, fun h ↦ hla (mem_of_mem_tidy h), fun h ↦ hli (mem_of_mem_tidy h), first, ?_, ?_⟩
  · rw [coordinationFirst_tidy hne, hfirst]
  · refine hc.imp_right (fun ⟨hdangling, _, hsecond⟩ ↦ ⟨hdangling, hen ?_, ?_⟩)
    · obtain ⟨links, -, -, rfl⟩ := links_eq_ok.1 hsecond
      rfl
    · rw [modificationFirst_tidy hgrouped hne, hsecond]

end

section

variable {lex : Lexicon} {words : List String}

def IsPhraseWord (w : String) : Prop := ∀ p ∈ [Particle.pi, .la, .e, .li, .en, .o], w ≠ p.word

def IsStructural (w : String) : Prop := ∃ p : Particle, p.isStructural = true ∧ w = p.word

/-- A word after which any other may stand. -/
def IsQuiet (w : String) : Prop := ¬ IsStructural w ∧ w ≠ Particle.o.word

theorem isStructural_word {p : Particle} : IsStructural p.word ↔ p.isStructural = true := by
  constructor
  · rintro ⟨q, hq, heq⟩
    rwa [Particle.word_inj.1 heq]
  · exact fun h ↦ ⟨p, h, rfl⟩

theorem isQuiet_word {p : Particle} : IsQuiet p.word ↔ p.isStructural = false ∧ p ≠ .o := by
  simp [IsQuiet, isStructural_word, Particle.word_inj]

theorem IsPhraseWord.isQuiet {w : String} (h : IsPhraseWord w) : IsQuiet w := by
  refine ⟨?_, h .o (by simp)⟩
  rintro ⟨p, hp, rfl⟩
  cases p <;> simp [Particle.isStructural] at hp
  all_goals exact h _ (by simp) rfl

theorem refuseParticles_eq_ok {u : Unit} :
    (refuseParticles words : Except ParseError Unit) = .ok u ↔ ∀ w ∈ words, IsPhraseWord w := by
  have hfind : [Particle.pi, .la, .e, .li, .en, .o].find? (·.isIn words) = none ↔ ∀ w ∈ words, IsPhraseWord w := by
    rw [List.find?_eq_none]
    constructor
    · exact fun h w hw p hp heq ↦ h p hp (Particle.isIn_iff.2 (heq ▸ hw))
    · exact fun h p hp hin ↦ h p.word (Particle.isIn_iff.1 hin) p hp rfl
  rw [← hfind, refuseParticles]
  cases [Particle.pi, .la, .e, .li, .en, .o].find? (·.isIn words) with
  | none => simp
  | some p => simp

theorem headed_eq_ok {prepositions : List PrepPhrase} {p : Phrase} :
    (headed lex words prepositions : Except ParseError Phrase) = .ok p ↔
      lex.lexemes words = p.head :: p.modifiers ∧ p.prepositions = prepositions := by
  obtain ⟨head, modifiers, preps⟩ := p
  unfold headed
  cases lex.lexemes words with
  | nil => simp
  | cons l ls => simp [and_assoc, eq_comm (a := preps)]

theorem words_of_lexemes {l : Lexeme} {ls : List Lexeme} (h : lex.lexemes words = l :: ls) :
    l.words ++ ls.flatMap Lexeme.words = words := by
  rw [← Lexicon.flatMap_words_lexemes lex words, h, List.flatMap_cons]

theorem spelling_plainPhrase {p : Phrase} (h : (plainPhrase lex words : Except ParseError Phrase) = .ok p) :
    p.spelling = words := by
  unfold plainPhrase at h
  split at h
  · simp at h
  obtain ⟨_, -, h⟩ := bind_eq_ok.1 h
  obtain ⟨hlexemes, hprep⟩ := headed_eq_ok.1 h
  obtain ⟨head, modifiers, prepositions⟩ := p
  obtain rfl : prepositions = [] := hprep
  simpa [Phrase.spelling] using words_of_lexemes hlexemes

theorem tilde_bare {w : String} (h : Word.isPreposition w = true) : "~" ++ Word.bare w = w := by
  apply String.toList_inj.1
  unfold Word.isPreposition at h
  unfold Word.bare
  split at h
  case _ c cs heq => simp [heq]
  · simp at h

theorem bare_of_isPreposition_eq_false {w : String} (h : Word.isPreposition w = false) : Word.bare w = w := by
  unfold Word.isPreposition at h
  unfold Word.bare
  split
  case _ heq => simp [heq] at h
  · rfl

theorem complement_eq_ok {governed : Option Chain} (hwords : NoPreposition words) :
    (complement lex words : Except ParseError (Option Chain)) = .ok governed ↔
      (words = [] ∧ governed = none) ∨
        (words ≠ [] ∧ ∃ c, (coordination lex words : Except ParseError Chain) = .ok c ∧ governed = some c) := by
  by_cases hne : words = []
  · subst hne
    simpa [complement] using eq_comm
  · rw [complement_of_ne_nil lex hne hwords, map_eq_ok]
    simp [hne, eq_comm]

def ReadsPrepPhrase (lex : Lexicon) (piece : List String) (p : PrepPhrase) : Prop :=
  ∃ w words, piece = w :: words ∧ Word.isPreposition w = true ∧ NoPreposition words ∧ p.preposition = Word.bare w ∧
    (complement lex words : Except ParseError (Option Chain)) = .ok p.complement

theorem prepPhrases_eq_ok {pieces : List (List String)} {phrases : List PrepPhrase}
    (hpieces : ∀ piece ∈ pieces, Opens Word.isPreposition piece) :
    (prepPhrases lex pieces : Except ParseError (List PrepPhrase)) = .ok phrases ↔
      List.Forall₂ (ReadsPrepPhrase lex) pieces phrases := by
  induction pieces generalizing phrases with
  | nil => simp [prepPhrases]
  | cons piece pieces ih =>
    obtain ⟨w, words, rfl, hw, hwords⟩ := hpieces piece (by simp)
    have ih' {rest} := @ih rest (fun q hq ↦ hpieces q (by simp [hq]))
    rw [prepPhrases, if_pos hw, bind_eq_ok, List.forall₂_cons_left_iff]
    constructor
    · rintro ⟨governed, hgoverned, h⟩
      obtain ⟨rest, hrest, h⟩ := bind_eq_ok.1 h
      exact ⟨_, rest, ⟨w, words, rfl, hw, hwords, rfl, hgoverned⟩, ih'.1 hrest, (pure_eq_ok.1 h).symm⟩
    · rintro ⟨⟨preposition, governed⟩, rest, ⟨v, words', heq, -, -, hv, hgoverned⟩, hrest, rfl⟩
      obtain ⟨rfl, rfl⟩ := List.cons.inj heq
      obtain rfl : preposition = Word.bare w := hv
      exact ⟨governed, hgoverned, bind_eq_ok.2 ⟨rest, ih'.2 hrest, rfl⟩⟩

/-- What a piece that opens with a preposition is spelled as. -/
def tidyPiece : List String → List String
  | [] => []
  | w :: words => w :: tidy words

theorem tidyPiece_of_forall {piece : List String} (h : ∀ w ∈ piece, isEn w = false) : tidyPiece piece = piece := by
  cases piece with
  | nil => rfl
  | cons w words => rw [tidyPiece, tidy_of_forall (fun v hv ↦ h v (by simp [hv]))]

theorem ReadsPrepPhrase.spelling_eq {piece : List String} {p : PrepPhrase} (h : ReadsPrepPhrase lex piece p) :
    p.spelling = tidyPiece piece := by
  obtain ⟨preposition, governed⟩ := p
  obtain ⟨w, words, rfl, hw, hwords, rfl, hgoverned⟩ := h
  rcases (complement_eq_ok hwords).1 hgoverned with ⟨rfl, rfl⟩ | ⟨-, c, hc, rfl⟩
  · rw [PrepPhrase.spelling, tilde_bare hw]
    rfl
  · rw [← coordinationOver_plainPhrase lex hwords] at hc
    rw [PrepPhrase.spelling, tilde_bare hw, tidyPiece,
      spelling_coordinationOver (fun _ _ ↦ spelling_plainPhrase) hc]

theorem phrase_eq_ok {p : Phrase} : (phrase lex words : Except ParseError Phrase) = .ok p ↔
    (∀ w ∈ words, IsPhraseWord w) ∧ ∃ first pieces, splitBefore Word.isPreposition words = first :: pieces ∧
      NoPreposition first ∧ lex.lexemes first = p.head :: p.modifiers ∧
        List.Forall₂ (ReadsPrepPhrase lex) pieces p.prepositions := by
  cases words with
  | nil => simp [phrase, splitBefore]
  | cons w ws =>
    obtain ⟨body, pieces, hsplit⟩ := splitBefore_cons Word.isPreposition w ws
    obtain ⟨-, htail, hopens⟩ := splitBefore_eq_cons hsplit
    have hread : (phrase lex (w :: ws) : Except ParseError Phrase) =
        refuseParticles (w :: ws) >>= fun _ ↦
          if Word.isPreposition w then throw (.emptySpan .phraseHead (Word.spaced (w :: ws)))
          else prepPhrases lex pieces >>= headed lex (w :: body) := by
      rw [phrase, if_neg (by simp), hsplit]
      rfl
    rw [hread, bind_eq_ok, hsplit]
    simp only [refuseParticles_eq_ok, exists_and_left, exists_const, List.cons.injEq]
    refine and_congr_right (fun _ ↦ ?_)
    constructor
    · intro h
      split at h
      · exact absurd h throw_ne_ok
      case isFalse hw =>
        obtain ⟨prepositions, hprep, h⟩ := bind_eq_ok.1 h
        obtain ⟨hlexemes, rfl⟩ := headed_eq_ok.1 h
        refine ⟨_, _, ⟨rfl, rfl⟩, ?_, hlexemes, (prepPhrases_eq_ok hopens).1 hprep⟩
        exact List.forall_mem_cons.2 ⟨by simpa using hw, htail⟩
    · rintro ⟨first, others, ⟨rfl, rfl⟩, hfirst, hlexemes, hprep⟩
      rw [if_neg (by simp [hfirst w (by simp)]), bind_eq_ok]
      exact ⟨_, (prepPhrases_eq_ok hopens).2 hprep, headed_eq_ok.2 ⟨hlexemes, rfl⟩⟩

theorem spelling_phrase {p : Phrase} (h : (phrase lex words : Except ParseError Phrase) = .ok p) :
    p.spelling = words := by
  obtain ⟨hwords, first, pieces, hsplit, -, hfirst, hpieces⟩ := phrase_eq_ok.1 h
  have hflat := flatten_splitBefore Word.isPreposition words
  rw [hsplit, List.flatten_cons] at hflat
  have hmap : p.prepositions.map PrepPhrase.spelling = pieces := by
    rw [map_eq_map_of_forall₂ hpieces (fun piece _ q hq ↦ hq.spelling_eq)]
    refine (List.map_congr_left (fun piece hpiece ↦ ?_)).trans (List.map_id' pieces)
    apply tidyPiece_of_forall
    intro w hw
    have hw' := hwords w (mem_of_mem_splitBefore (hsplit ▸ List.mem_cons_of_mem _ hpiece) w hw) .en (by simp)
    simpa [isEn] using hw'
  obtain ⟨head, modifiers, prepositions⟩ := p
  rw [Phrase.spelling, PrepPhrase.spellings_eq_map, hmap, words_of_lexemes hfirst, hflat]

theorem spelling_chain {c : Chain} (h : (chain lex words : Except ParseError Chain) = .ok c) : c.spelling = words :=
  spelling_piChain (fun _ _ ↦ spelling_phrase) h

theorem spelling_coordination {c : Chain} (h : (coordination lex words : Except ParseError Chain) = .ok c) :
    c.spelling = tidy words :=
  spelling_coordinationOver (fun _ _ ↦ spelling_phrase) h

def ArePhrases (runs : List (List String)) : Prop := ∀ run ∈ runs, run ≠ [] ∧ ∀ w ∈ run, IsPhraseWord w

theorem ArePhrases.of_read {runs : List (List String)}
    (h : ∀ run ∈ runs, ∃ p, (phrase lex run : Except ParseError Phrase) = .ok p) : ArePhrases runs := by
  intro run hrun
  obtain ⟨p, hp⟩ := h run hrun
  refine ⟨?_, (phrase_eq_ok.1 hp).1⟩
  rintro rfl
  simp [phrase] at hp

theorem phrases_of_chain {c : Chain} (h : (chain lex words : Except ParseError Chain) = .ok c) :
    ∀ run ∈ splitDropping isPi words, ∃ p, (phrase lex run : Except ParseError Phrase) = .ok p := by
  obtain ⟨-, -, phrases, hphrases, -⟩ := piChain_eq_ok.1 h
  intro run hrun
  obtain ⟨p, -, hp⟩ := forall₂_exists_of_mem hphrases hrun
  exact ⟨p, hp⟩

theorem arePhrases_of_chain {c : Chain} (h : (chain lex words : Except ParseError Chain) = .ok c) :
    ArePhrases (splitDropping isPi words) :=
  .of_read (phrases_of_chain h)

theorem phrases_of_coordination {c : Chain} (h : (coordination lex words : Except ParseError Chain) = .ok c) :
    ∀ run ∈ splitDropping isEn words, run ≠ [] →
      ∀ part ∈ splitDropping isPi run, ∃ p, (phrase lex part : Except ParseError Phrase) = .ok p := by
  intro run hrun hne part hpart
  obtain ⟨-, -, -, first, hfirst, -⟩ := coordinationOver_eq_ok.1 h
  obtain ⟨links, -, hlinks, -⟩ := links_eq_ok.1 hfirst
  obtain ⟨link, -, hlink⟩ := forall₂_exists_of_mem hlinks (List.mem_filter.2 ⟨hrun, by simpa using hne⟩)
  obtain ⟨parts, -, hparts, -⟩ := links_eq_ok.1 hlink
  obtain ⟨c, -, hc⟩ := forall₂_exists_of_mem hparts hpart
  have hplain := splitDropping_of_forall (not_sep_of_mem_splitDropping hpart)
  have hread : (chain lex part : Except ParseError Chain) = .ok c := hc
  exact phrases_of_chain hread part (by rw [hplain]; simp)

theorem arePhrases_of_coordination {c : Chain} (h : (coordination lex words : Except ParseError Chain) = .ok c) :
    ∀ run ∈ splitDropping isEn words, run ≠ [] → ArePhrases (splitDropping isPi run) :=
  fun run hrun hne ↦ .of_read (phrases_of_coordination h run hrun hne)

theorem mem_or_eq_of_splitDropping {p : String → Bool} {s w : String} (hs : ∀ x, p x = true → x = s) (hw : w ∈ words) :
    w = s ∨ ∃ run ∈ splitDropping p words, w ∈ run := by
  by_cases hp : p w = true
  · exact .inl (hs w hp)
  · right
    rw [← List.mem_flatten, flatten_splitDropping]
    exact List.mem_filter.2 ⟨hw, by simpa using hp⟩

theorem mem_of_coordination {c : Chain} (h : (coordination lex words : Except ParseError Chain) = .ok c) :
    ∀ w ∈ words, w = Particle.en.word ∨ w = Particle.pi.word ∨ IsPhraseWord w := by
  intro w hw
  refine (mem_or_eq_of_splitDropping eq_of_isEn hw).imp_right (fun ⟨run, hrun, hw⟩ ↦ ?_)
  refine (mem_or_eq_of_splitDropping eq_of_isPi hw).imp_right (fun ⟨part, hpart, hw'⟩ ↦ ?_)
  exact (arePhrases_of_coordination h run hrun (List.ne_nil_of_mem hw) part hpart).2 w hw'

theorem coordination_spelling {c : Chain} (h : (coordination lex words : Except ParseError Chain) = .ok c)
    (hc : c.KeepsEn) : (coordination lex c.spelling : Except ParseError Chain) = .ok c :=
  coordinationOver_spelling (fun _ _ ↦ spelling_phrase) h hc

theorem ReadsPrepPhrase.spelling {piece : List String} {p : PrepPhrase} (h : ReadsPrepPhrase lex piece p)
    (hp : p.KeepsEn) : ReadsPrepPhrase lex p.spelling p := by
  rw [h.spelling_eq]
  obtain ⟨w, words, rfl, hw, hwords, hbare, hgoverned⟩ := h
  have htidy : NoPreposition (tidy words) := fun v hv ↦ hwords v (mem_of_mem_tidy hv)
  refine ⟨w, tidy words, rfl, hw, htidy, hbare, (complement_eq_ok htidy).2 ?_⟩
  rcases (complement_eq_ok hwords).1 hgoverned with ⟨rfl, hnone⟩ | ⟨-, c, hc, hsome⟩
  · exact .inl ⟨rfl, hnone⟩
  · have hagain := coordination_spelling hc (hp c (by simp [hsome]))
    rw [spelling_coordination hc] at hagain
    exact .inr ⟨(coordinationOver_eq_ok.1 hagain).1, c, hagain, hsome⟩

end

end Reading
end TokiPona
