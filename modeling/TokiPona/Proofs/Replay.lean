import TokiPona.Proofs.Recall

/-!
What becomes of a memory. Whatever is in it, readers only add to it, and nothing is recorded under a key while that key is
being read. So a second reading finds what the first one recorded, takes the same way, and adds nothing.
-/

namespace TokiPona

namespace Memory

/-- Every entry of the first memory is in the second. -/
structure Keeps (memory later : Memory) : Prop where
  chains : ∀ key c, memory.chains.lookup key = some c → later.chains.lookup key = some c
  phrases : ∀ key p, memory.phrases.lookup key = some p → later.phrases.lookup key = some p

structure Grows (memory later : Memory) : Prop extends memory.Keeps later where
  size_le : memory.size ≤ later.size
  hits_le : memory.hits ≤ later.hits

/-- The two memories differ at most in how often an entry was used. -/
structure SameEntries (memory later : Memory) : Prop where
  chains : later.chains = memory.chains
  phrases : later.phrases = memory.phrases

variable {memory later last : Memory}

theorem Keeps.trans (h : memory.Keeps later) (h' : later.Keeps last) : memory.Keeps last :=
  ⟨fun key c hc ↦ h'.chains key c (h.chains key c hc), fun key p hp ↦ h'.phrases key p (h.phrases key p hp)⟩

theorem SameEntries.refl (memory : Memory) : memory.SameEntries memory := ⟨rfl, rfl⟩

theorem SameEntries.trans (h : memory.SameEntries later) (h' : later.SameEntries last) : memory.SameEntries last :=
  ⟨h'.chains.trans h.chains, h'.phrases.trans h.phrases⟩

theorem SameEntries.keeps (h : memory.SameEntries later) : memory.Keeps later :=
  ⟨fun key c hc ↦ by rwa [h.chains], fun key p hp ↦ by rwa [h.phrases]⟩

theorem Grows.refl (memory : Memory) : memory.Grows memory := ⟨(SameEntries.refl memory).keeps, le_refl _, le_refl _⟩

theorem Grows.trans (h : memory.Grows later) (h' : later.Grows last) : memory.Grows last :=
  ⟨h.toKeeps.trans h'.toKeeps, h.size_le.trans h'.size_le, h.hits_le.trans h'.hits_le⟩

theorem sameEntries_hit (memory : Memory) : memory.SameEntries memory.hit := ⟨rfl, rfl⟩

theorem grows_hit (memory : Memory) : memory.Grows memory.hit :=
  ⟨(sameEntries_hit memory).keeps, le_refl _, Nat.le_succ _⟩

theorem lookup_record_of_eq_some {α : Type} {key other : String} {a b : α} {entries : List (String × α)}
    (h : entries.lookup other = some b) : (record key a entries).lookup other = some b := by
  by_cases hkey : other = key
  · rw [hkey] at h ⊢
    rw [lookup_record_self, h]
    rfl
  · rwa [lookup_record_of_ne hkey]

theorem length_le_length_record {α : Type} (key : String) (a : α) (entries : List (String × α)) :
    entries.length ≤ (record key a entries).length := by
  unfold record
  split
  · exact le_refl _
  · exact Nat.le_succ _

theorem grows_recordChain (key : String) (c : Chain) (memory : Memory) : memory.Grows (memory.recordChain key c) :=
  ⟨⟨fun _ _ h ↦ lookup_record_of_eq_some h, fun _ _ h ↦ h⟩,
    Nat.add_le_add_right (length_le_length_record _ _ _) _, le_refl _⟩

theorem grows_recordPhrase (key : String) (p : Phrase) (memory : Memory) : memory.Grows (memory.recordPhrase key p) :=
  ⟨⟨fun _ _ h ↦ h, fun _ _ h ↦ lookup_record_of_eq_some h⟩,
    Nat.add_le_add_left (length_le_length_record _ _ _) _, le_refl _⟩

end Memory

namespace Reading

variable {lex : Lexicon} {α β : Type}

/-- Readers made of results, errors and steps, which record chains and phrases under the keys given and under none that is
being read. -/
inductive RecordsOnly : (String → Prop) → (String → Prop) → {α : Type} → Remembering α → Prop
  | pure {C P : String → Prop} {α : Type} (a : α) : RecordsOnly C P (pure a : Remembering α)
  | throw {C P : String → Prop} {α : Type} (e : ParseError) : RecordsOnly C P (throw e : Remembering α)
  | bind {C P : String → Prop} {α β : Type} {x : Remembering α} {f : α → Remembering β} :
      RecordsOnly C P x → (∀ a, RecordsOnly C P (f a)) → RecordsOnly C P (x >>= f)
  | chain {C P : String → Prop} {key : String} {x : Remembering Chain} :
      C key → RecordsOnly (fun k ↦ C k ∧ k ≠ key) P x → RecordsOnly C P (Recall.chain key x)
  | phrase {C P : String → Prop} {key : String} {x : Remembering Phrase} :
      P key → RecordsOnly C (fun k ↦ P k ∧ k ≠ key) x → RecordsOnly C P (Recall.phrase key x)

theorem run_bind (x : Remembering α) (f : α → Remembering β) (memory : Memory) :
    (x >>= f).run.run memory =
      match x.run.run memory with
      | (.ok a, memory') => (f a).run.run memory'
      | (.error e, memory') => (.error e, memory') := by
  rw [ExceptT.run_bind, StateT.run_bind]
  rcases x.run.run memory with ⟨_ | a, memory'⟩ <;> rfl

theorem RecordsOnly.steps {R : Memory → Memory → Prop} (hrefl : ∀ memory, R memory memory)
    (htrans : ∀ {memory later last}, R memory later → R later last → R memory last) (hhit : ∀ memory, R memory memory.hit)
    {C P : String → Prop} (hchain : ∀ key, C key → ∀ c memory, R memory (memory.recordChain key c))
    (hphrase : ∀ key, P key → ∀ p memory, R memory (memory.recordPhrase key p))
    {x : Remembering α} (h : RecordsOnly C P x) (memory : Memory) : R memory (x.run.run memory).2 := by
  have hrecall {γ : Type} {look : Memory → Option γ} {store : γ → Memory → Memory} {x : Remembering γ}
      (hx : ∀ memory, R memory (x.run.run memory).2) (hstore : ∀ a memory, R memory (store a memory)) (memory : Memory) :
      R memory ((recallBy look store x).run.run memory).2 := by
    have hread := hx memory
    rw [run_recallBy]
    cases look memory with
    | some a => exact hhit memory
    | none =>
      rcases hrun : x.run.run memory with ⟨_ | a, later⟩
      · rwa [hrun] at hread
      · rw [hrun] at hread
        exact htrans hread (hstore a later)
  induction h generalizing memory with
  | pure a => exact hrefl memory
  | throw e => exact hrefl memory
  | @bind C P α β x f _ _ ih ihf =>
    have hread := ih hchain hphrase memory
    rw [run_bind]
    rcases hrun : x.run.run memory with ⟨_ | a, later⟩
    · rwa [hrun] at hread
    · rw [hrun] at hread
      exact htrans hread (ihf a hchain hphrase later)
  | @chain C P key x hkey _ ih =>
    rw [recallChain_eq]
    exact hrecall (ih (fun k hk ↦ hchain k hk.1) hphrase) (hchain key hkey) memory
  | @phrase C P key x hkey _ ih =>
    rw [recallPhrase_eq]
    exact hrecall (ih hchain (fun k hk ↦ hphrase k hk.1)) (hphrase key hkey) memory

section

variable {C P : String → Prop} {x : Remembering α}

theorem RecordsOnly.grows (h : RecordsOnly C P x) (memory : Memory) : memory.Grows (x.run.run memory).2 :=
  h.steps Memory.Grows.refl Memory.Grows.trans Memory.grows_hit (fun key _ ↦ Memory.grows_recordChain key)
    (fun key _ ↦ Memory.grows_recordPhrase key) memory

theorem RecordsOnly.lookup_chains (h : RecordsOnly C P x) {key : String} (hkey : ¬ C key) (memory : Memory) :
    (x.run.run memory).2.chains.lookup key = memory.chains.lookup key := by
  apply h.steps (R := fun memory later ↦ later.chains.lookup key = memory.chains.lookup key)
  · exact fun _ ↦ rfl
  · exact fun h h' ↦ h'.trans h
  · exact fun _ ↦ rfl
  · exact fun k hk c memory ↦ Memory.lookup_record_of_ne (fun heq : key = k ↦ hkey (heq ▸ hk)) c memory.chains
  · exact fun _ _ _ _ ↦ rfl

theorem RecordsOnly.lookup_phrases (h : RecordsOnly C P x) {key : String} (hkey : ¬ P key) (memory : Memory) :
    (x.run.run memory).2.phrases.lookup key = memory.phrases.lookup key := by
  apply h.steps (R := fun memory later ↦ later.phrases.lookup key = memory.phrases.lookup key)
  · exact fun _ ↦ rfl
  · exact fun h h' ↦ h'.trans h
  · exact fun _ ↦ rfl
  · exact fun _ _ _ _ ↦ rfl
  · exact fun k hk p memory ↦ Memory.lookup_record_of_ne (fun heq : key = k ↦ hkey (heq ▸ hk)) p memory.phrases

end

/-- Once it has been read, it is read as the same again and nothing is recorded. A result is found again wherever the
entries are kept; an error needs that no others have come in. -/
def Settles (x : Remembering α) : Prop :=
  ∀ memory : Memory,
    match x.run.run memory with
    | (.ok a, later) => ∀ again : Memory, later.Keeps again →
        ∃ last, x.run.run again = (.ok a, last) ∧ again.SameEntries last
    | (.error e, later) => ∀ again : Memory, later.SameEntries again →
        ∃ last, x.run.run again = (.error e, last) ∧ again.SameEntries last

theorem Settles.again {x : Remembering α} (h : Settles x) (memory : Memory) :
    (x.run.run (x.run.run memory).2).1 = (x.run.run memory).1 ∧
      (x.run.run memory).2.SameEntries (x.run.run (x.run.run memory).2).2 := by
  have hfirst := h memory
  rcases hrun : x.run.run memory with ⟨e | a, later⟩
  · rw [hrun] at hfirst
    obtain ⟨last, hlast, hsame⟩ := hfirst later (.refl later)
    exact ⟨by rw [hlast], by rwa [hlast]⟩
  · rw [hrun] at hfirst
    obtain ⟨last, hlast, hsame⟩ := hfirst later (Memory.SameEntries.refl later).keeps
    exact ⟨by rw [hlast], by rwa [hlast]⟩

theorem Settles.bind {x : Remembering α} {f : α → Remembering β} (hx : Settles x) (hf : ∀ a, Settles (f a))
    (hgrows : ∀ a memory, Memory.Keeps memory ((f a).run.run memory).2) : Settles (x >>= f) := by
  intro memory
  have hfirst := hx memory
  rw [run_bind]
  rcases hrun : x.run.run memory with ⟨e | a, middle⟩
  · rw [hrun] at hfirst
    intro again hagain
    obtain ⟨last, hlast, hsame⟩ := hfirst again hagain
    exact ⟨last, by rw [run_bind, hlast], hsame⟩
  rw [hrun] at hfirst
  have hsecond := hf a middle
  have hkeeps := hgrows a middle
  -- the second part is read again from what the first part leaves, which has the same entries
  have hagain {again : Memory} (h : middle.Keeps again) :
      ∃ next, again.SameEntries next ∧ (x >>= f).run.run again = (f a).run.run next := by
    obtain ⟨next, hnext, hsame⟩ := hfirst again h
    exact ⟨next, hsame, by rw [run_bind, hnext]⟩
  simp only
  rcases hrun' : (f a).run.run middle with ⟨e | b, later⟩
  · rw [hrun'] at hsecond hkeeps
    intro again hsame
    obtain ⟨next, hnext, heq⟩ := hagain (hkeeps.trans hsame.keeps)
    obtain ⟨last, hlast, hsame'⟩ := hsecond next (hsame.trans hnext)
    exact ⟨last, heq.trans hlast, hnext.trans hsame'⟩
  · rw [hrun'] at hsecond hkeeps
    intro again hlater
    obtain ⟨next, hnext, heq⟩ := hagain (hkeeps.trans hlater)
    obtain ⟨last, hlast, hsame'⟩ := hsecond next (hlater.trans hnext.keeps)
    exact ⟨last, heq.trans hlast, hnext.trans hsame'⟩

/-- What is recalled settles if nothing comes in its place while it is read. -/
theorem Settles.recallBy {look : Memory → Option α} {store : α → Memory → Memory} {x : Remembering α} (hx : Settles x)
    (hkeeps : ∀ {memory later a}, Memory.Keeps memory later → look memory = some a → look later = some a)
    (hsame : ∀ {memory later}, Memory.SameEntries memory later → look later = look memory)
    (hstore : ∀ {a memory}, look memory = none → look (store a memory) = some a)
    (hfree : ∀ memory, look (x.run.run memory).2 = look memory) : Settles (recallBy look store x) := by
  intro memory
  have hhit {again : Memory} {a : α} (h : look again = some a) :
      ∃ last, (Reading.recallBy look store x).run.run again = (.ok a, last) ∧ again.SameEntries last :=
    ⟨again.hit, by rw [run_recallBy, h], again.sameEntries_hit⟩
  rw [run_recallBy]
  cases hlook : look memory with
  | some a => exact fun again hagain ↦ hhit (hkeeps hagain ((hsame memory.sameEntries_hit).trans hlook))
  | none =>
    have hread := hx memory
    have hnone := hfree memory
    rw [hlook] at hnone
    rcases hrun : x.run.run memory with ⟨e | a, later⟩
    · rw [hrun] at hread hnone
      intro again hagain
      obtain ⟨last, hlast, hsame'⟩ := hread again hagain
      exact ⟨last, by rw [run_recallBy, hsame hagain, hnone, hlast], hsame'⟩
    · rw [hrun] at hnone
      exact fun again hagain ↦ hhit (hkeeps hagain (hstore hnone))

theorem RecordsOnly.settles {C P : String → Prop} {x : Remembering α} (h : RecordsOnly C P x) : Settles x := by
  induction h with
  | pure a => exact fun memory again _ ↦ ⟨again, rfl, .refl again⟩
  | throw e => exact fun memory again _ ↦ ⟨again, rfl, .refl again⟩
  | bind _ hf ih ihf => exact ih.bind ihf (fun a memory ↦ ((hf a).grows memory).toKeeps)
  | chain _ hx ih =>
    rw [recallChain_eq]
    apply ih.recallBy
    · exact fun h hc ↦ h.chains _ _ hc
    · exact fun h ↦ by rw [h.chains]
    · exact fun h ↦ by rw [Memory.recordChain, Memory.lookup_record_self, h]; rfl
    · exact hx.lookup_chains (fun h ↦ h.2 rfl)
  | phrase _ hx ih =>
    rw [recallPhrase_eq]
    apply ih.recallBy
    · exact fun h hp ↦ h.phrases _ _ hp
    · exact fun h ↦ by rw [h.phrases]
    · exact fun h ↦ by rw [Memory.recordPhrase, Memory.lookup_record_self, h]; rfl
    · exact hx.lookup_phrases (fun h ↦ h.2 rfl)

section

variable {C P : String → Prop}

theorem RecordsOnly.map {x : Remembering α} (f : α → β) (h : RecordsOnly C P x) : RecordsOnly C P (f <$> x) := by
  rw [map_eq_pure_bind]
  exact h.bind (fun a ↦ .pure (f a))

theorem RecordsOnly.mapM {f : α → Remembering β} {xs : List α} (h : ∀ x ∈ xs, RecordsOnly C P (f x)) :
    RecordsOnly C P (xs.mapM f) := by
  induction xs with
  | nil => exact .pure []
  | cons x xs ih =>
    rw [List.mapM_cons]
    exact (h x (by simp)).bind (fun a ↦ (ih (fun y hy ↦ h y (by simp [hy]))).bind (fun as ↦ .pure (a :: as)))

theorem recordsOnly_chainOfPhrases (p : Particle) (phrases : List Phrase) :
    RecordsOnly C P (chainOfPhrases p phrases) := by
  unfold chainOfPhrases
  split
  · exact .throw _
  · exact .pure _

theorem recordsOnly_chainOfLinks (p : Particle) (links : List Chain) : RecordsOnly C P (chainOfLinks p links) := by
  unfold chainOfLinks
  split
  · exact .throw _
  · exact .pure _

theorem recordsOnly_refuseParticles (words : List String) : RecordsOnly C P (refuseParticles words) := by
  unfold refuseParticles
  split
  · exact .throw _
  · exact .pure _

theorem recordsOnly_headed (words : List String) (prepositions : List PrepPhrase) :
    RecordsOnly C P (headed lex words prepositions) := by
  unfold headed
  split
  · exact .pure _
  · exact .throw _

end

theorem length_spaced_cons (w : String) {words : List String} (hne : words ≠ []) :
    (Word.spaced (w :: words)).length = w.length + 1 + (Word.spaced words).length := by
  obtain ⟨v, rest, rfl⟩ := List.exists_cons_of_ne_nil hne
  have hspace : " ".length = 1 := by decide
  simp [Word.spaced, hspace]

theorem length_spaced_le {run words : List String} (h : run.Sublist words) :
    (Word.spaced run).length ≤ (Word.spaced words).length := by
  induction h with
  | slnil => exact le_refl _
  | @cons run words w h ih =>
    by_cases hne : words = []
    · subst hne
      simp [List.sublist_nil.1 h, Word.spaced]
    · rw [length_spaced_cons w hne]
      omega
  | @cons_cons run words w h ih =>
    by_cases hne : run = []
    · subst hne
      by_cases hne' : words = []
      · rw [hne']
      · rw [length_spaced_cons w hne']
        simp [Word.spaced]
        omega
    · have hne' : words ≠ [] := fun hnil ↦ hne (by simpa [hnil] using h)
      rw [length_spaced_cons w hne, length_spaced_cons w hne']
      omega

theorem sublist_of_mem_splitDropping {p : String → Bool} {words piece : List String}
    (h : piece ∈ splitDropping p words) : piece.Sublist words := by
  have hflatten := List.sublist_flatten_of_mem h
  rw [flatten_splitDropping] at hflatten
  exact hflatten.trans List.filter_sublist

theorem sublist_of_mem_splitBefore {p : String → Bool} {words piece : List String}
    (h : piece ∈ splitBefore p words) : piece.Sublist words := by
  have hflatten := List.sublist_flatten_of_mem h
  rwa [flatten_splitBefore] at hflatten

section

variable {C P : String → Prop} {words : List String}

theorem recordsOnly_plainPhrase (h : words ≠ [] → P (Word.spaced words)) : RecordsOnly C P (plainPhrase lex words) := by
  unfold plainPhrase
  split
  · exact .throw _
  case isFalse hne =>
    exact .phrase (h (by simpa using hne))
      ((recordsOnly_refuseParticles words).bind (fun _ ↦ recordsOnly_headed words []))

section

variable {ph : List String → Remembering Phrase}

theorem recordsOnly_piChain (hkey : words ≠ [] → C (Word.spaced words))
    (hph : ∀ piece, piece.Sublist words → RecordsOnly (fun k ↦ C k ∧ k ≠ Word.spaced words) P (ph piece)) :
    RecordsOnly C P (piChain ph words) := by
  unfold piChain
  split
  · exact .throw _
  split
  · exact .throw _
  case isFalse.isFalse hne _ =>
    refine .chain (hkey (by simpa using hne)) (.bind (.mapM fun piece hpiece ↦ ?_) fun phrases ↦ ?_)
    · exact hph piece (sublist_of_mem_splitDropping hpiece)
    · exact recordsOnly_chainOfPhrases _ _

theorem recordsOnly_links (p : Particle) {read : List String → Remembering Chain} {runs : List (List String)}
    (hread : ∀ run ∈ runs, RecordsOnly C P (read run)) : RecordsOnly C P (runs.mapM read >>= chainOfLinks p) :=
  (RecordsOnly.mapM hread).bind (fun links ↦ recordsOnly_chainOfLinks p links)

theorem recordsOnly_coordinationOver (hkey : ∀ run, run.Sublist words → run ≠ [] → C (Word.spaced run))
    (hph : ∀ run piece, run.Sublist words → piece.Sublist run →
      RecordsOnly (fun k ↦ C k ∧ k ≠ Word.spaced run) P (ph piece)) :
    RecordsOnly C P (coordinationOver ph words) := by
  have hchain (run : List String) (hrun : run.Sublist words) : RecordsOnly C P (piChain ph run) :=
    recordsOnly_piChain (hkey run hrun) (fun piece hpiece ↦ hph run piece hrun hpiece)
  unfold coordinationOver
  split
  · exact .throw _
  split
  · exact .throw _
  split
  · exact .throw _
  refine .bind (recordsOnly_links _ fun piece hpiece ↦ recordsOnly_links _ fun run hrun ↦ ?_) fun c ↦ ?_
  · have hpiece := sublist_of_mem_splitDropping (List.mem_filter.1 hpiece).1
    exact hchain run ((sublist_of_mem_splitDropping hrun).trans hpiece)
  split
  · exact .pure c
  split
  · refine recordsOnly_links _ fun piece hpiece ↦ recordsOnly_links _ fun run hrun ↦ ?_
    have hpiece := sublist_of_mem_splitDropping (List.mem_filter.1 hpiece).1
    exact hchain run ((sublist_of_mem_splitDropping (List.mem_filter.1 hrun).1).trans hpiece)
  · exact .throw _

end

theorem recordsOnly_complement
    (h : words ≠ [] → ∀ key : String, key.length ≤ (Word.spaced words).length → C key ∧ P key) :
    RecordsOnly C P (complement lex words) := by
  cases words with
  | nil => exact .pure none
  | cons w ws =>
    have hkeys {run : List String} (hrun : run.Sublist (w :: ws)) : C (Word.spaced run) ∧ P (Word.spaced run) :=
      h (by simp) _ (length_spaced_le hrun)
    refine (recordsOnly_coordinationOver (fun run hrun _ ↦ (hkeys hrun).1) fun run piece hrun hpiece ↦ ?_).map _
    exact recordsOnly_plainPhrase fun _ ↦ (hkeys (hpiece.trans hrun)).2

theorem recordsOnly_prepPhrases {pieces : List (List String)}
    (h : ∀ piece ∈ pieces, ∀ key : String, key.length < (Word.spaced piece).length → C key ∧ P key) :
    RecordsOnly C P (prepPhrases lex pieces) := by
  induction pieces with
  | nil => exact .pure []
  | cons piece pieces ih =>
    have ih' := ih (fun q hq ↦ h q (by simp [hq]))
    cases piece with
    | nil => exact ih'
    | cons w ws =>
      rw [prepPhrases]
      split
      · refine .bind (recordsOnly_complement fun hne key hkey ↦ ?_) fun governed ↦ ih'.bind fun phrases ↦ .pure _
        apply h (w :: ws) (by simp)
        rw [length_spaced_cons w hne]
        omega
      · exact ih'

theorem recordsOnly_phrase (hC : ∀ key : String, key.length < (Word.spaced words).length → C key)
    (hP : ∀ key : String, key.length ≤ (Word.spaced words).length → P key) : RecordsOnly C P (phrase lex words) := by
  unfold phrase
  split
  · exact .throw _
  refine .phrase (hP _ (le_refl _)) ((recordsOnly_refuseParticles words).bind fun _ ↦ ?_)
  split
  case _ w ws pieces hsplit =>
    split
    · exact .throw _
    refine .bind (recordsOnly_prepPhrases fun piece hpiece key hkey ↦ ?_) fun _ ↦ recordsOnly_headed _ _
    have hpiece := length_spaced_le (sublist_of_mem_splitBefore (hsplit ▸ List.mem_cons_of_mem _ hpiece))
    have hkey := Nat.lt_of_lt_of_le hkey hpiece
    exact ⟨hC key hkey, hP key (Nat.le_of_lt hkey), fun heq ↦ by simp [heq] at hkey⟩
  · exact .throw _

end

abbrev IsReader (x : Remembering α) : Prop := RecordsOnly (fun _ ↦ True) (fun _ ↦ True) x

theorem isReader_prepPhrases (pieces : List (List String)) : IsReader (prepPhrases lex pieces) :=
  recordsOnly_prepPhrases fun _ _ _ _ ↦ ⟨trivial, trivial⟩

theorem isReader_piece {run piece : List String} (h : piece.Sublist run) :
    RecordsOnly (fun k ↦ True ∧ k ≠ Word.spaced run) (fun _ ↦ True) (phrase lex piece) := by
  refine recordsOnly_phrase (fun key hkey ↦ ⟨trivial, fun heq ↦ ?_⟩) (fun _ _ ↦ trivial)
  have hle := length_spaced_le h
  rw [heq] at hkey
  omega

theorem isReader_chain (words : List String) : IsReader (chain lex words) :=
  recordsOnly_piChain (fun _ ↦ trivial) (fun _ hpiece ↦ isReader_piece hpiece)

theorem isReader_coordination (words : List String) : IsReader (coordination lex words) :=
  recordsOnly_coordinationOver (fun _ _ _ ↦ trivial) (fun _ _ _ hpiece ↦ isReader_piece hpiece)

theorem isReader_governor (clause : List String) : IsReader (governor clause) := by
  unfold governor
  split
  · split
    · exact .pure _
    · exact .throw _
  · exact .throw _

theorem isReader_nominal (words : List String) : IsReader (nominal lex words) :=
  (isReader_chain words).bind (fun _ ↦ recordsOnly_chainOfLinks _ _)

theorem isReader_predicateKind (words : List String) : IsReader (predicateKind lex words) := by
  unfold predicateKind
  split
  · exact .pure none
  split
  · exact (isReader_nominal _).map _
  split
  · exact (isReader_nominal _).map _
  · exact .pure _

theorem isReader_object (clause words : List String) : IsReader (object lex clause words) := by
  unfold object
  split
  · exact isReader_chain _
  · exact .throw _

theorem isReader_transitive (clause : List String) : IsReader (transitive lex clause) := by
  unfold transitive
  split
  · exact .throw _
  refine (isReader_governor clause).bind (fun particle ↦ (isReader_predicateKind _).bind (fun kind ↦ ?_))
  split
  · exact .throw _
  refine (RecordsOnly.mapM fun part _ ↦ isReader_object clause part).bind (fun objects ↦ ?_)
  exact (isReader_prepPhrases _).bind (fun _ ↦ (recordsOnly_chainOfLinks _ _).bind (fun _ ↦ .pure _))

theorem isReader_intransitive (clause : List String) : IsReader (intransitive lex clause) := by
  unfold intransitive
  split
  · exact .throw _
  refine (isReader_governor clause).bind (fun particle ↦ (isReader_predicateKind _).bind (fun kind ↦ ?_))
  exact (isReader_prepPhrases _).bind (fun _ ↦ .pure _)

theorem isReader_predicate (clause : List String) : IsReader (predicate lex clause) := by
  unfold predicate
  split
  · exact .throw _
  split
  · exact isReader_transitive clause
  · exact isReader_intransitive clause

theorem isReader_addressees (runs : List (List String)) : IsReader (addressees lex runs) :=
  .mapM fun run _ ↦ isReader_coordination run

theorem isReader_openDoubleO (whole before after : List String) : IsReader (openDoubleO lex whole before after) := by
  refine (isReader_addressees _).bind (fun vocatives ↦ ?_)
  split
  · exact .pure _
  · exact .throw _
  · exact .pure _

theorem isReader_openCalls (words : List String) : IsReader (openCalls lex words) := by
  refine (isReader_addressees _).bind (fun vocatives ↦ ?_)
  dsimp only
  split
  · exact .throw _
  · exact .pure _

theorem isReader_openClause (words : List String) : IsReader (openClause lex words) := by
  unfold openClause
  split
  · exact isReader_openDoubleO _ _ _
  all_goals
    split
    · exact isReader_openCalls words
    · exact .pure _

theorem isReader_predication (whole : List String) (subject : Option Chain) (parts : List (List String)) :
    IsReader (predication lex whole subject parts) := by
  unfold predication
  split
  · exact .throw _
  · exact (RecordsOnly.mapM fun part _ ↦ isReader_predicate part).map _

theorem isReader_statement (whole : List String) (parts : List (List String)) : IsReader (statement lex whole parts) := by
  unfold statement
  split
  · exact isReader_predication whole none []
  split
  · exact isReader_predication whole none _
  · exact (isReader_coordination _).bind (fun subject ↦ isReader_predication whole _ _)

theorem isReader_body (whole : List String) (parts : List (List String)) : IsReader (body lex whole parts) := by
  unfold body
  split
  · split
    · exact .pure _
    · exact isReader_statement whole _
  · split
    · exact (isReader_coordination _).map _
    · exact isReader_statement whole _
  · exact isReader_statement whole _

theorem isReader_openedClause (whole : List String) (mark : Option Punctuation) (rest : OpenedClause) :
    IsReader (openedClause lex whole mark rest) := by
  unfold openedClause
  dsimp only
  split
  · exact .throw _
  split
  · exact .throw _
  split
  · exact .throw _
  refine (isReader_body whole _).bind (fun b ↦ ?_)
  cases b <;> exact .pure _

theorem isReader_clause (words : List String) (mark : Option Punctuation) : IsReader (clause lex words mark) := by
  refine (isReader_openClause words).bind (fun o ↦ ?_)
  cases o with
  | call addressee => exact .pure _
  | clause rest => exact isReader_openedClause words mark rest

theorem isReader_withContext (found : Context) (s : Sentence) : IsReader (withContext found s) := by
  unfold withContext
  split
  · exact .pure _
  · exact .throw _

theorem isReader_conditional (preconditions : List Sentence) (conclusion : Sentence) :
    IsReader (conditional preconditions conclusion) := by
  unfold conditional
  split
  · exact .throw _
  · exact .pure _

theorem isReader_context (words : List String) : IsReader (context lex words) := by
  unfold context
  split
  · exact (isReader_prepPhrases _).map _
  · exact (isReader_coordination words).map _

theorem isReader_attach (shown : String) (words : List String) (read : List Sentence × Sentence) :
    IsReader (attach lex shown words read) := by
  obtain ⟨preconditions, conclusion⟩ := read
  rw [attach]
  split
  · exact .throw _
  split
  · exact (isReader_clause words none).bind (fun _ ↦ .pure _)
  refine (isReader_context words).bind (fun found ↦ ?_)
  cases preconditions with
  | nil => exact (isReader_withContext found _).bind (fun _ ↦ .pure _)
  | cons nearest others => exact (isReader_withContext found _).bind (fun _ ↦ .pure _)

theorem isReader_clauses (mark : Punctuation) (shown : String) (parts : List (List String)) :
    IsReader (clauses lex mark shown parts) := by
  induction parts with
  | nil => exact .throw _
  | cons first rest ih =>
    cases rest with
    | nil => exact (isReader_clause first _).bind (fun _ ↦ .pure _)
    | cons second rest =>
      rw [clauses_cons_cons]
      exact ih.bind (fun read ↦ isReader_attach shown first read)

theorem isReader_sentence (words : List String) (mark : Punctuation) (shown : String) :
    IsReader (sentence lex words mark shown) := by
  unfold sentence
  dsimp only
  split
  · exact (isReader_coordination _).map _
  · exact .throw _
  refine (isReader_clauses mark shown _).bind (fun read ↦ ?_)
  split
  · exact .pure _
  · exact isReader_conditional _ _

theorem isReader_plainWords (text : String) (tokens : List Token) : IsReader (plainWords text tokens) := by
  induction tokens with
  | nil => exact .pure []
  | cons t rest ih =>
    rw [plainWords]
    split
    · split
      · exact ih
      · exact .throw _
    · exact ih.map _

end Reading

namespace Grammar

open Reading

theorem isReader_read (g : Grammar) (text shown : String) : IsReader (g.read text shown) := by
  unfold read
  dsimp only
  split
  · exact .throw _
  split
  · exact .throw _
  split
  · exact .pure _
  split
  · exact .throw _
  split
  · exact .throw _
  split
  · exact .throw _
  refine .bind ((isReader_plainWords text _).bind fun _ ↦ .pure _) (fun found ↦ ?_)
  split
  · exact .throw _
  · exact isReader_sentence _ _ _

/-- Whatever a memory holds, reading with it takes no entry away and changes none; and the same text read once more gives
the same and leaves all entries as they are. -/
theorem parseWith_parseWith (g : Grammar) (text shown : String) (memory : Memory) :
    let first := g.parseWith text shown memory
    let second := g.parseWith text shown first.2
    memory.Grows first.2 ∧ second.1 = first.1 ∧ first.2.SameEntries second.2 := by
  have hread : IsReader (g.read text shown) := g.isReader_read text shown
  exact ⟨hread.grows memory, hread.settles.again memory⟩

-- a chain that is not what its key says is told as it is, and stays
example :
    let memory : Memory := { chains := [("jan", .phrases .pi [⟨.word "ona", [], []⟩])] }
    let read := (⟨Vocabulary.standard.lexicon, {}⟩ : Grammar).parseWith "jan li moku e jan." "" memory
    read.1.toOption.map Sentence.text = some "ona li moku e ona." ∧ read.2.size = 1 ∧ read.2.hits = 2 := by
  decide +kernel

end Grammar

end TokiPona
