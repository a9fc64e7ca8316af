import Mathlib.Data.List.Forall2
import TokiPona.Proofs.Assembly
import TokiPona.Proofs.Shape

namespace TokiPona

theorem Lexeme.alike_refl (as : List Lexeme) : Lexeme.alike as as = true := by simp [Lexeme.alike]

theorem Lexeme.perm_of_alike {as bs : List Lexeme} (h : Lexeme.alike as bs = true) : as.Perm bs := by
  have hsort : Lexeme.sort as = Lexeme.sort bs := by simpa [Lexeme.alike] using h
  have hperm : as.Perm (Lexeme.sort bs) := hsort ▸ (List.mergeSort_perm as Lexeme.le).symm
  exact hperm.trans (List.mergeSort_perm bs Lexeme.le)

mutual

theorem Phrase.alike_refl : (p : Phrase) → p.alike p = true
  | ⟨head, modifiers, prepositions⟩ => by
    simp [Phrase.alike, Lexeme.alike_refl, PrepPhrase.allAlike_refl prepositions]

theorem PrepPhrase.alike_refl : (p : PrepPhrase) → p.alike p = true
  | ⟨preposition, none⟩ => by simp [PrepPhrase.alike]
  | ⟨preposition, some complement⟩ => by simp [PrepPhrase.alike, Chain.alike_refl complement]

theorem Chain.alike_refl : (c : Chain) → c.alike c = true
  | .phrases p phrases => by simp [Chain.alike, Phrase.allAlike_refl phrases]
  | .links p links => by simp [Chain.alike, Chain.allAlike_refl links]

theorem Phrase.allAlike_refl : (ps : List Phrase) → Phrase.allAlike ps ps = true
  | [] => by simp [Phrase.allAlike]
  | p :: ps => by simp [Phrase.allAlike, Phrase.alike_refl p, Phrase.allAlike_refl ps]

theorem PrepPhrase.allAlike_refl : (ps : List PrepPhrase) → PrepPhrase.allAlike ps ps = true
  | [] => by simp [PrepPhrase.allAlike]
  | p :: ps => by simp [PrepPhrase.allAlike, PrepPhrase.alike_refl p, PrepPhrase.allAlike_refl ps]

theorem Chain.allAlike_refl : (cs : List Chain) → Chain.allAlike cs cs = true
  | [] => by simp [Chain.allAlike]
  | c :: cs => by simp [Chain.allAlike, Chain.alike_refl c, Chain.allAlike_refl cs]

end

theorem perm_intercalate {s : String} {runs runs' : List (List String)} (h : List.Forall₂ List.Perm runs runs') :
    ([s].intercalate runs).Perm ([s].intercalate runs') := by
  have hcons (run run' : List String) (rest : List (List String)) :
      [s].intercalate (run :: run' :: rest) = run ++ [s] ++ [s].intercalate (run' :: rest) :=
    List.intercalate_cons_of_ne_nil (by simp)
  induction h with
  | nil => exact .refl _
  | cons hrun hrest ih =>
    cases hrest with
    | nil => simpa using hrun
    | cons hrun' hrest =>
      rw [hcons, hcons]
      exact (hrun.append_right _).append ih

theorem perm_flatten {runs runs' : List (List String)} (h : List.Forall₂ List.Perm runs runs') :
    runs.flatten.Perm runs'.flatten := by
  induction h with
  | nil => exact .refl _
  | cons hrun _ ih => exact hrun.append ih

mutual

theorem Phrase.perm_of_alike : (p q : Phrase) → p.alike q = true → p.spelling.Perm q.spelling
  | ⟨head, modifiers, prepositions⟩, ⟨head', modifiers', prepositions'⟩, h => by
    simp only [Phrase.alike, Bool.and_eq_true, beq_iff_eq] at h
    obtain ⟨⟨rfl, hmodifiers⟩, hprepositions⟩ := h
    simp only [Phrase.spelling, PrepPhrase.spellings_eq_map]
    refine (((Lexeme.perm_of_alike hmodifiers).flatMap_right _).append_left _).append ?_
    exact perm_flatten (PrepPhrase.perm_of_allAlike _ _ hprepositions)

theorem PrepPhrase.perm_of_alike : (p q : PrepPhrase) → p.alike q = true → p.spelling.Perm q.spelling
  | ⟨preposition, none⟩, ⟨preposition', none⟩, h => by
    obtain rfl : preposition = preposition' := by simpa [PrepPhrase.alike] using h
    exact .refl _
  | ⟨preposition, some complement⟩, ⟨preposition', some complement'⟩, h => by
    simp only [PrepPhrase.alike, Bool.and_eq_true, beq_iff_eq] at h
    obtain ⟨rfl, hcomplement⟩ := h
    exact (Chain.perm_of_alike _ _ hcomplement).cons _
  | ⟨_, none⟩, ⟨_, some _⟩, h => by simp [PrepPhrase.alike] at h
  | ⟨_, some _⟩, ⟨_, none⟩, h => by simp [PrepPhrase.alike] at h

theorem Chain.perm_of_alike : (c d : Chain) → c.alike d = true → c.spelling.Perm d.spelling
  | .phrases p phrases, .phrases p' phrases', h => by
    simp only [Chain.alike, Bool.and_eq_true, beq_iff_eq] at h
    obtain ⟨rfl, hphrases⟩ := h
    simp only [Chain.spelling, Phrase.spellings_eq_map]
    exact perm_intercalate (Phrase.perm_of_allAlike _ _ hphrases)
  | .links p links, .links p' links', h => by
    simp only [Chain.alike, Bool.and_eq_true, beq_iff_eq] at h
    obtain ⟨rfl, hlinks⟩ := h
    have hperm := Chain.perm_of_allAlike _ _ hlinks
    cases p with
    | e =>
      simp only [Chain.spelling, Chain.spellings_eq_map, List.flatMap_def]
      apply perm_flatten
      rw [List.forall₂_map_left_iff, List.forall₂_map_right_iff]
      exact hperm.imp (fun _ _ hrun ↦ hrun.cons _)
    | _ =>
      simp only [Chain.spelling, Chain.spellings_eq_map]
      exact perm_intercalate hperm
  | .phrases _ _, .links _ _, h => by simp [Chain.alike] at h
  | .links _ _, .phrases _ _, h => by simp [Chain.alike] at h

theorem Phrase.perm_of_allAlike : (ps qs : List Phrase) → Phrase.allAlike ps qs = true →
    List.Forall₂ List.Perm (ps.map Phrase.spelling) (qs.map Phrase.spelling)
  | [], [], _ => .nil
  | p :: ps, q :: qs, h => by
    simp only [Phrase.allAlike, Bool.and_eq_true] at h
    exact .cons (Phrase.perm_of_alike p q h.1) (Phrase.perm_of_allAlike ps qs h.2)
  | [], _ :: _, h => by simp [Phrase.allAlike] at h
  | _ :: _, [], h => by simp [Phrase.allAlike] at h

theorem PrepPhrase.perm_of_allAlike : (ps qs : List PrepPhrase) → PrepPhrase.allAlike ps qs = true →
    List.Forall₂ List.Perm (ps.map PrepPhrase.spelling) (qs.map PrepPhrase.spelling)
  | [], [], _ => .nil
  | p :: ps, q :: qs, h => by
    simp only [PrepPhrase.allAlike, Bool.and_eq_true] at h
    exact .cons (PrepPhrase.perm_of_alike p q h.1) (PrepPhrase.perm_of_allAlike ps qs h.2)
  | [], _ :: _, h => by simp [PrepPhrase.allAlike] at h
  | _ :: _, [], h => by simp [PrepPhrase.allAlike] at h

theorem Chain.perm_of_allAlike : (cs ds : List Chain) → Chain.allAlike cs ds = true →
    List.Forall₂ List.Perm (cs.map Chain.spelling) (ds.map Chain.spelling)
  | [], [], _ => .nil
  | c :: cs, d :: ds, h => by
    simp only [Chain.allAlike, Bool.and_eq_true] at h
    exact .cons (Chain.perm_of_alike c d h.1) (Chain.perm_of_allAlike cs ds h.2)
  | [], _ :: _, h => by simp [Chain.allAlike] at h
  | _ :: _, [], h => by simp [Chain.allAlike] at h

end

theorem forall₂_of_isEqv {α : Type} {r : α → α → Bool} {as bs : List α} (h : as.isEqv bs r = true) :
    List.Forall₂ (fun a b ↦ r a b = true) as bs := by
  induction as generalizing bs with
  | nil => cases bs <;> simp_all [List.isEqv]
  | cons a as ih =>
    cases bs with
    | nil => simp [List.isEqv] at h
    | cons b bs =>
      simp only [List.isEqv, Bool.and_eq_true] at h
      exact .cons h.1 (ih h.2)

theorem isEqv_refl {α : Type} {r : α → α → Bool} (h : ∀ a, r a a = true) (as : List α) : as.isEqv as r = true := by
  induction as with
  | nil => rfl
  | cons a as ih => simp [List.isEqv, h a, ih]

theorem PrepPhrase.forall₂_of_allAlike {ps qs : List PrepPhrase} (h : PrepPhrase.allAlike ps qs = true) :
    List.Forall₂ (fun p q ↦ p.alike q = true) ps qs := by
  induction ps generalizing qs with
  | nil => cases qs <;> simp_all [PrepPhrase.allAlike]
  | cons p ps ih =>
    cases qs with
    | nil => simp [PrepPhrase.allAlike] at h
    | cons q qs =>
      simp only [PrepPhrase.allAlike, Bool.and_eq_true] at h
      exact .cons h.1 (ih h.2)

theorem Chain.forall₂_of_allAlike {cs ds : List Chain} (h : Chain.allAlike cs ds = true) :
    List.Forall₂ (fun c d ↦ c.alike d = true) cs ds := by
  induction cs generalizing ds with
  | nil => cases ds <;> simp_all [Chain.allAlike]
  | cons c cs ih =>
    cases ds with
    | nil => simp [Chain.allAlike] at h
    | cons d ds =>
      simp only [Chain.allAlike, Bool.and_eq_true] at h
      exact .cons h.1 (ih h.2)

theorem Sentence.forall₂_of_allAlike {as bs : List Sentence} (h : Sentence.allAlike as bs = true) :
    List.Forall₂ (fun a b ↦ a.alike b = true) as bs := by
  induction as generalizing bs with
  | nil => cases bs <;> simp_all [Sentence.allAlike]
  | cons a as ih =>
    cases bs with
    | nil => simp [Sentence.allAlike] at h
    | cons b bs =>
      simp only [Sentence.allAlike, Bool.and_eq_true] at h
      exact .cons h.1 (ih h.2)

section

variable {α : Type} {R : α → α → Prop} {f : α → List String} {as bs : List α} (h : List.Forall₂ R as bs)
  (hperm : ∀ a b, R a b → (f a).Perm (f b))

include h hperm

theorem perm_flatMap : (as.flatMap f).Perm (bs.flatMap f) := by
  induction h with
  | nil => exact .refl _
  | cons hab _ ih => exact (hperm _ _ hab).append ih

theorem forall₂_of_flatMap_eq (heq : as.flatMap f = bs.flatMap f) : List.Forall₂ (fun a b ↦ R a b ∧ f a = f b) as bs := by
  induction h with
  | nil => exact .nil
  | cons hab _ ih =>
    rw [List.flatMap_cons, List.flatMap_cons] at heq
    obtain ⟨hfirst, hrest⟩ := List.append_inj heq (hperm _ _ hab).length_eq
    exact .cons ⟨hab, hfirst⟩ (ih hrest)

end

theorem Chain.alikeOption_refl (c : Option Chain) : Chain.alikeOption c c = true := by
  cases c <;> simp [Chain.alikeOption, Chain.alike_refl]

theorem PredicateKind.alike_refl (k : PredicateKind) : k.alike k = true := by
  cases k <;> simp [PredicateKind.alike, VerbPhrase.alike, Lexeme.alike_refl, Chain.alike_refl]

theorem Predicate.alike_refl (p : Predicate) : p.alike p = true := by
  simp [Predicate.alike, PredicateKind.alike_refl, Chain.alikeOption_refl, PrepPhrase.allAlike_refl]

theorem Context.alike_refl (c : Context) : c.alike c = true := by
  cases c <;> simp [Context.alike, Chain.alike_refl, PrepPhrase.allAlike_refl]

theorem SimpleSentence.alike_refl (s : SimpleSentence) : s.alike s = true := by
  simp [SimpleSentence.alike, Chain.alikeOption_refl, isEqv_refl Predicate.alike_refl, Chain.allAlike_refl,
    isEqv_refl Context.alike_refl]

mutual

theorem Sentence.alike_refl : (s : Sentence) → s.alike s = true
  | .simple s => s.alike_refl
  | .conditional preconditions conclusion => by
    simp [Sentence.alike, Sentence.allAlike_refl preconditions, Sentence.alike_refl conclusion]
  | .vocative c p => by simp [Sentence.alike, Chain.alike_refl]
  | .fragment c p => by simp [Sentence.alike, Chain.alike_refl]
  | .exclamation phrase p => by simp [Sentence.alike, Phrase.alike_refl]
  | .comment text => by simp [Sentence.alike]

theorem Sentence.allAlike_refl : (ss : List Sentence) → Sentence.allAlike ss ss = true
  | [] => by simp [Sentence.allAlike]
  | s :: ss => by simp [Sentence.allAlike, Sentence.alike_refl s, Sentence.allAlike_refl ss]

end

theorem Chain.perm_of_alikeOption {c d : Option Chain} (h : Chain.alikeOption c d = true) :
    (c.toList.flatMap Chain.spelling).Perm (d.toList.flatMap Chain.spelling) := by
  cases c <;> cases d <;> simp_all [Chain.alikeOption, Chain.perm_of_alike]

theorem VerbPhrase.perm_of_alike {v v' : VerbPhrase} (h : v.alike v' = true) : v.words.Perm v'.words := by
  simp only [VerbPhrase.alike, Bool.and_eq_true, beq_iff_eq] at h
  obtain ⟨⟨hmodals, hhead⟩, hadverbs⟩ := h
  simp only [VerbPhrase.words, VerbPhrase.lexemes, hmodals, hhead, List.flatMap_append]
  exact ((Lexeme.perm_of_alike hadverbs).flatMap_right _).append_left _

theorem PredicateKind.perm_of_alike {k k' : PredicateKind} (h : k.alike k' = true) : k.spelling.Perm k'.spelling := by
  cases k <;> cases k' <;> simp only [PredicateKind.alike, Bool.false_eq_true] at h
  · exact VerbPhrase.perm_of_alike h
  · exact Chain.perm_of_alike _ _ h
  · exact (Chain.perm_of_alike _ _ h).cons _

theorem PrepPhrase.perm_flatMap {ps qs : List PrepPhrase} (h : PrepPhrase.allAlike ps qs = true) :
    (ps.flatMap PrepPhrase.spelling).Perm (qs.flatMap PrepPhrase.spelling) :=
  TokiPona.perm_flatMap (PrepPhrase.forall₂_of_allAlike h) PrepPhrase.perm_of_alike

theorem Predicate.perm_of_alike {p q : Predicate} (h : p.alike q = true) : p.spelling.Perm q.spelling := by
  simp only [Predicate.alike, Bool.and_eq_true, beq_iff_eq] at h
  obtain ⟨⟨⟨hparticle, hkind⟩, hobjects⟩, hprepositions⟩ := h
  simp only [Predicate.spelling, hparticle, List.cons_append]
  exact (((PredicateKind.perm_of_alike hkind).append (Chain.perm_of_alikeOption hobjects)).append
    (PrepPhrase.perm_flatMap hprepositions)).cons _

theorem Context.perm_of_alike {c d : Context} (h : c.alike d = true) : c.spelling.Perm d.spelling := by
  cases c <;> cases d <;> simp only [Context.alike, Bool.false_eq_true] at h
  · exact Chain.perm_of_alike _ _ h
  · exact PrepPhrase.perm_flatMap h

namespace SimpleSentence

structure Alike (a b : SimpleSentence) : Prop where
  subject : Chain.alikeOption a.subject b.subject = true
  predicates : List.Forall₂ (fun p q ↦ p.alike q = true) a.predicates b.predicates
  conjunction : a.conjunction = b.conjunction
  vocatives : List.Forall₂ (fun c d ↦ c.alike d = true) a.vocatives b.vocatives
  tagQuestion : a.tagQuestion = b.tagQuestion
  mood : a.mood = b.mood
  placeholder : a.placeholder = b.placeholder
  contexts : List.Forall₂ (fun c d ↦ c.alike d = true) a.contexts b.contexts

variable {a b : SimpleSentence}

theorem Alike.of_alike (h : a.alike b = true) : Alike a b := by
  simp only [alike, Bool.and_eq_true, beq_iff_eq] at h
  obtain ⟨⟨⟨⟨⟨⟨⟨⟨hsubject, hpredicates⟩, -⟩, hconj⟩, hvocatives⟩, htag⟩, hmood⟩, hplaceholder⟩, hcontexts⟩ := h
  exact ⟨hsubject, forall₂_of_isEqv hpredicates, hconj, Chain.forall₂_of_allAlike hvocatives, htag, hmood, hplaceholder,
    forall₂_of_isEqv hcontexts⟩

theorem Alike.writtenSubject (h : Alike a b) : Chain.alikeOption a.writtenSubject b.writtenSubject = true := by
  unfold SimpleSentence.writtenSubject
  rw [h.placeholder]
  split
  · rfl
  · exact h.subject

theorem Alike.perm_contexts (h : Alike a b) : (a.contexts.flatMap (·.spelling ++ [Particle.la.word])).Perm
    (b.contexts.flatMap (·.spelling ++ [Particle.la.word])) :=
  perm_flatMap h.contexts (fun _ _ hc ↦ (Context.perm_of_alike hc).append_right _)

theorem Alike.perm_vocatives (h : Alike a b) : (a.vocatives.flatMap (·.spelling ++ [Particle.o.word])).Perm
    (b.vocatives.flatMap (·.spelling ++ [Particle.o.word])) :=
  perm_flatMap h.vocatives (fun _ _ hc ↦ (Chain.perm_of_alike _ _ hc).append_right _)

theorem Alike.perm_body (h : Alike a b) : a.body.Perm b.body := by
  unfold body
  rw [h.mood]
  exact ((Chain.perm_of_alikeOption h.writtenSubject).append_left _).append
    (perm_flatMap h.predicates (fun _ _ hp ↦ Predicate.perm_of_alike hp))

theorem Alike.perm (h : Alike a b) : a.spelling.Perm b.spelling := by
  rw [spelling_eq, spelling_eq, ending, ending, h.conjunction, h.tagQuestion]
  exact h.perm_contexts.append (h.perm_vocatives.append ((h.perm_body.append_right _).append_left _))

theorem Alike.parts_eq (h : Alike a b) (heq : a.spelling = b.spelling) :
    List.Forall₂ (fun c d ↦ c.alike d = true ∧ c.spelling = d.spelling) a.contexts b.contexts ∧ a.body = b.body ∧
      List.Forall₂ (fun p q ↦ p.alike q = true ∧ p.spelling = q.spelling) a.predicates b.predicates := by
  rw [spelling_eq, spelling_eq] at heq
  obtain ⟨hcontexts, heq⟩ := List.append_inj heq h.perm_contexts.length_eq
  obtain ⟨-, heq⟩ := List.append_inj heq h.perm_vocatives.length_eq
  rw [ending, ending, h.conjunction, h.tagQuestion] at heq
  have hbody := List.append_cancel_right (List.append_cancel_left heq)
  refine ⟨?_, hbody, ?_⟩
  · have hparts := forall₂_of_flatMap_eq h.contexts (fun _ _ hc ↦ (Context.perm_of_alike hc).append_right _) hcontexts
    exact hparts.imp (fun _ _ hc ↦ ⟨hc.1, List.append_cancel_right hc.2⟩)
  · rw [body, body, h.mood] at hbody
    obtain ⟨-, hpredicates⟩ := List.append_inj hbody (by simp [(Chain.perm_of_alikeOption h.writtenSubject).length_eq])
    exact forall₂_of_flatMap_eq h.predicates (fun _ _ hp ↦ Predicate.perm_of_alike hp) hpredicates

end SimpleSentence

mutual

theorem Sentence.perm_of_alike : (a b : Sentence) → a.alike b = true → a.spelling.Perm b.spelling
  | .simple s, b, h => by
    cases b with
    | simple s' => exact (SimpleSentence.Alike.of_alike h).perm
    | _ => simp [Sentence.alike] at h
  | .conditional preconditions conclusion, b, h => by
    cases b with
    | conditional preconditions' conclusion' =>
      simp only [Sentence.alike, Bool.and_eq_true] at h
      exact (Sentence.perm_of_allAlike preconditions preconditions' h.1).append
        (Sentence.perm_of_alike conclusion conclusion' h.2)
    | _ => simp [Sentence.alike] at h
  | .vocative c p, b, h => by
    cases b with
    | vocative c' p' =>
      simp only [Sentence.alike, Bool.and_eq_true] at h
      exact (Chain.perm_of_alike _ _ h.1).append_right _
    | _ => simp [Sentence.alike] at h
  | .fragment c p, b, h => by
    cases b with
    | fragment c' p' =>
      simp only [Sentence.alike, Bool.and_eq_true] at h
      exact (Chain.perm_of_alike _ _ h.1).append_right _
    | _ => simp [Sentence.alike] at h
  | .exclamation phrase p, b, h => by
    cases b with
    | exclamation phrase' p' =>
      simp only [Sentence.alike, Bool.and_eq_true] at h
      exact Phrase.perm_of_alike _ _ h.1
    | _ => simp [Sentence.alike] at h
  | .comment text, b, h => by
    cases b with
    | comment text' => exact .refl _
    | _ => simp [Sentence.alike] at h

theorem Sentence.perm_of_allAlike : (as bs : List Sentence) → Sentence.allAlike as bs = true →
    (Sentence.preconditionSpellings as).Perm (Sentence.preconditionSpellings bs)
  | [], [], _ => .refl _
  | a :: as, b :: bs, h => by
    simp only [Sentence.allAlike, Bool.and_eq_true] at h
    exact (Sentence.perm_of_alike a b h.1).append ((Sentence.perm_of_allAlike as bs h.2).cons _)
  | [], _ :: _, h => by simp [Sentence.allAlike] at h
  | _ :: _, [], h => by simp [Sentence.allAlike] at h

end

end TokiPona
