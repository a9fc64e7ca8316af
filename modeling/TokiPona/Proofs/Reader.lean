import Mathlib.Data.List.Forall2
import TokiPona.Reading.Phrase
import TokiPona.Proofs.Cut

namespace TokiPona.Reading

theorem mapM_congr_of_mem {m : Type → Type} [Monad m] [LawfulMonad m] {α β : Type} {f f' : α → m β} {xs : List α}
    (h : ∀ x ∈ xs, f x = f' x) : xs.mapM f = xs.mapM f' := by
  induction xs with
  | nil => rfl
  | cons x xs ih =>
    rw [List.mapM_cons, List.mapM_cons, h x (by simp), ih (fun y hy ↦ h y (by simp [hy]))]

section

variable {α β : Type}

@[simp] theorem pure_eq_ok {a b : α} : (pure a : Except ParseError α) = .ok b ↔ a = b := by
  constructor <;> intro h
  · exact Except.ok.inj h
  · rw [h]
    rfl

@[simp] theorem throw_ne_ok {e : ParseError} {a : α} : ¬ (throw e : Except ParseError α) = .ok a := nofun

@[simp] theorem ok_bind {a : α} {f : α → Except ParseError β} : (Except.ok a >>= f) = f a := rfl

theorem bind_eq_ok {x : Except ParseError α} {f : α → Except ParseError β} {b : β} :
    (x >>= f) = .ok b ↔ ∃ a, x = .ok a ∧ f a = .ok b := by
  cases x with
  | error e => exact ⟨nofun, fun ⟨_, h, _⟩ ↦ nomatch h⟩
  | ok a => exact ⟨fun h ↦ ⟨a, rfl, h⟩, fun ⟨_, h, h'⟩ ↦ Except.ok.inj h ▸ h'⟩

theorem map_eq_ok {x : Except ParseError α} {f : α → β} {b : β} : f <$> x = .ok b ↔ ∃ a, x = .ok a ∧ f a = b := by
  rw [map_eq_pure_bind, bind_eq_ok]
  simp

theorem mapM_eq_ok {f : α → Except ParseError β} {xs : List α} {ys : List β} :
    xs.mapM f = .ok ys ↔ List.Forall₂ (fun x y ↦ f x = .ok y) xs ys := by
  induction xs generalizing ys with
  | nil =>
    rw [List.mapM_nil, List.forall₂_nil_left_iff, pure_eq_ok]
    exact eq_comm
  | cons x xs ih =>
    rw [List.mapM_cons, bind_eq_ok, List.forall₂_cons_left_iff]
    constructor
    · rintro ⟨y, hy, h⟩
      obtain ⟨zs, hzs, h⟩ := bind_eq_ok.1 h
      exact ⟨y, zs, hy, ih.1 hzs, (pure_eq_ok.1 h).symm⟩
    · rintro ⟨y, zs, hy, hzs, rfl⟩
      exact ⟨y, hy, bind_eq_ok.2 ⟨zs, ih.2 hzs, rfl⟩⟩

end

section

variable {m : Type → Type} [Monad m] [LawfulMonad m] [MonadExceptOf ParseError m] [Recall m]
variable {ph ph' : List String → m Phrase} {words : List String}

theorem piChain_congr (h : ∀ run : List String, (∀ w ∈ run, w ∈ words) → ph run = ph' run) :
    piChain ph words = piChain ph' words := by
  have hmap : (splitDropping isPi words).mapM ph = (splitDropping isPi words).mapM ph' :=
    mapM_congr_of_mem (fun piece hpiece ↦ h piece (mem_of_mem_splitDropping hpiece))
  simp only [piChain, hmap]

theorem coordinationOver_congr (h : ∀ run : List String, (∀ w ∈ run, w ∈ words) → ph run = ph' run) :
    coordinationOver ph words = coordinationOver ph' words := by
  have hpiece {q : String → Bool} {piece part : List String} (hpiece : piece ∈ splitDropping q words) {r : String → Bool}
      (hpart : part ∈ splitDropping r piece) : piChain ph part = piChain ph' part := by
    refine piChain_congr (fun run hrun ↦ h run (fun w hw ↦ ?_))
    exact mem_of_mem_splitDropping hpiece w (mem_of_mem_splitDropping hpart w (hrun w hw))
  have hfirst : coordinationFirst ph words = coordinationFirst ph' words := by
    unfold coordinationFirst
    congr 1
    apply mapM_congr_of_mem
    intro piece hmem
    congr 1
    apply mapM_congr_of_mem
    intro part hpart
    exact hpiece (List.mem_filter.1 hmem).1 hpart
  have hsecond : modificationFirst ph words = modificationFirst ph' words := by
    unfold modificationFirst
    congr 1
    apply mapM_congr_of_mem
    intro piece hmem
    congr 1
    apply mapM_congr_of_mem
    intro part hpart
    exact hpiece (List.mem_filter.1 hmem).1 (List.mem_filter.1 hpart).1
  simp only [coordinationOver, hfirst, hsecond]

end

section

variable {m : Type → Type} [Monad m] [LawfulMonad m] [MonadExceptOf ParseError m] [Recall m]
variable (lex : Lexicon)

def NoPreposition (words : List String) : Prop := ∀ w ∈ words, Word.isPreposition w = false

theorem NoPreposition.splitBefore_eq {words : List String} (h : NoPreposition words) (hne : words ≠ []) :
    splitBefore Word.isPreposition words = [words] :=
  splitBefore_of_tail hne (fun v hv ↦ h v (List.mem_of_mem_tail hv))

theorem plainPhrase_eq_phrase {words : List String} (h : NoPreposition words) :
    (plainPhrase lex words : m Phrase) = phrase lex words := by
  cases words with
  | nil => rfl
  | cons w ws =>
    have hw : Word.isPreposition w = false := h w (by simp)
    simp only [plainPhrase, phrase, h.splitBefore_eq (by simp), hw, prepPhrases, pure_bind]
    rfl

theorem coordinationOver_plainPhrase {words : List String} (h : NoPreposition words) :
    (coordinationOver (plainPhrase lex) words : m Chain) = coordination lex words :=
  coordinationOver_congr (fun _ hrun ↦ plainPhrase_eq_phrase lex (fun w hw ↦ h w (hrun w hw)))

theorem complement_of_ne_nil {words : List String} (hne : words ≠ []) (h : NoPreposition words) :
    (complement lex words : m (Option Chain)) = some <$> coordination lex words := by
  cases words with
  | nil => exact absurd rfl hne
  | cons w ws =>
    rw [complement, coordinationOver_plainPhrase lex h]
    simp

end

end TokiPona.Reading
